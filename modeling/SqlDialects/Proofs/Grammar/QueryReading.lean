import SqlDialects.Proofs.Grammar.ExpressionReading
import SqlDialects.Proofs.Grammar.Query

/-
Queries are read as they are spelled. Behind each clause the text either ends or goes on with the
keyword of a later clause, and these keywords are reserved: no expression goes on with one, and none
is an alias.
-/
namespace SqlDialects

open Reader Spelling

def clauseWords : List String :=
  ["FROM", "JOIN", "INNER", "LEFT", "RIGHT", "FULL", "CROSS", "ON", "WHERE", "GROUP", "HAVING",
    "ORDER", "DESC", "ASC", "LIMIT", "OFFSET", "FETCH"]

def Opens (words : List String) (s : List Char) : Prop := skipGaps s = [] ∨ leadingWord s ∈ words

theorem Opens.more {words others : List String} {s : List Char} (opens : Opens words s)
    (fewer : ∀ w ∈ words, w ∈ others) : Opens others s :=
  opens.imp id (fewer _)

def Follows (words : List String) (s : List Char) : Prop := front s = some ',' ∨ Opens words s

theorem Follows.more {words others : List String} {s : List Char} (follows : Follows words s)
    (fewer : ∀ w ∈ words, w ∈ others) : Follows others s :=
  follows.imp id fun opens => opens.more fewer

namespace Reader

theorem clauseWords_apart {word : String} (listed : word ∈ clauseWords) :
    word ∈ reservedWords ∧ word ≠ "AS" ∧ word ∉ comparisonWords ++ ["AND"] ++ ["OR"] := by
  have each := List.all_eq_true.mp (rfl : clauseWords.all (fun word => reservedWords.contains word
    && word != "AS" && !(comparisonWords ++ ["AND"] ++ ["OR"]).contains word) = true) word listed
  simpa [and_assoc] using each

theorem reserved_of_comparison {word : String}
    (listed : word ∈ comparisonWords ++ ["AND"] ++ ["OR"]) : word ∈ reservedWords := by
  have each := List.all_eq_true.mp (rfl : (comparisonWords ++ ["AND"] ++ ["OR"]).all
    (fun word => reservedWords.contains word) = true) word listed
  simpa using each

theorem opens_of_keyword {words : List String} {word : String} {t rest : List Char}
    (spelled : KeywordText word () t rest) (capital : Capital word) (listed : word ∈ words) :
    Opens words (t ++ rest) :=
  .inr (by rwa [keyword_leads spelled capital])

theorem leadingWord_of_end {s : List Char} (ended : skipGaps s = []) : leadingWord s = "" := by
  rw [leadingWord, ended]
  rfl

theorem keyword_fails_of_opens {words : List String} (word : String) {s : List Char}
    (opens : Opens words s) (capital : Capital word) (nonempty : word ≠ "") (other : word ∉ words) :
    Fails (keyword word) s := by
  refine keyword_fails word capital fun same => ?_
  rcases opens with ended | listed
  · exact nonempty (by rw [← same, leadingWord_of_end ended])
  · exact other (by rwa [← same])

theorem front_of_opens {words : List String} {s : List Char} {c : Char} (opens : Opens words s)
    (reserved : ∀ w ∈ words, w ∈ reservedWords) (first : front s = some c) : c.isAlpha = true := by
  rcases opens with ended | listed
  · rw [front, ended] at first
    cases first
  · obtain ⟨d, found, letter⟩ := front_of_leadingWord (capital_reserved (reserved _ listed))
      (reserved_nonempty (reserved _ listed)) rfl
    rw [first] at found
    cases found
    exact letter

theorem follows_ends {s : List Char} (follows : Follows clauseWords s) : EndsExpr s := by
  rcases follows with comma | ended | listed
  · exact endsExpr_of_mark comma (by simp)
  · exact ends_of_end ended (by decide)
  · refine ⟨fun c first => ?_, (clauseWords_apart listed).2.2⟩
    have letter := @front_of_opens clauseWords _ _ (.inr listed)
      (fun w member => (clauseWords_apart member).1) first
    exact Text.not_mem_of_all letter rfl

theorem part_fails_reserved {s : List Char} (solid : afterGap s = none)
    (reserved : leadingWord s ∈ reservedWords) : Fails quotedNamePart s := by
  cases found : quotedNamePart s with
  | error stuck => exact ⟨stuck, found⟩
  | ok result =>
    obtain ⟨t, rfl, spelled⟩ := sound_part _ _ _ found
    exact absurd rfl (part_leads spelled solid reserved)

/-! Aliases. -/

theorem newName_fails {s : List Char} (follows : Follows clauseWords s) :
    Fails (do let _ ← option (keyword "AS"); gaps; quotedNamePart) s := by
  have word : Fails (keyword "AS") s := by
    rcases follows with comma | opens
    · refine keyword_fails "AS" rfl ?_
      rw [leadingWord_of_mark comma rfl]
      decide
    · exact keyword_fails_of_opens "AS" opens rfl (by decide)
        fun listed => (clauseWords_apart listed).2.1 rfl
  have part : Fails quotedNamePart (skipGaps s) := by
    rcases follows with comma | ended | listed
    · refine part_fails fun c first => ?_
      have same := first.symm.trans comma
      cases same
      decide
    · rw [ended]
      exact part_fails fun c first => by cases first
    · refine part_fails_reserved (afterGap_skipGaps s) ?_
      rw [leadingWord, skipGaps_skipGaps]
      exact (clauseWords_apart listed).1
  rw [Fails, bind_of_ok (option_of_fails word)]
  exact part

theorem newName_complete {name : String} {t rest : List Char} (spelled : NewNameText name t rest) :
    (do let _ ← option (keyword "AS"); gaps; quotedNamePart : Reader String) (t ++ rest)
      = .ok (name, rest) := by
  cases spelled with
  | @mk word name as g t rest optional gap part =>
    have begun : option (keyword "AS") (as ++ (g ++ (t ++ rest))) = .ok (word, g ++ (t ++ rest)) := by
      cases optional with
      | missing =>
        refine option_of_fails (keyword_fails "AS" rfl ?_)
        rw [List.nil_append, leadingWord_gap gap]
        exact part_leads part (gap_solid gap) (by decide)
      | there h => exact option_of_ok (keyword_complete h rfl)
    have skipped : gaps (g ++ (t ++ rest)) = .ok ((), t ++ rest) := by rw [gaps, gap]
    simp only [List.append_assoc]
    rw [bind_of_ok begun, bind_of_ok skipped]
    exact part_complete part

theorem alias_complete {name : Option String} {t rest : List Char} (spelled : AliasText name t rest)
    (follows : Follows clauseWords rest) : aliasName (t ++ rest) = .ok (name, rest) := by
  cases spelled with
  | missing => exact option_of_fails (newName_fails follows)
  | there h => exact option_of_ok (newName_complete h)

theorem newName_ends {name : String} {t rest : List Char} (spelled : NewNameText name t rest) :
    EndsExpr (t ++ rest) := by
  cases spelled with
  | @mk word name as g t rest optional gap part =>
    simp only [List.append_assoc]
    cases optional with
    | missing =>
      rw [List.nil_append]
      refine ⟨fun c first => ?_, fun listed => ?_⟩
      · rw [front_gap gap] at first
        obtain ⟨d, same, quote | start⟩ := part_head part
        · rw [first] at same
          cases same
          simp only [List.mem_cons, List.not_mem_nil, or_false] at quote
          rcases quote with rfl | rfl <;> decide
        · rw [first] at same
          cases same
          exact Text.not_mem_of_all start rfl
      · rw [leadingWord_gap gap] at listed
        exact part_leads part (gap_solid gap) (reserved_of_comparison listed) rfl
    | there h => exact ends_of_keyword h rfl (by decide) (by decide) rfl

theorem alias_ends {name : Option String} {t rest : List Char} (spelled : AliasText name t rest)
    (follows : Follows clauseWords rest) : EndsExpr (t ++ rest) := by
  cases spelled with
  | missing => exact follows_ends follows
  | there h => exact newName_ends h

theorem endsExpr_undotted {s : List Char} (ended : EndsExpr s) : s.head? ≠ some '.' :=
  head_ne_of_front (by decide) fun dot => ended.mark '.' dot (by decide)

/-! Items of lists. -/

theorem expr_complete {e : Expr} {t rest : List Char} (spelled : AnyExprText e t rest)
    (ended : EndsExpr rest) : expr (t ++ rest) = .ok (e, rest) := by
  obtain ⟨depth, spelled⟩ := spelled
  exact complete_exprWithin ((t ++ rest).length + 1) depth t.length (by simp) e t rest
    (Nat.le_refl _) spelled ended

theorem selectItem_complete {item : SelectItem} {t rest : List Char}
    (spelled : SelectItemText item t rest) (follows : Follows clauseWords rest) :
    selectItem (t ++ rest) = .ok (item, rest) := by
  cases spelled with
  | mk value shown =>
    rw [List.append_assoc, selectItem, bind_of_ok (expr_complete value (alias_ends shown follows)),
      bind_of_ok (alias_complete shown follows)]
    rfl

theorem tableRef_complete {table : TableRef} {t rest : List Char}
    (spelled : TableRefText table t rest) (follows : Follows clauseWords rest) :
    tableRef (t ++ rest) = .ok (table, rest) := by
  cases spelled with
  | mk path shown =>
    have named := quotedPath_complete path (.inl (endsExpr_undotted (alias_ends shown follows)))
    rw [List.append_assoc, tableRef, bind_of_ok named, bind_of_ok (alias_complete shown follows)]
    rfl

section Lists

variable {α : Type} {r : Reader α} {item : Spelling α} {words : List String}

theorem list_complete (known : ∀ w ∈ words, w ∈ reservedWords)
    (complete : ∀ a t rest, item a t rest → Follows words rest → r (t ++ rest) = .ok (a, rest))
    {as : List α} {t rest : List Char} (spelled : Separated (SymbolText ",") item as t rest)
    (opens : Opens words rest) :
    separatedBy (symbol ",") r (t ++ rest) = .ok (as, rest) := by
  refine complete_separatedBy (fun _ _ _ => symbol_complete)
    (fun a t rest _ => complete a t rest) ?_ (fun _ => .inr) ?_
    (fun _ _ _ => symbolText_ne_nil (by decide)) as t rest (Nat.le_refl _) spelled opens
  · intro _ m rest comma
    exact .inl (by rw [front, symbol_front comma]; rfl)
  · intro rest opens
    refine bind_fails (symbol_fails (c := ',') rfl fun comma => ?_)
    have letter := front_of_opens opens known comma
    cases letter

theorem listClause_complete {head : Reader Unit} {mark : Spelling Unit} {as : List α}
    {t rest : List Char} (spelled : ListText mark item as t rest)
    (begun : ∀ t rest, mark () t rest → head (t ++ rest) = .ok ((), rest))
    (known : ∀ w ∈ words, w ∈ reservedWords)
    (complete : ∀ a t rest, item a t rest → Follows words rest → r (t ++ rest) = .ok (a, rest))
    (fails : Fails head rest) (opens : Opens words rest) :
    listClause head r (t ++ rest) = .ok (as, rest) := by
  cases spelled with
  | missing => exact (bind_of_ok (option_of_fails (bind_fails fails))).trans rfl
  | @there as t u rest marked listed =>
    have read : (do head; separatedBy (symbol ",") r : Reader (List α)) (t ++ (u ++ rest))
        = .ok (as, rest) :=
      (bind_of_ok (begun t _ marked)).trans (list_complete known complete listed opens)
    rw [List.append_assoc]
    exact (bind_of_ok (option_of_ok read)).trans rfl

end Lists

theorem condition_complete (word : String) (capital : Capital word) {condition : Option Expr}
    {t rest : List Char} (spelled : ConditionText word condition t rest)
    (fails : Fails (keyword word) rest) (opens : Opens clauseWords rest) :
    conditionClause word (t ++ rest) = .ok (condition, rest) := by
  cases spelled with
  | missing => exact option_of_fails (bind_fails fails)
  | there h =>
    obtain ⟨_, m, v, rfl, mark, value⟩ := h
    refine option_of_ok ?_
    rw [List.append_assoc, bind_of_ok (keyword_complete mark capital)]
    exact expr_complete value (follows_ends (.inr opens))

theorem condition_opens {word : String} {words : List String} {condition : Option Expr}
    {t rest : List Char} (spelled : ConditionText word condition t rest) (capital : Capital word)
    (opens : Opens words rest) :
    Opens (word :: words) (t ++ rest) := by
  cases spelled with
  | missing => exact opens.more fun w member => by simp [member]
  | there h =>
    obtain ⟨_, m, v, rfl, mark, value⟩ := h
    rw [List.append_assoc]
    exact opens_of_keyword mark capital (by simp)

/-! Joins. -/

theorem outerJoin_fails {side : String} {kind : JoinKind} {s : List Char}
    (failed : Fails (keyword side) s) : Fails (outerJoin side kind) s := bind_fails failed

theorem joinKind_complete {kind : JoinKind} {t rest : List Char}
    (spelled : JoinKindText kind t rest) : joinKind (t ++ rest) = .ok (kind, rest) := by
  have inner_fails : ∀ {word : String} {t rest : List Char}, KeywordText word () t rest →
      Capital word → word ≠ "INNER" → word ≠ "JOIN" →
      Fails (do let _ ← option (keyword "INNER"); keyword "JOIN"; pure JoinKind.inner)
        (t ++ rest) := by
    intro word t rest mark capital notInner notJoin
    have inner := keyword_fails_of_keyword "INNER" mark capital rfl notInner
    rw [Fails, bind_of_ok (option_of_fails inner)]
    exact bind_fails (keyword_fails_of_keyword "JOIN" mark capital rfl notJoin)
  cases spelled with
  | @inner word t u rest optional join =>
    have begun : option (keyword "INNER") (t ++ (u ++ rest)) = .ok (word, u ++ rest) :=
      maybe_complete (fun _ _ _ h => keyword_complete h rfl) optional
        (keyword_fails_of_keyword "INNER" join rfl rfl (by decide))
    rw [List.append_assoc]
    refine orElse_of_ok ?_
    rw [bind_of_ok begun, bind_of_ok (keyword_complete join rfl)]
    rfl
  | @outer side kind word t u v rest listed mark optional join =>
    have capital := capital_outer listed
    have optionalRead : option (keyword "OUTER") (u ++ (v ++ rest)) = .ok (word, v ++ rest) :=
      maybe_complete (fun _ _ _ h => keyword_complete h rfl) optional
        (keyword_fails_of_keyword "OUTER" join rfl rfl (by decide))
    have read : outerJoin side kind (t ++ (u ++ (v ++ rest))) = .ok (kind, rest) := by
      rw [outerJoin, bind_of_ok (keyword_complete mark capital), bind_of_ok optionalRead,
        bind_of_ok (keyword_complete join rfl)]
      rfl
    simp only [List.append_assoc]
    simp only [outerSides, List.mem_cons, Prod.mk.injEq, List.not_mem_nil, or_false] at listed
    rcases listed with ⟨rfl, rfl⟩ | ⟨rfl, rfl⟩ | ⟨rfl, rfl⟩
    · rw [joinKind, orElse_of_fails (inner_fails mark rfl (by decide) (by decide))]
      exact orElse_of_ok read
    · rw [joinKind, orElse_of_fails (inner_fails mark rfl (by decide) (by decide)),
        orElse_of_fails (outerJoin_fails (keyword_fails_of_keyword "LEFT" mark rfl rfl (by decide)))]
      exact orElse_of_ok read
    · rw [joinKind, orElse_of_fails (inner_fails mark rfl (by decide) (by decide)),
        orElse_of_fails (outerJoin_fails (keyword_fails_of_keyword "LEFT" mark rfl rfl (by decide))),
        orElse_of_fails (outerJoin_fails (keyword_fails_of_keyword "RIGHT" mark rfl rfl (by decide)))]
      exact orElse_of_ok read
  | @cross t u rest mark join =>
    rw [List.append_assoc, joinKind,
      orElse_of_fails (inner_fails mark rfl (by decide) (by decide)),
      orElse_of_fails (outerJoin_fails (keyword_fails_of_keyword "LEFT" mark rfl rfl (by decide))),
      orElse_of_fails (outerJoin_fails (keyword_fails_of_keyword "RIGHT" mark rfl rfl (by decide))),
      orElse_of_fails (outerJoin_fails (keyword_fails_of_keyword "FULL" mark rfl rfl (by decide))),
      bind_of_ok (keyword_complete mark rfl), bind_of_ok (keyword_complete join rfl)]
    rfl

def joinWords : List String := ["JOIN", "INNER", "LEFT", "RIGHT", "FULL", "CROSS"]

def filterWords : List String := ["WHERE", "GROUP", "HAVING", "ORDER", "LIMIT", "OFFSET", "FETCH"]

theorem joinKind_leads {kind : JoinKind} {t rest : List Char}
    (spelled : JoinKindText kind t rest) : leadingWord (t ++ rest) ∈ joinWords := by
  cases spelled with
  | inner optional join =>
    rw [List.append_assoc]
    cases optional with
    | missing => rw [List.nil_append, keyword_leads join rfl]; decide
    | there h => rw [keyword_leads h rfl]; decide
  | outer listed mark optional join =>
    rw [List.append_assoc, List.append_assoc, keyword_leads mark (capital_outer listed)]
    simp only [outerSides, List.mem_cons, Prod.mk.injEq, List.not_mem_nil, or_false] at listed
    rcases listed with ⟨rfl, rfl⟩ | ⟨rfl, rfl⟩ | ⟨rfl, rfl⟩ <;> decide
  | cross mark join => rw [List.append_assoc, keyword_leads mark rfl]; decide

theorem joinKind_fails {s : List Char} (opens : Opens filterWords s) : Fails joinKind s := by
  cases found : joinKind s with
  | error stuck => exact ⟨stuck, found⟩
  | ok result =>
    obtain ⟨t, rfl, spelled⟩ := sound_joinKind _ _ _ found
    have leads := joinKind_leads spelled
    rcases opens with ended | listed
    · rw [leadingWord_of_end ended] at leads
      exact absurd leads (by decide)
    · have apart : ∀ w ∈ joinWords, w ∉ filterWords := by decide
      exact absurd listed (apart _ leads)

theorem complete_join (size : Nat) :
    Complete join JoinText size (Opens (joinWords ++ filterWords)) := by
  intro found text rest _ spelled opens
  cases spelled with
  | @mk kind table condition t u v rest mark joined on =>
    have clause : Opens clauseWords rest := opens.more (by decide)
    have after : Opens clauseWords (v ++ rest) :=
      (condition_opens on rfl opens).more (by decide)
    have none : Fails (keyword "ON") rest :=
      keyword_fails_of_opens "ON" opens rfl (by decide) (by decide)
    simp only [List.append_assoc]
    rw [join, bind_of_ok (joinKind_complete mark), bind_of_ok (tableRef_complete joined (.inr after))]
    exact (bind_of_ok (condition_complete "ON" rfl on none clause)).trans rfl

theorem joinText_leads {found : Join} {t rest : List Char} (spelled : JoinText found t rest) :
    leadingWord (t ++ rest) ∈ joinWords := by
  cases spelled with
  | mk mark joined on => simpa using joinKind_leads mark

theorem joinText_ne_nil {found : Join} {t rest : List Char} (spelled : JoinText found t rest) :
    t ≠ [] := by
  cases spelled with
  | mk mark joined on =>
    cases mark with
    | inner optional join => simp [keywordText_ne_nil (by decide) join]
    | outer listed mark optional join => simp [keywordText_ne_nil (by decide) join]
    | cross mark join => simp [keywordText_ne_nil (by decide) join]

theorem joins_complete {joins : List Join} {t rest : List Char}
    (spelled : Many JoinText joins t rest) (opens : Opens filterWords rest) :
    many join (t ++ rest) = .ok (joins, rest) := by
  refine complete_many (complete_join t.length) ?_ (fun rest opens => opens.more (by simp_all))
    (fun rest opens => bind_fails (joinKind_fails opens)) ?_ joins t rest (Nat.le_refl _) spelled
    opens
  · intro found t rest spelled
    exact .inr (by simp [joinText_leads spelled])
  · intro found t rest spelled
    exact joinText_ne_nil spelled

theorem joins_opens {joins : List Join} {t rest : List Char}
    (spelled : Many JoinText joins t rest) (opens : Opens filterWords rest) :
    Opens (joinWords ++ filterWords) (t ++ rest) := by
  cases spelled with
  | none => exact opens.more fun w member => by simp [member]
  | more head tail =>
    rw [List.append_assoc]
    exact .inr (by simp [joinText_leads head])

/-! Order and pages. -/

theorem direction_complete {way : Bool} {t rest : List Char} (spelled : DirectionText way t rest) :
    ((do keyword "DESC"; pure true) <|> (do keyword "ASC"; pure false) : Reader Bool) (t ++ rest)
      = .ok (way, rest) := by
  cases spelled with
  | descending h =>
    refine orElse_of_ok ?_
    rw [bind_of_ok (keyword_complete h rfl)]
    rfl
  | ascending h =>
    rw [orElse_of_fails (bind_fails (keyword_fails_of_keyword "DESC" h rfl rfl (by decide))),
      bind_of_ok (keyword_complete h rfl)]
    rfl

def pageWords : List String := ["LIMIT", "OFFSET", "FETCH"]

theorem direction_fails {s : List Char} (follows : Follows pageWords s) :
    Fails ((do keyword "DESC"; pure true) <|> (do keyword "ASC"; pure false)) s := by
  have word : ∀ w, Capital w → w ≠ "" → w ∉ pageWords → Fails (keyword w) s := by
    intro w capital nonempty other
    rcases follows with comma | opens
    · exact keyword_fails w capital (by rw [leadingWord_of_mark comma rfl]; exact nonempty.symm)
    · exact keyword_fails_of_opens w opens capital nonempty other
  rw [Fails, orElse_of_fails (bind_fails (word "DESC" rfl (by decide) (by decide)))]
  exact bind_fails (word "ASC" rfl (by decide) (by decide))

theorem orderItem_complete {item : OrderItem} {t rest : List Char}
    (spelled : OrderItemText item t rest) (follows : Follows pageWords rest) :
    orderItem (t ++ rest) = .ok (item, rest) := by
  cases spelled with
  | @mk e direction t u rest value way =>
    have ended : EndsExpr (u ++ rest) := by
      cases way with
      | missing => exact follows_ends (follows.more (by decide))
      | there h =>
        cases h with
        | descending h => exact follows_ends (.inr (opens_of_keyword h rfl (by decide)))
        | ascending h => exact follows_ends (.inr (opens_of_keyword h rfl (by decide)))
    have directed := maybe_complete (fun _ _ _ => direction_complete) way (direction_fails follows)
    rw [List.append_assoc, orderItem, bind_of_ok (expr_complete value ended)]
    exact (bind_of_ok directed).trans rfl

theorem either_complete {one other : String} {a : Unit} {t rest : List Char}
    (spelled : EitherWord one other a t rest) (capital : Capital one) (also : Capital other)
    (apart : other ≠ one) :
    (keyword one <|> keyword other) (t ++ rest) = .ok (a, rest) := by
  rcases spelled with first | second
  · exact orElse_of_ok (keyword_complete first capital)
  · rw [orElse_of_fails (keyword_fails_of_keyword one second also capital apart)]
    exact keyword_complete second also

theorem either_front {one other : String} {a : Unit} {t rest : List Char}
    (spelled : EitherWord one other a t rest) (capital : Capital one) (also : Capital other)
    (nonempty : one.toList ≠ []) (nonemptyToo : other.toList ≠ []) :
    ∃ c, front (t ++ rest) = some c ∧ c.isAlpha = true := by
  rcases spelled with first | second
  · exact keyword_front first capital nonempty
  · exact keyword_front second also nonemptyToo

theorem rowCount_fails_of_letter {c : Char} {s : List Char} (first : front s = some c)
    (letter : c.isAlpha = true) : Fails rowCount s :=
  rowCount_fails fun d found => by
    rw [first] at found
    cases found
    exact Text.not_isDigit_of_isAlpha c letter

theorem rows_complete {a : Unit} {t rest : List Char} (spelled : EitherWord "ROWS" "ROW" a t rest) :
    rowsKeyword (t ++ rest) = .ok (a, rest) :=
  either_complete spelled rfl rfl (by decide)

theorem fetch_complete {n : UInt64} {t rest : List Char} (spelled : FetchText n t rest) :
    fetchClause (t ++ rest) = .ok (n, rest) := by
  cases spelled with
  | @mk count f n c r o rest fetch next number rows only =>
    obtain ⟨d, first, letter⟩ := either_front rows rfl rfl (by decide) (by decide)
    have counted := maybe_complete (fun _ _ _ => rowCount_complete) number
      (rowCount_fails_of_letter first letter)
    simp only [List.append_assoc]
    rw [fetchClause, bind_of_ok (keyword_complete fetch rfl),
      bind_of_ok (either_complete next rfl rfl (by decide)), bind_of_ok counted,
      bind_of_ok (rows_complete rows), bind_of_ok (keyword_complete only rfl)]
    rfl

theorem rows_fails {s : List Char} (opens : Opens ["FETCH"] s) : Fails rowsKeyword s := by
  rw [Fails, rowsKeyword, orElse_of_fails
    (keyword_fails_of_opens "ROWS" opens rfl (by decide) (by decide))]
  exact keyword_fails_of_opens "ROW" opens rfl (by decide) (by decide)

theorem offset_complete {found : UInt64 × Bool} {t rest : List Char}
    (spelled : OffsetText found t rest) (opens : Opens ["FETCH"] rest) :
    (do
      keyword "OFFSET"
      let count ← rowCount
      let rows ← present rowsKeyword
      pure (count, rows) : Reader (UInt64 × Bool)) (t ++ rest) = .ok (found, rest) := by
  cases spelled with
  | mk offset number shown =>
    have rows := present_complete (fun _ _ _ => rows_complete) shown
      fun _ => rows_fails opens
    simp only [List.append_assoc]
    rw [bind_of_ok (keyword_complete offset rfl), bind_of_ok (rowCount_complete number)]
    exact (bind_of_ok rows).trans rfl

theorem fetch_opens {fetch : Option UInt64} {t rest : List Char}
    (spelled : Maybe FetchText fetch t rest) (opens : Opens [] rest) :
    Opens ["FETCH"] (t ++ rest) := by
  cases spelled with
  | missing => exact opens.more (by simp)
  | there h =>
    cases h with
    | mk fetch next number rows only =>
      simp only [List.append_assoc]
      exact opens_of_keyword fetch rfl (by simp)

theorem offset_opens {offset : Option (UInt64 × Bool)} {t rest : List Char}
    (spelled : Maybe OffsetText offset t rest) (opens : Opens ["FETCH"] rest) :
    Opens ["OFFSET", "FETCH"] (t ++ rest) := by
  cases spelled with
  | missing => exact opens.more (by simp)
  | there h =>
    cases h with
    | mk offset number shown =>
      simp only [List.append_assoc]
      exact opens_of_keyword offset rfl (by simp)

theorem page_complete {found : Page} {t rest : List Char} (spelled : PageText found t rest)
    (opens : Opens [] rest) : page (t ++ rest) = .ok (found, rest) := by
  cases spelled with
  | comma limit first between second =>
    simp only [List.append_assoc]
    rw [page, whenRead_of_ok (keyword_complete limit rfl), limitRest,
      bind_of_ok (rowCount_complete first), whenRead_of_ok (symbol_complete between),
      bind_of_ok (rowCount_complete second)]
    rfl
  | @limit count offset l n o rest limit first second =>
    have none : Fails (keyword "OFFSET") rest :=
      keyword_fails_of_opens "OFFSET" opens rfl (by decide) (by simp)
    have skipped : option (do keyword "OFFSET"; rowCount) (o ++ rest) = .ok (offset, rest) := by
      refine maybe_complete ?_ second (bind_fails none)
      rintro n t rest ⟨_, m, v, rfl, mark, number⟩
      rw [List.append_assoc, bind_of_ok (keyword_complete mark rfl)]
      exact rowCount_complete number
    have uncomma : Fails (symbol ",") (o ++ rest) := by
      refine symbol_fails (c := ',') rfl fun comma => ?_
      cases second with
      | missing =>
        have letter := front_of_opens opens (by simp) comma
        cases letter
      | there h =>
        obtain ⟨_, m, v, rfl, mark, number⟩ := h
        obtain ⟨c, found, letter⟩ := keyword_front mark rfl (by decide)
        rw [← List.append_assoc, comma] at found
        cases found
        cases letter
    simp only [List.append_assoc]
    rw [page, whenRead_of_ok (keyword_complete limit rfl), limitRest,
      bind_of_ok (rowCount_complete first), whenRead_of_fails uncomma]
    exact (bind_of_ok skipped).trans rfl
  | @offset offset fetch o f rest first second =>
    have after := fetch_opens second opens
    have none : Fails (keyword "LIMIT") (o ++ (f ++ rest)) :=
      keyword_fails_of_opens "LIMIT" (offset_opens first after) rfl (by decide) (by decide)
    have skipped : option (do
        keyword "OFFSET"
        let count ← rowCount
        let rows ← present rowsKeyword
        pure (count, rows)) (o ++ (f ++ rest)) = .ok (offset, f ++ rest) := by
      cases first with
      | missing =>
        exact option_of_fails (bind_fails
          (keyword_fails_of_opens "OFFSET" after rfl (by decide) (by decide)))
      | there h => exact option_of_ok (offset_complete h after)
    have fetched := maybe_complete (fun _ _ _ => fetch_complete) second
      (bind_fails (keyword_fails_of_opens "FETCH" opens rfl (by decide) (by simp)))
    rw [List.append_assoc, page, whenRead_of_fails none]
    exact (bind_of_ok skipped).trans ((bind_of_ok fetched).trans rfl)

theorem page_opens {found : Page} {t rest : List Char} (spelled : PageText found t rest)
    (opens : Opens [] rest) : Opens pageWords (t ++ rest) := by
  cases spelled with
  | comma limit first between second =>
    simp only [List.append_assoc]
    exact opens_of_keyword limit rfl (by decide)
  | limit limit first second =>
    simp only [List.append_assoc]
    exact opens_of_keyword limit rfl (by decide)
  | offset first second =>
    rw [List.append_assoc]
    exact (offset_opens first (fetch_opens second opens)).more (by decide)

theorem words_complete {one other : String} {a : Unit} {t rest : List Char}
    (spelled : WordsText one other a t rest) (capital : Capital one) (also : Capital other) :
    (do keyword one; keyword other : Reader Unit) (t ++ rest) = .ok ((), rest) := by
  obtain ⟨_, m, v, rfl, first, second⟩ := spelled
  rw [List.append_assoc, bind_of_ok (keyword_complete first capital)]
  exact keyword_complete second also

theorem words_leads {one other : String} {a : Unit} {t rest : List Char}
    (spelled : WordsText one other a t rest) (capital : Capital one) :
    leadingWord (t ++ rest) = one := by
  obtain ⟨_, m, v, rfl, first, second⟩ := spelled
  rw [List.append_assoc]
  exact keyword_leads first capital

theorem list_opens {α : Type} {mark : Spelling Unit} {item : Spelling α} {word : String}
    {words : List String} {as : List α} {t rest : List Char} (spelled : ListText mark item as t rest)
    (leads : ∀ t rest, mark () t rest → leadingWord (t ++ rest) = word) (opens : Opens words rest) :
    Opens (word :: words) (t ++ rest) := by
  cases spelled with
  | missing => exact opens.more fun w member => by simp [member]
  | there marked listed =>
    rw [List.append_assoc]
    exact .inr (by simp [leads _ _ marked])

theorem items_begin {items : List SelectItem} {t rest : List Char}
    (spelled : Separated (SymbolText ",") SelectItemText items t rest) :
    Begins ["NULL", "NOT"] (t ++ rest) := by
  have item : ∀ {found : SelectItem} {t rest : List Char}, SelectItemText found t rest →
      Begins ["NULL", "NOT"] (t ++ rest) := by
    intro found t rest spelled
    cases spelled with
    | mk value shown =>
      obtain ⟨depth, value⟩ := value
      rw [List.append_assoc]
      exact exprText_begins depth _ _ _ value
  cases spelled with
  | one h => exact item h
  | more head between tail =>
    simp only [List.append_assoc]
    exact item head

theorem query_complete {select : Select} {s : List Char} (spelled : QueryText select s) :
    query s = .ok (select, []) := by
  cases spelled with
  | @mk k d i f j w g h o p last word distinct items tables joins filter groupBy having orderBy
      page ended =>
    have atEnd : skipGaps last = [] := by rw [Gap, List.append_nil] at ended; exact ended
    -- behind each clause the text goes on with the word of a later one
    have behindPage : Opens [] last := .inl atEnd
    have behindOrder := page_opens page behindPage
    have behindHaving := list_opens orderBy (fun _ _ h => words_leads h rfl) behindOrder
    have behindGroup := condition_opens having rfl behindHaving
    have behindFilter := list_opens groupBy (fun _ _ h => words_leads h rfl) behindGroup
    have behindJoins : Opens filterWords _ := condition_opens filter rfl behindFilter
    have behindTables := joins_opens joins behindJoins
    have behindItems := list_opens tables (fun _ _ h => keyword_leads h rfl) behindTables
    have only : present (keyword "DISTINCT") (d ++ _) = .ok (select.distinct, _) :=
      present_complete (fun _ _ _ h => keyword_complete h rfl) distinct fun _ =>
        keyword_fails_of_begins (items_begin items) (by decide) (by decide)
    have listed := list_complete (by decide)
      (fun _ _ _ spelled follows => selectItem_complete spelled (follows.more (by decide))) items
      behindItems
    have named := listClause_complete tables (fun _ _ h => keyword_complete h rfl) (by decide)
      (fun _ _ _ spelled follows => tableRef_complete spelled (follows.more (by decide)))
      (keyword_fails_of_opens "FROM" behindTables rfl (by decide) (by decide)) behindTables
    have filtered := condition_complete "WHERE" rfl filter
      (keyword_fails_of_opens "WHERE" behindFilter rfl (by decide) (by decide))
      (behindFilter.more (by decide))
    have grouped := listClause_complete groupBy (fun _ _ h => words_complete h rfl rfl) (by decide)
      (fun _ _ _ spelled follows => expr_complete spelled (follows_ends (follows.more (by decide))))
      (bind_fails (keyword_fails_of_opens "GROUP" behindGroup rfl (by decide) (by decide)))
      behindGroup
    have kept := condition_complete "HAVING" rfl having
      (keyword_fails_of_opens "HAVING" behindHaving rfl (by decide) (by decide))
      (behindHaving.more (by decide))
    have ordered := listClause_complete orderBy (fun _ _ h => words_complete h rfl rfl) (by decide)
      (fun _ _ _ spelled follows => orderItem_complete spelled follows)
      (bind_fails (keyword_fails_of_opens "ORDER" behindOrder rfl (by decide) (by decide)))
      behindOrder
    have skipped : gaps last = .ok ((), []) := by rw [gaps, atEnd]
    rw [query, bind_of_ok (keyword_complete word rfl), bind_of_ok only, bind_of_ok listed,
      bind_of_ok named, bind_of_ok (joins_complete joins behindJoins), bind_of_ok filtered,
      bind_of_ok grouped, bind_of_ok kept, bind_of_ok ordered,
      bind_of_ok (page_complete page behindPage), bind_of_ok skipped]
    rfl

end Reader

end SqlDialects
