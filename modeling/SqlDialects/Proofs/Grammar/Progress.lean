import SqlDialects.Proofs.Grammar.Names
import SqlDialects.Reader.DataType
import SqlDialects.Reader.Query

/-
Readers only move forward: what a reader leaves is an end of its text, and so is the text at which it
stops. How many characters it reads at least is counted, since a loop comes to an end if each of its
rounds reads one. Two readers are followed at once, so that the same walk over the grammar also says
where an expression asks for the expressions inside it.
-/
namespace SqlDialects

open Reader

variable {α β : Type}

/-- What comes of a text is an end of it that is shorter by at least so many characters, or a failure
at an end of it. -/
def Ahead (least : Nat) (s : List Char) : Except (List Char) (α × List Char) → Prop
  | .ok (_, rest) => rest <:+ s ∧ rest.length + least ≤ s.length
  | .error stuck => stuck <:+ s

def Moves (least : Nat) (r : Reader α) : Prop := ∀ s, Ahead least s (r s)

abbrev Forward (r : Reader α) : Prop := Moves 0 r

abbrev Advances (r : Reader α) : Prop := Moves 1 r

/-- On the ends of a text that are shorter by at least `less` characters, the first reader moves ahead,
and the second one comes to the same. -/
def Alike (s : List Char) (less least : Nat) (r r' : Reader α) : Prop :=
  ∀ t, t <:+ s → t.length + less ≤ s.length → r t = r' t ∧ Ahead least t (r t)

abbrev Onward (s : List Char) (less least : Nat) (r : Reader α) : Prop := Alike s less least r r

theorem Ahead.fewer {m n : Nat} {s : List Char} {outcome : Except (List Char) (α × List Char)}
    (ahead : Ahead m s outcome) (le : n ≤ m) : Ahead n s outcome := by
  cases outcome with
  | error stuck => exact ahead
  | ok result => exact ⟨ahead.1, by have := ahead.2; omega⟩

theorem Ahead.behind {m n : Nat} {s t : List Char} {outcome : Except (List Char) (α × List Char)}
    (ahead : Ahead n t outcome) (ends : t <:+ s) (shorter : t.length + m ≤ s.length) :
    Ahead (m + n) s outcome := by
  cases outcome with
  | error stuck => exact List.IsSuffix.trans ahead ends
  | ok result =>
    obtain ⟨suffix, long⟩ := ahead
    exact ⟨suffix.trans ends, by omega⟩

namespace Moves

variable {least : Nat} {r : Reader α}

theorem leaves (moves : Moves least r) {s rest : List Char} {a : α} (read : r s = .ok (a, rest)) :
    rest <:+ s ∧ rest.length + least ≤ s.length := by
  have ahead := moves s
  rwa [read] at ahead

theorem stops (moves : Moves least r) {s stuck : List Char} (failed : r s = .error stuck) :
    stuck <:+ s := by
  have ahead := moves s
  rwa [failed] at ahead

theorem onward (moves : Moves least r) {s : List Char} {less : Nat} : Onward s less least r :=
  fun t _ _ => ⟨rfl, moves t⟩

theorem of (each : ∀ s, Onward s 0 least r) : Moves least r :=
  fun s => (each s s List.suffix_rfl (Nat.le_refl _)).2

theorem forward (moves : Moves least r) : Forward r :=
  fun s => (moves s).fewer (Nat.zero_le least)

end Moves

/-! Ways of putting readers together. -/

def Reader.without (mark : Reader β) (other : Reader α) : Reader α := fun s =>
  whenRead mark (fun _ => stopAt s) other s

namespace Alike

variable {s : List Char} {less m n k : Nat}

theorem fewer {r r' : Reader α} (alike : Alike s less m r r') (le : n ≤ m) : Alike s less n r r' :=
  fun t ends short => ⟨(alike t ends short).1, (alike t ends short).2.fewer le⟩

theorem forward {r r' : Reader α} (alike : Alike s less m r r') : Alike s less 0 r r' :=
  alike.fewer (Nat.zero_le m)

theorem later {r r' : Reader α} (alike : Alike s less m r r') : Alike s (less + n) m r r' :=
  fun t ends short => alike t ends (by omega)

protected theorem pure (a : α) : Onward s less 0 (pure a : Reader α) :=
  fun t _ _ => ⟨rfl, List.suffix_rfl, Nat.le_refl t.length⟩

protected theorem stop : Onward s less m (stop : Reader α) := fun _ _ _ => ⟨rfl, List.suffix_rfl⟩

theorem both {r r' : Reader α} {f f' : α → Reader β} (first : Alike s less m r r')
    (next : ∀ a, Alike s (less + m) n (f a) (f' a)) :
    Alike s less (m + n) (r >>= f) (r' >>= f') := by
  intro t ends short
  obtain ⟨same, ahead⟩ := first t ends short
  cases found : r t with
  | error stuck =>
    rw [found] at ahead
    refine ⟨by simp only [bind, Reader.bind, ← same, found], ?_⟩
    simp only [bind, Reader.bind, found]
    exact ahead
  | ok result =>
    rw [found] at ahead
    rw [bind_of_ok found, bind_of_ok (same ▸ found)]
    obtain ⟨later, shorter⟩ := ahead
    obtain ⟨same', ahead'⟩ := next result.1 result.2 (later.trans ends) (by omega)
    exact ⟨same', ahead'.behind later shorter⟩

protected theorem bind {r r' : Reader α} {f f' : α → Reader β} (first : Alike s less m r r')
    (next : ∀ a, Alike s (less + m) n (f a) (f' a)) : Alike s less m (r >>= f) (r' >>= f') :=
  (both first next).fewer (Nat.le_add_right m n)

theorem second {r r' : Reader α} {f f' : α → Reader β} (first : Alike s less m r r')
    (next : ∀ a, Alike s (less + m) n (f a) (f' a)) : Alike s less n (r >>= f) (r' >>= f') :=
  (both first next).fewer (Nat.le_add_left n m)

protected theorem whenRead {mark mark' : Reader α} {yes yes' : α → Reader β} {no no' : Reader β}
    (first : Alike s less m mark mark') (behind : ∀ a, Alike s (less + m) n (yes a) (yes' a))
    (other : Alike s less k no no') (le : k ≤ m) :
    Alike s less k (whenRead mark yes no) (whenRead mark' yes' no') := by
  intro t ends short
  obtain ⟨same, ahead⟩ := first t ends short
  cases found : mark t with
  | error stuck =>
    rw [whenRead_of_fails ⟨stuck, found⟩, whenRead_of_fails ⟨stuck, same ▸ found⟩]
    exact other t ends short
  | ok result =>
    rw [found] at ahead
    rw [whenRead_of_ok found, whenRead_of_ok (same ▸ found)]
    obtain ⟨later, shorter⟩ := ahead
    obtain ⟨same', ahead'⟩ := behind result.1 result.2 (later.trans ends) (by omega)
    exact ⟨same', (ahead'.behind later shorter).fewer (by omega)⟩

protected theorem orElse {first first' second second' : Reader α}
    (one : Alike s less m first first') (other : Alike s less m second second') :
    Alike s less m (first <|> second) (first' <|> second') := by
  rw [orElse_eq_whenRead, orElse_eq_whenRead]
  exact .whenRead one .pure other (Nat.le_refl m)

protected theorem option {r r' : Reader α} (part : Alike s less m r r') :
    Alike s less 0 (option r) (option r') := by
  rw [option_eq_whenRead, option_eq_whenRead]
  exact .whenRead part (fun a => .pure (some a)) (.pure none) (Nat.zero_le m)

protected theorem present {r r' : Reader α} (part : Alike s less m r r') :
    Alike s less 0 (present r) (present r') := by
  rw [present_eq_whenRead, present_eq_whenRead]
  exact .whenRead part (fun _ => .pure true) (.pure false) (Nat.zero_le m)

theorem without (mark : Reader β) {other other' : Reader α} (part : Alike s less m other other') :
    Alike s less m (without mark other) (without mark other') := by
  intro t ends short
  rw [Reader.without, Reader.without]
  cases found : mark t with
  | error stuck =>
    rw [whenRead_of_fails ⟨stuck, found⟩, whenRead_of_fails ⟨stuck, found⟩]
    exact part t ends short
  | ok result =>
    rw [whenRead_of_ok found, whenRead_of_ok found]
    exact ⟨rfl, List.suffix_rfl⟩

theorem leaves {r : Reader α} (each : ∀ s, Onward s 0 m r) {rest : List Char} {a : α}
    (read : r s = .ok (a, rest)) : rest <:+ s :=
  ((Moves.of each).leaves read).1

/-! Repetitions, by induction on the characters that bound them. -/

theorem manyWithin {item item' : Reader α} (each : Alike s less m item item') (bound : List Char) :
    Alike s less 0 (manyWithin item bound) (manyWithin item' bound) := by
  induction bound with
  | nil => exact .pure []
  | cons c bound ih =>
    exact .whenRead each.forward (fun a => .bind ih fun rest => .pure (a :: rest)) (.pure [])
      (Nat.le_refl 0)

protected theorem many {item item' : Reader α} (each : Alike s less m item item') :
    Alike s less 0 (many item) (many item') :=
  fun t => manyWithin each t t

protected theorem separatedBy {mark mark' : Reader β} {item item' : Reader α}
    (between : Alike s less 0 mark mark') (each : Alike s less 0 item item') :
    Alike s less 0 (separatedBy mark item) (separatedBy mark' item') :=
  .bind each fun first => .bind (.many (.bind between fun _ => each)) fun rest =>
    .pure (first :: rest)

theorem chainWithin {combine : α → β → α → α} {operand operand' : Reader α}
    {operator operator' : Reader β} (part : Alike s less 0 operand operand')
    (mark : Alike s less 0 operator operator') (bound : List Char) (left : α) :
    Alike s less 0 (chainWithin combine operand operator bound left)
      (chainWithin combine operand' operator' bound left) := by
  induction bound generalizing left with
  | nil => exact .pure left
  | cons c bound ih =>
    exact .whenRead mark (fun op => .bind part fun right => ih (combine left op right)) (.pure left)
      (Nat.le_refl 0)

protected theorem chain {combine : α → β → α → α} {operand operand' : Reader α}
    {operator operator' : Reader β} (part : Alike s less m operand operand')
    (mark : Alike s less 0 operator operator') :
    Alike s less m (chain combine operand operator) (chain combine operand' operator') :=
  .bind part fun left t => chainWithin part.forward.later mark.later t left t

theorem markedWithin {mark mark' : Reader β} {wrap : α → α} {operand operand' : Reader α}
    (sign : Alike s less m mark mark') (part : Alike s less m operand operand')
    (bound : List Char) :
    Alike s less m (markedWithin mark wrap operand bound) (markedWithin mark' wrap operand' bound) := by
  induction bound with
  | nil => exact part
  | cons c bound ih =>
    exact .whenRead sign (fun _ => .bind ih.later fun inner => .pure (wrap inner)) part
      (Nat.le_refl m)

protected theorem marked {mark mark' : Reader β} {wrap : α → α} {operand operand' : Reader α}
    (sign : Alike s less m mark mark') (part : Alike s less m operand operand') :
    Alike s less m (marked mark wrap operand) (marked mark' wrap operand') :=
  fun t => markedWithin sign part t t

end Alike

/-! Gaps, symbols and words. -/

variable {s : List Char} {less : Nat}

theorem forward_gaps : Forward gaps := by
  intro s
  obtain ⟨g, split, _⟩ := skipGaps_split s
  have ends : skipGaps s <:+ s := ⟨g, split.symm⟩
  exact ⟨ends, ends.length_le⟩

theorem advances_exactly {text : String} (nonempty : text.toList ≠ []) :
    Advances (exactly text) := by
  intro s
  cases found : exactly text s with
  | error stuck =>
    rw [exactly] at found
    split at found
    · cases found
    · cases found
      exact List.suffix_rfl
  | ok result =>
    have split := exactly_ok.mp found
    have long : 0 < text.toList.length := List.length_pos_iff.mpr nonempty
    exact ⟨⟨text.toList, split.symm⟩, by rw [split, List.length_append]; omega⟩

theorem advances_symbol {text : String} (nonempty : text.toList ≠ []) :
    Onward s less 1 (symbol text) :=
  .second forward_gaps.onward fun _ => (advances_exactly nonempty).onward

theorem forward_wordEnd : Forward wordEnd := by
  intro s
  cases s with
  | nil => exact ⟨List.suffix_rfl, Nat.le_refl _⟩
  | cons c rest =>
    by_cases name : isNameCharacter c = true
    · simp [wordEnd, name, Ahead]
    · simp [wordEnd, name, Ahead]

theorem moves_keyword (word : String) : Onward s less word.toList.length (keyword word) := by
  refine .second forward_gaps.onward fun _ => .bind (Moves.onward fun s => ?_)
    fun _ => forward_wordEnd.onward
  split
  · next rest found =>
    obtain ⟨k, rfl, same⟩ := dropWord_some.mp found
    have long : k.length = word.toList.length := by simpa using congrArg List.length same
    exact ⟨List.suffix_append k rest, by rw [List.length_append]; omega⟩
  · exact List.suffix_rfl

theorem forward_keyword {word : String} : Onward s less 0 (keyword word) :=
  (moves_keyword word).forward

theorem advances_keyword {word : String} (nonempty : word.toList ≠ []) :
    Onward s less 1 (keyword word) :=
  (moves_keyword word).fewer (List.length_pos_iff.mpr nonempty)

/-! Names and numbers. -/

theorem advances_bareWord : Advances bareWord := by
  intro s
  cases s with
  | nil => exact List.suffix_rfl
  | cons c rest =>
    rw [bareWord]
    split
    · have ends := List.dropWhile_suffix (l := rest) isNameCharacter
      exact ⟨ends.trans (List.suffix_cons c rest), by simpa using ends.length_le⟩
    · exact List.suffix_rfl

theorem advances_wordWhere (test : String → Bool) : Advances (wordWhere test) := by
  intro s
  rw [wordWhere]
  split
  · next word rest found =>
    split
    · exact advances_bareWord.leaves found
    · exact List.suffix_rfl
  · next stuck failed => exact advances_bareWord.stops failed

theorem quotedRest_stuck {quote : Char} {s stuck : List Char}
    (failed : quotedRest quote s = .error stuck) : stuck = [] := by
  fun_induction quotedRest quote s with
  | case1 =>
    cases failed
    rfl
  | case2 | case3 | case5 | case6 => cases failed
  | case4 more found same ih | case7 c rest other found same ih =>
    cases failed
    exact ih same

theorem advances_quoted (quote : Char) : Advances (quoted quote) := by
  intro s
  cases found : quoted quote s with
  | ok result =>
    obtain ⟨body, _, rfl, _⟩ := quoted_sound quote s result.2 result.1 found
    exact ⟨List.suffix_append _ _, by simp [Text.enclose]; omega⟩
  | error stuck =>
    revert found
    fun_cases quoted quote s with
    | case1 =>
      intro same
      cases same
      exact List.suffix_rfl
    | case2 rest body after read =>
      intro same
      cases same
    | case3 rest at_end failed =>
      intro same
      cases same
      rw [quotedRest_stuck failed]
      exact List.nil_suffix
    | case4 c rest other =>
      intro same
      cases same
      exact List.suffix_rfl

theorem advances_namePart : Onward s less 1 namePart :=
  .orElse (advances_quoted _).onward
    (.orElse (advances_quoted _).onward (advances_wordWhere _).onward)

theorem advances_quotedNamePart : Onward s less 1 quotedNamePart :=
  .orElse (.bind (advances_quoted _).onward fun _ => .pure _)
    (.orElse (.bind (advances_quoted _).onward fun _ => .pure _) (advances_wordWhere _).onward)

theorem advances_identifier : Onward s less 1 identifier :=
  .second forward_gaps.onward fun _ => advances_namePart

theorem advances_dotted {part : Reader String} (each : ∀ {less}, Onward s less 1 part) :
    Onward s less 1 (dotted part) := by
  refine .second forward_gaps.onward fun _ => .bind each fun _ => .bind (.many (m := 1) ?_)
    fun _ => .pure _
  exact .bind (advances_exactly (by decide)).onward fun _ => each

theorem advances_quotedPath : Onward s less 1 quotedPath := advances_dotted advances_quotedNamePart

theorem behind_takeWhile {test : Char → Bool} {s : List Char} (some : s.takeWhile test ≠ []) :
    s.dropWhile test <:+ s ∧ (s.dropWhile test).length + 1 ≤ s.length := by
  have long : 0 < (s.takeWhile test).length := List.length_pos_iff.mpr some
  have total := congrArg List.length (List.takeWhile_append_dropWhile (p := test) (l := s))
  rw [List.length_append] at total
  exact ⟨List.dropWhile_suffix test, by omega⟩

theorem advances_digits : Advances digits := by
  intro s
  rw [digits]
  split
  · exact List.suffix_rfl
  · next ds some => exact behind_takeWhile some

theorem advances_number : Onward s less 1 number := by
  refine .bind advances_digits.onward fun whole => .bind (.option (m := 1) ?_) fun _ => .pure _
  refine .bind (n := 0) (advances_exactly (by decide)).onward fun _ => Moves.onward fun s => ?_
  have ends := List.dropWhile_suffix (l := s) Char.isDigit
  exact ⟨ends, ends.length_le⟩

theorem advances_parameter : Onward s less 1 parameter := by
  have mark : ∀ text : String, text.toList ≠ [] → Onward s less 1 (exactly text) :=
    fun text nonempty => (advances_exactly nonempty).onward
  refine .orElse (.bind (mark _ (by decide)) fun _ => .pure _) (.orElse ?_ ?_)
  · exact .bind (mark _ (by decide)) fun _ => .bind advances_bareWord.onward fun _ => .pure _
  · exact .bind (mark _ (by decide)) fun _ => .bind advances_digits.onward fun _ => .pure _

theorem advances_operator {table : List (String × BinaryOp)}
    (marks : table.all (fun entry => !entry.1.toList.isEmpty) = true) :
    Onward s less 1 (do gaps; operatorOf table) := by
  refine .second forward_gaps.onward fun _ => ?_
  induction table with
  | nil => exact .stop
  | cons entry table ih =>
    rw [List.all_cons, Bool.and_eq_true] at marks
    have nonempty : entry.1.toList ≠ [] := by simpa using marks.1
    exact .orElse (.bind (advances_exactly nonempty).onward fun _ => .pure _) (ih marks.2)

/-! Expressions. Whatever nests in an expression has a parenthesis in front of it, so that each level
reads something, and asks for what nests only on shorter texts. -/

theorem alike_values {nested nested' : Reader Expr} (inner : Alike s less 0 nested nested') :
    Alike s less 0 (separatedBy (symbol ",") nested) (separatedBy (symbol ",") nested') :=
  .separatedBy (advances_symbol (by decide)).forward inner

theorem alike_callArguments {nested nested' : Reader Expr} (inner : Alike s less 0 nested nested')
    (name : String) : Alike s less 1 (callArguments nested name) (callArguments nested' name) := by
  have close : ∀ {less}, Onward s less 1 (symbol ")") := advances_symbol (by decide)
  refine .whenRead close (fun _ => .pure _) (.whenRead ?_ (fun _ => .pure _) ?_ (Nat.le_refl 1))
    (Nat.le_refl 1)
  · exact .bind (advances_symbol (by decide)) fun _ => close
  · exact .second (.present forward_keyword) fun _ => .second (alike_values inner) fun _ =>
      .bind close fun _ => .pure _

section Levels

variable {nested nested' : Reader Expr} (inner : Alike s 1 0 nested nested')
include inner

theorem alike_pathExpr : Alike s 0 1 (pathExpr nested) (pathExpr nested') := by
  refine .bind (n := 0) advances_quotedPath fun parts => ?_
  refine .whenRead (advances_exactly (by decide)).onward (fun _ => .pure _) ?_ (Nat.zero_le 1)
  refine .whenRead (advances_symbol (by decide)).forward
    (fun _ => alike_callArguments inner _) ?_ (Nat.le_refl 0)
  split
  · exact .pure _
  · exact .pure _

theorem alike_primary : Alike s 0 1 (primary nested) (primary nested') := by
  refine .second forward_gaps.onward fun _ => .orElse ?_ (.orElse ?_ (.orElse advances_number
    (.orElse advances_parameter (.orElse ?_ (.orElse ?_ (alike_pathExpr inner))))))
  · exact .bind (advances_exactly (by decide)).onward fun _ => .bind inner fun _ =>
      .bind (advances_symbol (by decide)) fun _ => .pure _
  · exact .bind (advances_quoted _).onward fun _ => .pure _
  · exact .bind (advances_keyword (by decide)) fun _ => .pure _
  · exact .bind (advances_exactly (by decide)).onward fun _ => .pure _

theorem alike_unary : Alike s 0 1 (unary nested) (unary nested') :=
  .marked (advances_symbol (by decide)) (alike_primary inner)

theorem alike_multiplicative : Alike s 0 1 (multiplicative nested) (multiplicative nested') :=
  .chain (alike_unary inner) (advances_operator rfl).forward

theorem alike_additive : Alike s 0 1 (additive nested) (additive nested') :=
  .chain (alike_multiplicative inner) (advances_operator rfl).forward

theorem alike_compared (left : Expr) (op : BinaryOp) :
    Alike s 0 0 (compared nested left op) (compared nested' left op) :=
  (Alike.bind (alike_additive inner) fun _ => .pure _).forward

theorem alike_valueList (subject : Expr) (negated : Bool) :
    Alike s 0 0 (valueList nested subject negated) (valueList nested' subject negated) :=
  (Alike.bind (advances_symbol (by decide)) fun _ => .bind (alike_values inner) fun _ =>
    .bind (advances_symbol (by decide)) fun _ => .pure _).forward

omit inner in
theorem comparisonRest_eq (nested : Reader Expr) (left : Expr) :
    comparisonRest nested left = whenRead (keyword "IS") (fun _ => nullTest left)
      (whenRead (do keyword "NOT"; keyword "IN") (fun _ => valueList nested left true)
        (whenRead (do keyword "NOT"; keyword "LIKE") (fun _ => compared nested left .notLike)
          (without (keyword "NOT") <|
            whenRead (keyword "IN") (fun _ => valueList nested left false) <|
            whenRead (keyword "LIKE") (fun _ => compared nested left .like) <|
            whenRead (keyword "ILIKE") (fun _ => compared nested left .ilike) <|
            whenRead comparisonOperator (compared nested left) (pure left)))) := by
  funext s
  simp only [comparisonRest, without, whenRead, bind, Reader.bind]
  cases keyword "IS" s with
  | ok result => rfl
  | error stuck =>
    cases keyword "NOT" s with
    | error stuck => rfl
    | ok result => cases found : keyword "IN" result.2 <;> simp [found]

theorem alike_comparisonRest (left : Expr) :
    Alike s 0 0 (comparisonRest nested left) (comparisonRest nested' left) := by
  have null : Onward s 0 0 (nullTest left) :=
    .bind (.present forward_keyword) fun _ => .bind forward_keyword fun _ => .pure _
  have negated : ∀ word, Onward s 0 0 (do keyword "NOT"; keyword word) := fun word =>
    .bind forward_keyword fun _ => forward_keyword
  have values := alike_valueList inner left
  have operand := alike_compared inner left
  rw [comparisonRest_eq, comparisonRest_eq]
  refine .whenRead forward_keyword (fun _ => null) ?_ (Nat.le_refl 0)
  refine .whenRead (negated "IN") (fun _ => values true) ?_ (Nat.le_refl 0)
  refine .whenRead (negated "LIKE") (fun _ => operand .notLike) (.without _ ?_) (Nat.le_refl 0)
  refine .whenRead forward_keyword (fun _ => values false) ?_ (Nat.le_refl 0)
  refine .whenRead forward_keyword (fun _ => operand .like) ?_ (Nat.le_refl 0)
  refine .whenRead forward_keyword (fun _ => operand .ilike) ?_ (Nat.le_refl 0)
  exact .whenRead (advances_operator rfl).forward operand (.pure left) (Nat.le_refl 0)

theorem alike_comparison : Alike s 0 1 (comparison nested) (comparison nested') :=
  .bind (alike_additive inner) fun left => (alike_comparisonRest inner left).later

theorem alike_notExpr : Alike s 0 1 (notExpr nested) (notExpr nested') :=
  .marked (advances_keyword (by decide)) (alike_comparison inner)

theorem alike_andExpr : Alike s 0 1 (andExpr nested) (andExpr nested') :=
  .chain (alike_notExpr inner) (.bind forward_keyword fun _ => .pure _)

theorem alike_orExpr : Alike s 0 1 (orExpr nested) (orExpr nested') :=
  .chain (alike_andExpr inner) (.bind forward_keyword fun _ => .pure _)

end Levels

theorem advances_exprWithin (depth : Nat) : Advances (exprWithin depth) := by
  induction depth with
  | zero => exact .of fun _ => .stop
  | succ depth ih => exact .of fun _ => alike_orExpr ih.forward.onward

theorem advances_expr : Advances expr := fun s => advances_exprWithin (s.length + 1) s

/-! Parts of queries, and data types. -/

theorem forward_aliasName : Onward s less 0 aliasName :=
  .option (.bind (.option forward_keyword) fun _ => .bind forward_gaps.onward fun _ =>
    advances_quotedNamePart)

theorem advances_selectItem : Onward s less 1 selectItem :=
  .bind advances_expr.onward fun _ => .bind forward_aliasName fun _ => .pure _

theorem advances_tableRef : Onward s less 1 tableRef :=
  .bind advances_quotedPath fun _ => .bind forward_aliasName fun _ => .pure _

theorem advances_outerJoin {side : String} (nonempty : side.toList ≠ []) (kind : JoinKind) :
    Onward s less 1 (outerJoin side kind) :=
  .bind (advances_keyword nonempty) fun _ => .bind (.option forward_keyword) fun _ =>
    .bind forward_keyword fun _ => .pure _

theorem advances_joinKind : Onward s less 1 joinKind := by
  refine .orElse ?_ (.orElse (advances_outerJoin (by decide) _) (.orElse
    (advances_outerJoin (by decide) _) (.orElse (advances_outerJoin (by decide) _) ?_)))
  · exact .second (.option forward_keyword) fun _ => .bind (advances_keyword (by decide)) fun _ =>
      .pure _
  · exact .bind (advances_keyword (by decide)) fun _ => .bind forward_keyword fun _ => .pure _

theorem advances_join : Onward s less 1 join := by
  refine .bind advances_joinKind fun _ => .bind advances_tableRef fun _ =>
    .bind (.option (m := 0) ?_) fun _ => .pure _
  exact .bind forward_keyword fun _ => advances_expr.onward

theorem advances_orderItem : Onward s less 1 orderItem := by
  refine .bind advances_expr.onward fun _ => .bind (.option (m := 0) (.orElse ?_ ?_))
    fun _ => .pure _
  · exact .bind forward_keyword fun _ => .pure _
  · exact .bind forward_keyword fun _ => .pure _

theorem advances_typeArgument : Onward s less 1 typeArgument := by
  refine .second forward_gaps.onward fun _ => Moves.onward fun s => ?_
  split
  · exact List.suffix_rfl
  · next text some => exact behind_takeWhile some

theorem advances_dataType : Onward s less 1 dataType := by
  refine .second forward_gaps.onward fun _ => .bind advances_bareWord.onward fun _ =>
    .bind (.option (m := 0) ?_) fun _ => .bind (.option (m := 1) ?_) fun _ => .pure _
  · exact .bind forward_gaps.onward fun _ => (advances_wordWhere _).onward
  · exact .bind (advances_symbol (by decide)) fun _ =>
      .bind (.separatedBy (advances_symbol (by decide)).forward advances_typeArgument.forward)
        fun _ => .bind (advances_symbol (by decide)) fun _ => .pure _

end SqlDialects
