import SqlDialects.Proofs.Canonical.Text
import SqlDialects.Proofs.Canonical.WellFormed
import SqlDialects.Proofs.Grammar.ExpressionReading
import SqlDialects.Proofs.Sql.Nodes

/-
The canonical text of a well-formed expression spells it, also when its names are written in other
quotes. The text stands at the start of its place or behind one blank, and in front of a blank, a
comma, a closing parenthesis or the end.
-/
namespace SqlDialects

open Reader Spelling

def Spaced (g : List Char) : Prop := g = [] ∨ g = [' ']

structure Breaks (rest : List Char) : Prop where
  head : ∀ c, rest.head? = some c → c ∈ [' ', ',', ')']
  uncalled : front rest ≠ some '('

def WritesNames (f : String → String) : Prop :=
  ∀ parts rest, IsPath parts → EndsName rest →
    PathText parts (f (".".intercalate parts)).toList rest

def LevelText (inner : Spelling Expr) : Nat → Spelling Expr
  | 1 => OrText inner
  | 2 => AndText inner
  | 3 => NotText inner
  | 4 => ComparisonText inner
  | 5 => SumText inner
  | 6 => ProductText inner
  | 7 => UnaryText inner
  | _ => PrimaryText inner

theorem Spaced.gap {g s : List Char} (spaced : Spaced g) (solid : afterGap s = none) : Gap g s := by
  rcases spaced with rfl | rfl
  · exact gap_none solid
  · exact gap_blank solid

/-! What follows. -/

theorem breaks_nil : Breaks [] := ⟨by simp, by decide⟩

theorem breaks_comma (s : List Char) : Breaks (',' :: s) where
  head c first := by cases first; simp
  uncalled := by
    rw [front, skipGaps_of_none _ (solid_of_head s (by decide))]
    simp

theorem breaks_close (s : List Char) : Breaks (')' :: s) where
  head c first := by cases first; simp
  uncalled := by
    rw [front, skipGaps_of_none _ (solid_of_head s (by decide))]
    simp

theorem breaks_blank {s : List Char} (solid : afterGap s = none) (other : s.head? ≠ some '(') :
    Breaks (' ' :: s) where
  head c first := by cases first; simp
  uncalled := by
    have skipped : front ([' '] ++ s) = s.head? := front_gap (gap_blank solid)
    exact fun opened => other (skipped.symm.trans opened)

section Breaks

variable {rest : List Char} (breaks : Breaks rest)
include breaks

theorem breaks_outside {test : Char → Bool}
    (others : [' ', ',', ')'].all (fun c => !test c) = true) :
    ∀ c, rest.head? = some c → test c = false := by
  intro c first
  simpa using List.all_eq_true.mp others c (breaks.head c first)

theorem breaks_endsWord : EndsWord rest := breaks_outside breaks rfl

theorem breaks_endsDigits : EndsDigits rest := breaks_outside breaks rfl

theorem breaks_head_ne {c : Char} (other : c ∉ [' ', ',', ')']) : rest.head? ≠ some c :=
  fun first => other (breaks.head c first)

theorem breaks_endsName : EndsName rest := by
  intro c first
  refine ⟨?_, breaks_endsWord breaks c first⟩
  have listed := breaks.head c first
  simp only [List.mem_cons, List.not_mem_nil, or_false] at listed
  rcases listed with rfl | rfl | rfl <;> decide

end Breaks

/-! Levels. -/

theorem Expr.level_bounds (e : Expr) : 1 ≤ e.level ∧ e.level ≤ 8 := by
  cases e with
  | binary left op right => cases op <;> simp [Expr.level, BinaryOp.level]
  | _ => simp [Expr.level]

theorem level_lower {inner : Spelling Expr} {k m : Nat} {e : Expr} {t rest : List Char}
    (lower : k ≤ m) (positive : 1 ≤ k) (bound : m ≤ 8) (spelled : LevelText inner m e t rest) :
    LevelText inner k e t rest := by
  have step : ∀ n, 1 ≤ n → n ≤ 7 → LevelText inner (n + 1) e t rest → LevelText inner n e t rest := by
    intro n first last spelled
    rcases show n = 1 ∨ n = 2 ∨ n = 3 ∨ n = 4 ∨ n = 5 ∨ n = 6 ∨ n = 7 by omega with
      rfl | rfl | rfl | rfl | rfl | rfl | rfl
    · exact chained_one spelled
    · exact chained_one spelled
    · exact .bare spelled
    · exact .operand spelled
    · exact chained_one spelled
    · exact chained_one spelled
    · exact .bare spelled
  induction lower with
  | refl => exact spelled
  | @step m above ih => exact ih (by omega) (step m (Nat.le_trans positive above) (by omega) spelled)

/-! Keywords and operators. -/

theorem keyword_spelled {word : String} {g rest : List Char} (spaced : Spaced g)
    (capital : Capital word) (nonempty : word.toList ≠ []) (ended : EndsWord rest) :
    KeywordText word () (g ++ word.toList) rest := by
  refine .mk (spaced.gap ?_) (capital_upper capital) ended
  cases found : word.toList with
  | nil => exact absurd found nonempty
  | cons c t =>
    have letters : (c :: t).all Char.isUpper = true := by rw [← found]; exact capital
    rw [List.all_cons, Bool.and_eq_true] at letters
    exact solid_of_head _ (Text.not_mem_of_all letters.1 rfl)

theorem endsWord_blank (s : List Char) : EndsWord (' ' :: s) := by
  intro c first
  cases first
  rfl

theorem symbol_spelled {table : List (String × BinaryOp)} {op : BinaryOp} {s : List Char}
    (solid : afterGap (op.toSql.toList ++ s) = none) (listed : (op.toSql, op) ∈ table)
    (first : operatorOf table (op.toSql.toList ++ s) = .ok (op, s)) :
    OperatorText table op (' ' :: op.toSql.toList) s :=
  .mk (g := [' ']) (gap_blank solid) listed first

theorem comparator_spelled {op : BinaryOp} (comparison : op.level = 4) (s : List Char) :
    ComparatorText op (' ' :: op.toSql.toList) (' ' :: s) := by
  cases op with
  | like => exact .like (keyword_spelled (.inr rfl) rfl (by decide) (endsWord_blank s))
  | notLike =>
    exact .notLike (keyword_spelled (.inr rfl) rfl (by decide) (endsWord_blank _))
      (keyword_spelled (.inr rfl) rfl (by decide) (endsWord_blank s))
  | ilike => exact .ilike (keyword_spelled (.inr rfl) rfl (by decide) (endsWord_blank s))
  | eq => exact .symbol (symbol_spelled rfl (by simp [comparisonSymbols, BinaryOp.toSql]) rfl)
  | ne => exact .symbol (symbol_spelled rfl (by simp [comparisonSymbols, BinaryOp.toSql]) rfl)
  | lt => exact .symbol (symbol_spelled rfl (by simp [comparisonSymbols, BinaryOp.toSql]) rfl)
  | le => exact .symbol (symbol_spelled rfl (by simp [comparisonSymbols, BinaryOp.toSql]) rfl)
  | gt => exact .symbol (symbol_spelled rfl (by simp [comparisonSymbols, BinaryOp.toSql]) rfl)
  | ge => exact .symbol (symbol_spelled rfl (by simp [comparisonSymbols, BinaryOp.toSql]) rfl)
  | _ => simp [BinaryOp.level] at comparison

theorem binary_spelled {inner : Spelling Expr} {left right : Expr} {op : BinaryOp}
    {t u rest : List Char} (first : ∀ rest, Breaks rest → LevelText inner op.leftLevel left t rest)
    (second : LevelText inner (op.level + 1) right (' ' :: u) rest) :
    LevelText inner op.level (.binary left op right)
      (t ++ (' ' :: op.toSql.toList ++ ' ' :: u)) rest := by
  have begun : LevelText inner op.leftLevel left t
      (' ' :: op.toSql.toList ++ (' ' :: u ++ rest)) := by
    apply first
    cases op <;> exact breaks_blank rfl (by simp [BinaryOp.toSql])
  cases op with
  | or | and =>
    exact chained_snoc begun
      ⟨rfl, keyword_spelled (.inr rfl) rfl (by decide) (endsWord_blank _)⟩ second
  | plus | minus | concat =>
    exact chained_snoc begun (symbol_spelled rfl (by simp [sumSymbols, BinaryOp.toSql]) rfl) second
  | times | divide | modulo =>
    exact chained_snoc begun
      (symbol_spelled rfl (by simp [productSymbols, BinaryOp.toSql]) rfl) second
  | _ => exact .compared begun (comparator_spelled rfl (u ++ rest)) second

/-! Lists with a comma and a blank between the items. -/

theorem commas_separated {α : Type} {item : Spelling α} {text : α → List Char}
    {ends : List Char → Prop} (comma : ∀ s, ends (',' :: s)) {as : List α} (nonempty : as ≠ [])
    (each : ∀ a ∈ as, ∀ g rest, Spaced g → ends rest → item a (g ++ text a) rest)
    {g rest : List Char} (spaced : Spaced g) (ended : ends rest) :
    Separated (SymbolText ",") item as (g ++ commas (as.map text)) rest := by
  induction as generalizing g with
  | nil => exact absurd rfl nonempty
  | cons a as ih =>
    cases as with
    | nil => simpa using Separated.one (each a (by simp) g rest spaced ended)
    | cons b as =>
      have tail := ih (by simp) (fun a member => each a (by simp [member])) (.inr rfl)
      have mark : SymbolText "," () ([] ++ ",".toList)
          (([' '] ++ commas ((b :: as).map text)) ++ rest) :=
        .mk (gap_none (solid_of_head _ (by decide)))
      simpa using Separated.more (each a (by simp) g _ spaced (comma _)) mark tail

theorem commas_spelled {α : Type} {item : Spelling α} {text : α → List Char} {as : List α}
    (nonempty : as ≠ [])
    (each : ∀ a ∈ as, ∀ g rest, Spaced g → Breaks rest → item a (g ++ text a) rest)
    {g rest : List Char} (spaced : Spaced g) (breaks : Breaks rest) :
    Separated (SymbolText ",") item as (g ++ commas (as.map text)) rest :=
  commas_separated breaks_comma nonempty each spaced breaks

/-! Expressions. -/

theorem closing_spelled (rest : List Char) : SymbolText ")" () [')'] rest :=
  .mk (g := []) (gap_none (solid_of_head rest (by decide)))

theorem path_spelled : WritesNames id := by
  intro parts rest path ended
  obtain ⟨nonempty, each⟩ := path
  induction parts with
  | nil => exact absurd rfl nonempty
  | cons part parts ih =>
    cases parts with
    | nil =>
      rw [String.intercalate_singleton]
      exact .one (part_elsewhere (each part (by simp)) ended)
    | cons next parts =>
      have tail := ih (by simp) fun found member => each found (by simp [member])
      have dotted : EndsName (['.'] ++ ((id (".".intercalate (next :: parts))).toList ++ rest)) := by
        intro c first
        cases first
        decide
      rw [id, dotted_cons]
      exact .more (b := ()) (part_elsewhere (each part (by simp)) dotted) rfl tail

theorem arguments_spelled {inner : Spelling Expr} {name : String} {args : List Expr}
    {text : Expr → List Char} {distinct : Bool} (only : distinct = true → args ≠ [])
    (each : ∀ a ∈ args, ∀ g rest, Spaced g → Breaks rest → inner a (g ++ text a) rest)
    (rest : List Char) :
    ArgumentsText inner name (.call name args distinct false)
      ((if distinct then "DISTINCT ".toList else []) ++ (commas (args.map text) ++ [')'])) rest := by
  cases args with
  | nil =>
    cases distinct with
    | false => exact .none (closing_spelled rest)
    | true => exact absurd rfl (only rfl)
  | cons a args =>
    have values : ∀ g, Spaced g → ValuesText inner (a :: args)
        (g ++ commas ((a :: args).map text)) ([')'] ++ rest) := fun g spaced =>
      commas_spelled (List.cons_ne_nil a args) each spaced (breaks_close rest)
    cases distinct with
    | false => exact .some (.missing _) (values [] (.inl rfl)) (closing_spelled rest)
    | true =>
      have word : KeywordText "DISTINCT" () ([] ++ "DISTINCT".toList)
          (([' '] ++ commas ((a :: args).map text)) ++ ([')'] ++ rest)) :=
        keyword_spelled (.inl rfl) rfl (by decide) (endsWord_blank _)
      simpa using
        ArgumentsText.some (.there word) (values [' '] (.inr rfl)) (closing_spelled rest)

theorem call_spelled {inner : Spelling Expr} {parts : List String} {args : List Expr}
    {text : Expr → List Char} {distinct : Bool} (path : IsPath parts)
    (only : distinct = true → args ≠ [])
    (each : ∀ a ∈ args, ∀ g rest, Spaced g → Breaks rest → inner a (g ++ text a) rest)
    (rest : List Char) :
    OperandText inner (.call (".".intercalate parts) args distinct false)
      ((".".intercalate parts).toList ++ (['('] ++ ((if distinct then "DISTINCT ".toList else [])
        ++ (commas (args.map text) ++ [')'])))) rest := by
  refine .call (path_spelled parts _ path ?_) (.mk (g := []) ?_)
    (arguments_spelled only each rest)
  · intro c first
    cases first
    decide
  · exact gap_none (solid_of_head _ (by decide))

theorem isNull_spelled {inner : Spelling Expr} {subject : Expr} {t rest : List Char}
    (negated : Bool) (first : ∀ rest, Breaks rest → SumText inner subject t rest)
    (ended : EndsWord rest) :
    ComparisonText inner (.isNull subject negated)
      (t ++ (' ' :: "IS".toList
        ++ ((if negated then ' ' :: "NOT".toList else []) ++ ' ' :: "NULL".toList))) rest := by
  have last : KeywordText "NULL" () ([' '] ++ "NULL".toList) rest :=
    keyword_spelled (.inr rfl) rfl (by decide) ended
  cases negated with
  | false =>
    refine .isNull (first _ (breaks_blank rfl (by simp))) ?_ (.missing _) last
    exact keyword_spelled (.inr rfl) rfl (by decide) (endsWord_blank _)
  | true =>
    refine .isNull (first _ (breaks_blank rfl (by simp))) ?_ (.there (a := ()) ?_) last
    · exact keyword_spelled (.inr rfl) rfl (by decide) (endsWord_blank _)
    · exact keyword_spelled (.inr rfl) rfl (by decide) (endsWord_blank _)

theorem inList_spelled {inner : Spelling Expr} {subject : Expr} {values : List Expr}
    {text : Expr → List Char} {t rest : List Char} (negated : Bool)
    (first : ∀ rest, Breaks rest → SumText inner subject t rest) (nonempty : values ≠ [])
    (each : ∀ a ∈ values, ∀ g rest, Spaced g → Breaks rest → inner a (g ++ text a) rest) :
    ComparisonText inner (.inList subject values negated)
      (t ++ ((if negated then ' ' :: "NOT".toList else []) ++ (' ' :: "IN".toList
        ++ (' ' :: "(".toList ++ (commas (values.map text) ++ [')']))))) rest := by
  have listed : ValuesText inner values ([] ++ commas (values.map text)) ([')'] ++ rest) :=
    commas_spelled nonempty each (.inl rfl) (breaks_close rest)
  have opened : SymbolText "(" () ([' '] ++ "(".toList)
      (commas (values.map text) ++ ([')'] ++ rest)) :=
    .mk (gap_blank (solid_of_head _ (by decide)))
  have test : KeywordText "IN" () ([' '] ++ "IN".toList)
      ([' '] ++ "(".toList ++ (commas (values.map text) ++ ([')'] ++ rest))) :=
    keyword_spelled (.inr rfl) rfl (by decide) (endsWord_blank _)
  cases negated with
  | false =>
    exact .inList (first _ (breaks_blank rfl (by simp))) (.missing _) test opened listed
      (closing_spelled rest)
  | true =>
    refine .inList (first _ (breaks_blank rfl (by simp))) (.there (a := ()) ?_) test opened listed
      (closing_spelled rest)
    exact keyword_spelled (.inr rfl) rfl (by decide) (endsWord_blank _)

/-- What the canonical text of an expression spells: the expression on its level, behind at most one
blank; an operand also stands there without a gap. -/
structure SpelledAs (inner : Spelling Expr) (e : Expr) (t rest : List Char) : Prop where
  level : ∀ g, Spaced g → LevelText inner e.level e (g ++ t) rest
  operand : 8 ≤ e.level → OperandText inner e t rest

theorem spelled_of_operand {inner : Spelling Expr} {e : Expr} {t rest : List Char}
    (tight : e.level = 8) (operand : OperandText inner e t rest) : SpelledAs inner e t rest where
  level g spaced := by
    rw [tight]
    exact ⟨g, t, rfl, spaced.gap (operand_solid operand), operand⟩
  operand _ := operand

theorem spelled_of_level {inner : Spelling Expr} {e : Expr} {t rest : List Char}
    (loose : e.level < 8) (level : ∀ g, Spaced g → LevelText inner e.level e (g ++ t) rest) :
    SpelledAs inner e t rest where
  level := level
  operand tight := by omega

theorem SpelledAs.lower {inner : Spelling Expr} {k : Nat} {e : Expr} {t g rest : List Char}
    (spelled : SpelledAs inner e t rest) (spaced : Spaced g) (positive : 1 ≤ k)
    (lower : k ≤ e.level) : LevelText inner k e (g ++ t) rest :=
  level_lower lower positive e.level_bounds.2 (spelled.level g spaced)

theorem Expr.level_of_unsigned {e : Expr} (tight : 7 ≤ e.level) (unsigned : ∀ x, e ≠ .negate x) :
    8 ≤ e.level := by
  cases e with
  | negate inner => exact absurd rfl (unsigned inner)
  | binary left op right => cases op <;> simp [Expr.level, BinaryOp.level] at tight
  | _ => simp_all [Expr.level]

section Parts

variable {f : String → String}

theorem SpelledAs.inside {depth : Nat} {e : Expr} {t g rest : List Char} (positive : 0 < depth)
    (spelled : SpelledAs (ExprText (depth - 1)) e t rest) (spaced : Spaced g) :
    ExprText depth e (g ++ t) rest := by
  obtain ⟨less, rfl⟩ : ∃ less, depth = less + 1 := ⟨depth - 1, by omega⟩
  exact spelled.lower spaced (Nat.le_refl 1) e.level_bounds.1

theorem group_spelled {depth : Nat} {e : Expr} {t rest : List Char} (positive : 0 < depth)
    (spelled : SpelledAs (ExprText (depth - 1)) e t ([')'] ++ rest)) :
    SpelledAs (ExprText depth) (.group e) ('(' :: (t ++ [')'])) rest := by
  have nested : ExprText depth e ([] ++ t) ([')'] ++ rest) := spelled.inside positive (.inl rfl)
  exact spelled_of_operand rfl (.group nested (closing_spelled rest))

theorem not_spelled {inner : Spelling Expr} {e : Expr} {t rest : List Char}
    (spelled : SpelledAs inner e t rest) (tight : 3 ≤ e.level) :
    SpelledAs inner (.not e) ("NOT".toList ++ ' ' :: t) rest := by
  refine spelled_of_level (by simp [Expr.level]) fun g spaced => ?_
  have word : KeywordText "NOT" () (g ++ "NOT".toList) ([' '] ++ t ++ rest) :=
    keyword_spelled spaced rfl (by decide) (endsWord_blank _)
  rw [← List.append_assoc]
  exact .behind word (spelled.lower (.inr rfl) (by decide) tight)

theorem negate_spelled {inner : Spelling Expr} {e : Expr} {t rest : List Char}
    (operand : OperandText inner e t rest) : SpelledAs inner (.negate e) ('-' :: t) rest := by
  -- A sign directly before a sign would be read as a comment.
  have solid : afterGap ('-' :: (t ++ rest)) = none := by
    obtain ⟨c, first, start⟩ := operand_head operand
    refine solid_minus fun minus => ?_
    rw [first] at minus
    cases minus
    cases start
  refine spelled_of_level (by simp [Expr.level]) fun g spaced => ?_
  have sign : SymbolText "-" () (g ++ "-".toList) (t ++ rest) := .mk (spaced.gap solid)
  have plain : PrimaryText inner e ([] ++ t) rest :=
    ⟨[], _, rfl, gap_none (operand_solid operand), operand⟩
  rw [← List.singleton_append, ← List.append_assoc]
  exact .behind sign (.bare plain)

theorem members_spelled {es : List Expr} {depth : Nat}
    (ih : ∀ e ∈ es, (∀ x, .negate (.negate x) ∉ e.nodes) → ∀ {depth rest}, sizeOf e ≤ depth →
      Breaks rest → SpelledAs (ExprText depth) e (e.written f) rest)
    (single : ∀ e ∈ es, ∀ x, .negate (.negate x) ∉ e.nodes) (enough : sizeOf es ≤ depth) :
    ∀ e ∈ es, ∀ g rest, Spaced g → Breaks rest → ExprText depth e (g ++ e.written f) rest := by
  intro e member g rest spaced breaks
  have smaller := List.sizeOf_lt_of_mem member
  exact (ih e member (single e member) (by omega) breaks).inside (by omega) spaced

end Parts

theorem expr_spelled {f : String → String} (writes : WritesNames f) {e : Expr}
    (wellFormed : e.WellFormed) (single : ∀ x, .negate (.negate x) ∉ e.nodes) {depth : Nat}
    {rest : List Char} (enough : sizeOf e ≤ depth) (breaks : Breaks rest) :
    SpelledAs (ExprText depth) e (e.written f) rest := by
  induction wellFormed generalizing depth rest with
  | @call parts args distinct path inside only ih =>
    simp only [Expr.call.sizeOf_spec] at enough
    have each := members_spelled ih (fun a member x found => single x (by
      simp only [Expr.nodes, Expr.listNodes_eq, List.mem_cons, List.mem_flatMap]
      exact .inr ⟨a, member, found⟩)) (by omega : sizeOf args ≤ depth)
    rw [written_call]
    exact spelled_of_operand rfl (call_spelled path only each rest)
  | @bare name part niladic =>
    have named : PathText [name] name.toList rest :=
      .one (part_elsewhere part (breaks_endsName breaks))
    exact spelled_of_operand rfl (.bare named niladic breaks.uncalled)
  | column path other =>
    exact spelled_of_operand rfl
      (.column (writes _ rest path (breaks_endsName breaks)) other breaks.uncalled)
  | number spelled =>
    exact spelled_of_operand rfl (.number (number_elsewhere spelled (breaks_endsDigits breaks)
      (breaks_head_ne breaks (by decide))))
  | string value =>
    have spelled : OperandText (ExprText depth) (.string (String.ofList value.toList)) _ rest :=
      .string (breaks_head_ne breaks (by decide))
    rw [String.ofList_toList] at spelled
    rw [written_string]
    exact spelled_of_operand rfl spelled
  | null =>
    rw [written_null]
    exact spelled_of_operand rfl (.null rfl (breaks_endsWord breaks))
  | star =>
    rw [written_star]
    exact spelled_of_operand rfl (.star rest)
  | @qualified parts path =>
    rw [written_qualified]
    refine spelled_of_operand rfl (.qualified (writes parts _ path ?_))
    intro c first
    cases first
    decide
  | parameter spelled =>
    exact spelled_of_operand rfl (.parameter (parameter_elsewhere spelled
      (breaks_endsWord breaks) (breaks_endsDigits breaks)))
  | @group inner inside ih =>
    simp only [Expr.group.sizeOf_spec] at enough
    rw [written_group]
    exact group_spelled (by omega) (ih (fun x found => single x (by simp [Expr.nodes, found]))
      (by omega) (breaks_close rest))
  | @not inner inside tight ih =>
    simp only [Expr.not.sizeOf_spec] at enough
    rw [written_not]
    exact not_spelled (ih (fun x found => single x (by simp [Expr.nodes, found])) (by omega) breaks)
      tight
  | @negate inner inside tight ih =>
    simp only [Expr.negate.sizeOf_spec] at enough
    have unsigned : ∀ x, inner ≠ .negate x := by
      rintro x rfl
      exact single x (by simp [Expr.nodes])
    have spelled : SpelledAs (ExprText depth) inner (inner.written f) rest :=
      ih (fun x found => single x (by simp [Expr.nodes, found])) (by omega) breaks
    rw [written_negate]
    exact negate_spelled (spelled.operand (Expr.level_of_unsigned tight unsigned))
  | @binary left right op first second loose tight ihl ihr =>
    simp only [Expr.binary.sizeOf_spec] at enough
    have small : op.level < 8 ∧ 1 ≤ op.leftLevel := by cases op <;> decide
    have one : ∀ rest, Breaks rest → SpelledAs (ExprText depth) left (left.written f) rest :=
      fun rest => ihl (fun x found => single x (by simp [Expr.nodes, found])) (by omega)
    have two : SpelledAs (ExprText depth) right (right.written f) rest :=
      ihr (fun x found => single x (by simp [Expr.nodes, found])) (by omega) breaks
    refine spelled_of_level small.1 fun g spaced => ?_
    rw [written_binary, ← List.append_assoc]
    exact binary_spelled (fun rest breaks => (one rest breaks).lower spaced small.2 loose)
      (two.lower (.inr rfl) (by omega) tight)
  | @isNull subject negated inside tight ih =>
    simp only [Expr.isNull.sizeOf_spec] at enough
    refine spelled_of_level (by simp [Expr.level]) fun g spaced => ?_
    rw [written_isNull, ← List.append_assoc]
    refine isNull_spelled negated (fun rest breaks => ?_) (breaks_endsWord breaks)
    exact (ih (fun x found => single x (by simp [Expr.nodes, found])) (by omega) breaks).lower
      spaced (by decide) tight
  | @inList subject values negated inside tight nonempty each ih ihv =>
    simp only [Expr.inList.sizeOf_spec] at enough
    refine spelled_of_level (by simp [Expr.level]) fun g spaced => ?_
    rw [written_inList, ← List.append_assoc]
    refine inList_spelled negated (fun rest breaks => ?_) nonempty (members_spelled ihv
      (fun a member x found => single x ?_) (by omega : sizeOf values ≤ depth))
    · exact (ih (fun x found => single x (by simp [Expr.nodes, found])) (by omega) breaks).lower
        spaced (by decide) tight
    · simp only [Expr.nodes, Expr.listNodes_eq, List.mem_cons, List.mem_append, List.mem_flatMap]
      exact .inr (.inr ⟨a, member, found⟩)

end SqlDialects
