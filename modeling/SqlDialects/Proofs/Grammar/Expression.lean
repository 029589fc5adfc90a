import SqlDialects.Proofs.Grammar.Numbers

/-
The written form of expressions, level by level. Each level takes the written form of the
expressions that stand inside parentheses, argument lists and value lists; how deep these nest is
counted, so that an expression is spelled by finitely many steps.
-/
namespace SqlDialects

open Reader Spelling

def comparisonSymbols : List (String × BinaryOp) :=
  [("<>", .ne), ("!=", .ne), ("<=", .le), (">=", .ge), ("=", .eq), ("<", .lt), (">", .gt)]

def sumSymbols : List (String × BinaryOp) := [("||", .concat), ("+", .plus), ("-", .minus)]

def productSymbols : List (String × BinaryOp) := [("*", .times), ("/", .divide), ("%", .modulo)]

/-- A symbol of a table behind a gap. It must be the first one of the table that can be read. -/
inductive OperatorText (table : List (String × BinaryOp)) :
    BinaryOp → List Char → List Char → Prop
  | mk {g rest : List Char} {text : String} {op : BinaryOp} (gap : Gap g (text.toList ++ rest))
      (listed : (text, op) ∈ table)
      (first : operatorOf table (text.toList ++ rest) = .ok (op, rest)) :
      OperatorText table op (g ++ text.toList) rest

def WordOperator (word : String) (op : BinaryOp) : Spelling BinaryOp :=
  fun found t rest => found = op ∧ KeywordText word () t rest

inductive ComparatorText : BinaryOp → List Char → List Char → Prop
  | like {t rest : List Char} (h : KeywordText "LIKE" () t rest) : ComparatorText .like t rest
  | notLike {t u rest : List Char} (not : KeywordText "NOT" () t (u ++ rest))
      (h : KeywordText "LIKE" () u rest) : ComparatorText .notLike (t ++ u) rest
  | ilike {t rest : List Char} (h : KeywordText "ILIKE" () t rest) : ComparatorText .ilike t rest
  | symbol {op : BinaryOp} {t rest : List Char} (h : OperatorText comparisonSymbols op t rest) :
      ComparatorText op t rest

section Levels

variable (nested : Spelling Expr)

def ValuesText : Spelling (List Expr) := Separated (SymbolText ",") nested

inductive ArgumentsText (name : String) : Expr → List Char → List Char → Prop
  | none {close rest : List Char} (closed : SymbolText ")" () close rest) :
      ArgumentsText name (.call name [] false false) close rest
  | all {mark close rest : List Char} (star : SymbolText "*" () mark (close ++ rest))
      (closed : SymbolText ")" () close rest) :
      ArgumentsText name (.call name [.star none] false false) (mark ++ close) rest
  | some {args : List Expr} {distinct : Bool} {d ts close rest : List Char}
      (only : Present (KeywordText "DISTINCT") distinct d (ts ++ (close ++ rest)))
      (listed : ValuesText nested args ts (close ++ rest))
      (closed : SymbolText ")" () close rest) :
      ArgumentsText name (.call name args distinct false) (d ++ (ts ++ close)) rest

inductive OperandText : Expr → List Char → List Char → Prop
  | group {inner : Expr} {t close rest : List Char} (h : nested inner t (close ++ rest))
      (closed : SymbolText ")" () close rest) :
      OperandText (.group inner) ('(' :: (t ++ close)) rest
  | string {body rest : List Char} (closed : rest.head? ≠ some '\x27') :
      OperandText (.string (String.ofList body)) (Text.enclose '\x27' body) rest
  | number {text : String} {t rest : List Char} (h : NumberText text t rest) :
      OperandText (.number text) t rest
  | parameter {text : String} {t rest : List Char} (h : ParameterText text t rest) :
      OperandText (.parameter text) t rest
  | null {k rest : List Char} (same : k.map Char.toUpper = "NULL".toList)
      (ended : EndsWord rest) : OperandText .null k rest
  | star (rest : List Char) : OperandText (.star none) ['*'] rest
  | qualified {parts : List String} {t rest : List Char}
      (h : PathText parts t ('.' :: '*' :: rest)) :
      OperandText (.star (some (".".intercalate parts))) (t ++ ['.', '*']) rest
  | call {parts : List String} {e : Expr} {t opening args rest : List Char}
      (h : PathText parts t (opening ++ (args ++ rest)))
      (opened : SymbolText "(" () opening (args ++ rest))
      (inside : ArgumentsText nested (".".intercalate parts) e args rest) :
      OperandText e (t ++ (opening ++ args)) rest
  | bare {name : String} {t rest : List Char} (h : PathText [name] t rest)
      (niladic : isNiladic name = true) (uncalled : front rest ≠ some '(') :
      OperandText (.call name [] false true) t rest
  | column {parts : List String} {t rest : List Char} (h : PathText parts t rest)
      (other : (parts.length == 1 && isNiladic (".".intercalate parts)) = false)
      (uncalled : front rest ≠ some '(') :
      OperandText (.column (".".intercalate parts)) t rest

def PrimaryText : Spelling Expr := BehindGap (OperandText nested)

def UnaryText : Spelling Expr := Marked (SymbolText "-") .negate (PrimaryText nested)

def ProductText : Spelling Expr := Chained .binary (UnaryText nested) (OperatorText productSymbols)

def SumText : Spelling Expr := Chained .binary (ProductText nested) (OperatorText sumSymbols)

inductive ComparisonText : Expr → List Char → List Char → Prop
  | operand {e : Expr} {t rest : List Char} (h : SumText nested e t rest) : ComparisonText e t rest
  | isNull {subject : Expr} {negated : Bool} {t is not null rest : List Char}
      (h : SumText nested subject t (is ++ (not ++ (null ++ rest))))
      (test : KeywordText "IS" () is (not ++ (null ++ rest)))
      (sign : Present (KeywordText "NOT") negated not (null ++ rest))
      (last : KeywordText "NULL" () null rest) :
      ComparisonText (.isNull subject negated) (t ++ (is ++ (not ++ null))) rest
  | inList {subject : Expr} {values : List Expr} {negated : Bool}
      {t not within opening ts close rest : List Char}
      (h : SumText nested subject t (not ++ (within ++ (opening ++ (ts ++ (close ++ rest))))))
      (sign : Present (KeywordText "NOT") negated not (within ++ (opening ++ (ts ++ (close ++ rest)))))
      (test : KeywordText "IN" () within (opening ++ (ts ++ (close ++ rest))))
      (opened : SymbolText "(" () opening (ts ++ (close ++ rest)))
      (listed : ValuesText nested values ts (close ++ rest))
      (closed : SymbolText ")" () close rest) :
      ComparisonText (.inList subject values negated)
        (t ++ (not ++ (within ++ (opening ++ (ts ++ close))))) rest
  | compared {left right : Expr} {op : BinaryOp} {t o u rest : List Char}
      (first : SumText nested left t (o ++ (u ++ rest))) (mark : ComparatorText op o (u ++ rest))
      (second : SumText nested right u rest) :
      ComparisonText (.binary left op right) (t ++ (o ++ u)) rest

def NotText : Spelling Expr := Marked (KeywordText "NOT") .not (ComparisonText nested)

def AndText : Spelling Expr := Chained .binary (NotText nested) (WordOperator "AND" .and)

def OrText : Spelling Expr := Chained .binary (AndText nested) (WordOperator "OR" .or)

end Levels

def ExprText : Nat → Spelling Expr
  | 0 => fun _ _ _ => False
  | depth + 1 => OrText (ExprText depth)

namespace Reader

theorem operatorOf_sound {table : List (String × BinaryOp)} {op : BinaryOp} {s rest : List Char}
    (read : operatorOf table s = .ok (op, rest)) :
    ∃ text, (text, op) ∈ table ∧ s = text.toList ++ rest := by
  induction table with
  | nil => cases read
  | cons entry table ih =>
    rcases orElse_ok read with read | ⟨_, read⟩
    · obtain ⟨_, middle, found, last⟩ := bind_ok read
      cases last
      exact ⟨entry.1, by simp, exactly_ok.mp found⟩
    · obtain ⟨text, listed, split⟩ := ih read
      exact ⟨text, by simp [listed], split⟩

theorem front_ne_of_fails {text : String} {c : Char} {s : List Char}
    (single : text.toList = [c]) (failed : Fails (symbol text) s) : front s ≠ some c := by
  intro first
  cases found : skipGaps s with
  | nil => simp [front, found] at first
  | cons d rest =>
    have same : d = c := by simpa [front, found] using first
    refine @not_fails_of_ok _ _ _ rest () ?_ failed
    rw [symbol_apply, found, exactly_ok, single, same]
    rfl

theorem sound_operator {r : Reader BinaryOp} {table : List (String × BinaryOp)}
    (skips : ∀ s, r s = operatorOf table (skipGaps s)) : Sound r (OperatorText table) := by
  intro s op rest read
  rw [skips] at read
  obtain ⟨text, listed, found⟩ := operatorOf_sound read
  obtain ⟨g, split, gap⟩ := skipGaps_split s
  rw [found] at split gap read
  exact ⟨g ++ text.toList, by rw [split, List.append_assoc], .mk gap listed read⟩

theorem operator_complete {r : Reader BinaryOp} {table : List (String × BinaryOp)}
    (skips : ∀ s, r s = operatorOf table (skipGaps s)) {op : BinaryOp} {t rest : List Char}
    (spelled : OperatorText table op t rest) : r (t ++ rest) = .ok (op, rest) := by
  cases spelled with
  | mk gap listed first => rw [skips, List.append_assoc, gap, first]

theorem sound_wordOperator (word : String) (capital : Capital word) (op : BinaryOp) :
    Sound (do keyword word; pure op) (WordOperator word op) := by
  intro s found rest read
  obtain ⟨_, middle, mark, last⟩ := bind_ok read
  cases last
  obtain ⟨t, split, spelled⟩ := sound_keyword word capital s _ rest mark
  exact ⟨t, split, rfl, spelled⟩

section Levels

variable {nested : Reader Expr} {inner : Spelling Expr} (sound : Sound nested inner)
include sound

theorem sound_values : Sound (separatedBy (symbol ",") nested) (ValuesText inner) :=
  sound_separatedBy (sound_symbol ",") sound

theorem sound_arguments (name : String) :
    Sound (callArguments nested name) (ArgumentsText inner name) := by
  intro s e rest read
  rcases whenRead_ok read with ⟨_, middle, closed, last⟩ | ⟨_, read⟩
  · cases last
    obtain ⟨close, rfl, spelled⟩ := sound_symbol ")" s _ rest closed
    exact ⟨close, rfl, .none spelled⟩
  · rcases whenRead_ok read with ⟨_, middle, both, last⟩ | ⟨_, read⟩
    · cases last
      obtain ⟨_, between, star, closed⟩ := bind_ok both
      obtain ⟨mark, rfl, first⟩ := sound_symbol "*" s _ between star
      obtain ⟨close, rfl, second⟩ := sound_symbol ")" between _ rest closed
      exact ⟨mark ++ close, by simp, .all first second⟩
    · obtain ⟨distinct, afterDistinct, only, read⟩ := bind_ok read
      obtain ⟨args, afterArgs, listed, read⟩ := bind_ok read
      obtain ⟨_, middle, closed, last⟩ := bind_ok read
      cases last
      obtain ⟨d, rfl, first⟩ := sound_present (sound_keyword "DISTINCT" rfl) s _ _ only
      obtain ⟨ts, rfl, values⟩ := sound_values sound _ _ _ listed
      obtain ⟨close, rfl, last⟩ := sound_symbol ")" _ _ rest closed
      exact ⟨d ++ (ts ++ close), by simp, .some first values last⟩

def operand (nested : Reader Expr) : Reader Expr :=
  (do exactly "("; let inner ← nested; symbol ")"; pure (.group inner))
    <|> (do let value ← quoted '\x27'; pure (.string value))
    <|> number
    <|> parameter
    <|> (do keyword "NULL"; pure .null)
    <|> (do exactly "*"; pure (.star none))
    <|> pathExpr nested

omit sound in
theorem primary_apply (s : List Char) : primary nested s = operand nested (skipGaps s) := rfl

theorem path_sound {s rest : List Char} {e : Expr} (solid : afterGap s = none)
    (read : pathExpr nested s = .ok (e, rest)) :
    ∃ t, s = t ++ rest ∧ OperandText inner e t rest := by
  obtain ⟨parts, middle, named, follows⟩ := bind_ok read
  rw [quotedPath_apply, skipGaps_of_none s solid] at named
  obtain ⟨t, rfl, path⟩ := sound_separatedBy (sound_exactly ".") sound_part s parts middle named
  rcases whenRead_ok follows with ⟨_, after, dot, last⟩ | ⟨_, follows⟩
  · cases last
    have split := exactly_ok.mp dot
    subst split
    exact ⟨t ++ ['.', '*'], by simp, .qualified path⟩
  · rcases whenRead_ok follows with ⟨_, after, opened, called⟩ | ⟨unopened, alone⟩
    · obtain ⟨opening, rfl, spelled⟩ := sound_symbol "(" _ _ _ opened
      obtain ⟨args, rfl, inside⟩ := sound_arguments sound _ _ _ _ called
      exact ⟨t ++ (opening ++ args), by simp, .call path spelled inside⟩
    · have uncalled : front middle ≠ some '(' := front_ne_of_fails rfl unopened
      split at alone
      · next single =>
        cases alone
        obtain ⟨name, rfl⟩ :=
          List.length_eq_one_iff.mp (by simpa using (Bool.and_eq_true_iff.mp single).1)
        exact ⟨t, rfl, .bare path (by simpa using single) uncalled⟩
      · next other =>
        cases alone
        exact ⟨t, rfl, .column path (by simpa using other) uncalled⟩

theorem sound_primary : Sound (primary nested) (PrimaryText inner) := by
  intro s e rest read
  obtain ⟨g, split, gap⟩ := skipGaps_split s
  rw [primary_apply] at read
  suffices found : ∃ u, skipGaps s = u ++ rest ∧ OperandText inner e u rest by
    obtain ⟨u, same, spelled⟩ := found
    rw [same] at split gap
    exact ⟨g ++ u, by rw [split, List.append_assoc], g, u, rfl, gap, spelled⟩
  have solid := afterGap_skipGaps s
  generalize skipGaps s = s at read solid
  rcases orElse_ok read with read | ⟨_, read⟩
  · obtain ⟨_, middle, opened, more⟩ := bind_ok read
    obtain ⟨inner, after, found, more⟩ := bind_ok more
    obtain ⟨_, last, closed, done⟩ := bind_ok more
    cases done
    obtain ⟨t, rfl, spelled⟩ := sound _ _ _ found
    obtain ⟨close, rfl, ended⟩ := sound_symbol ")" _ _ _ closed
    exact ⟨'(' :: (t ++ close), by simpa using exactly_ok.mp opened, .group spelled ended⟩
  rcases orElse_ok read with read | ⟨_, read⟩
  · obtain ⟨value, middle, found, done⟩ := bind_ok read
    cases done
    obtain ⟨body, rfl, rfl, closed⟩ := quoted_sound _ _ _ _ found
    exact ⟨_, rfl, .string closed⟩
  rcases orElse_ok read with read | ⟨_, read⟩
  · obtain ⟨t, rfl, text, rfl, spelled⟩ := sound_number _ _ _ read
    exact ⟨t, rfl, .number spelled⟩
  rcases orElse_ok read with read | ⟨_, read⟩
  · obtain ⟨t, rfl, text, rfl, spelled⟩ := sound_parameter _ _ _ read
    exact ⟨t, rfl, .parameter spelled⟩
  rcases orElse_ok read with read | ⟨_, read⟩
  · obtain ⟨_, middle, found, done⟩ := bind_ok read
    cases done
    obtain ⟨k, same, equal, ended⟩ := (keyword_apply "NULL" s rest).mp found
    rw [skipGaps_of_none s solid] at same
    exact ⟨k, same, .null equal ended⟩
  rcases orElse_ok read with read | ⟨_, read⟩
  · obtain ⟨_, middle, found, done⟩ := bind_ok read
    cases done
    exact ⟨['*'], exactly_ok.mp found, .star rest⟩
  exact path_sound sound solid read

theorem sound_unary : Sound (unary nested) (UnaryText inner) :=
  sound_marked (sound_symbol "-") (sound_primary sound)

theorem sound_multiplicative : Sound (multiplicative nested) (ProductText inner) :=
  sound_chain (sound_unary sound) (sound_operator fun _ => rfl)

theorem sound_additive : Sound (additive nested) (SumText inner) :=
  sound_chain (sound_multiplicative sound) (sound_operator fun _ => rfl)

theorem compared_sound {left e : Expr} {op : BinaryOp} {t o s rest : List Char}
    (first : SumText inner left t (o ++ s)) (mark : ComparatorText op o s)
    (read : compared nested left op s = .ok (e, rest)) :
    ∃ u, t ++ (o ++ s) = u ++ rest ∧ ComparisonText inner e u rest := by
  obtain ⟨right, after, found, done⟩ := bind_ok read
  cases done
  obtain ⟨u, rfl, second⟩ := sound_additive sound _ _ _ found
  exact ⟨t ++ (o ++ u), by simp, .compared first mark second⟩

theorem valueList_sound {subject e : Expr} {negated : Bool} {t n i s rest : List Char}
    (first : SumText inner subject t (n ++ (i ++ s)))
    (sign : Present (KeywordText "NOT") negated n (i ++ s)) (test : KeywordText "IN" () i s)
    (read : valueList nested subject negated s = .ok (e, rest)) :
    ∃ u, t ++ (n ++ (i ++ s)) = u ++ rest ∧ ComparisonText inner e u rest := by
  obtain ⟨_, afterOpening, opened, read⟩ := bind_ok read
  obtain ⟨values, afterValues, listed, read⟩ := bind_ok read
  obtain ⟨_, afterClose, closed, done⟩ := bind_ok read
  cases done
  obtain ⟨opening, rfl, opens⟩ := sound_symbol "(" _ _ _ opened
  obtain ⟨ts, rfl, spelled⟩ := sound_values sound _ _ _ listed
  obtain ⟨close, rfl, closes⟩ := sound_symbol ")" _ _ _ closed
  exact ⟨t ++ (n ++ (i ++ (opening ++ (ts ++ close)))), by simp,
    .inList first sign test opens spelled closes⟩

theorem comparisonRest_sound {left e : Expr} {t s rest : List Char}
    (first : SumText inner left t s) (read : comparisonRest nested left s = .ok (e, rest)) :
    ∃ u, t ++ s = u ++ rest ∧ ComparisonText inner e u rest := by
  rcases whenRead_ok read with ⟨_, _, is, follows⟩ | ⟨_, read⟩
  · obtain ⟨negated, _, not, follows⟩ := bind_ok follows
    obtain ⟨_, _, null, done⟩ := bind_ok follows
    cases done
    obtain ⟨i, rfl, test⟩ := sound_keyword "IS" rfl _ _ _ is
    obtain ⟨n, rfl, sign⟩ := sound_present (sound_keyword "NOT" rfl) _ _ _ not
    obtain ⟨k, rfl, last⟩ := sound_keyword "NULL" rfl _ _ _ null
    exact ⟨t ++ (i ++ (n ++ k)), by simp, .isNull first test sign last⟩
  rcases whenRead_ok read with ⟨_, _, not, follows⟩ | ⟨_, read⟩
  · obtain ⟨n, rfl, sign⟩ := sound_keyword "NOT" rfl _ _ _ not
    rcases whenRead_ok follows with ⟨_, _, within, values⟩ | ⟨_, follows⟩
    · obtain ⟨i, rfl, test⟩ := sound_keyword "IN" rfl _ _ _ within
      exact valueList_sound sound first (.there sign) test values
    rcases whenRead_ok follows with ⟨_, _, like, right⟩ | ⟨_, stopped⟩
    · obtain ⟨k, rfl, mark⟩ := sound_keyword "LIKE" rfl _ _ _ like
      rw [← List.append_assoc n] at first ⊢
      exact compared_sound sound first (.notLike sign mark) right
    · cases stopped
  rcases whenRead_ok read with ⟨_, _, within, values⟩ | ⟨_, read⟩
  · obtain ⟨i, rfl, test⟩ := sound_keyword "IN" rfl _ _ _ within
    exact valueList_sound sound first (.missing _) test values
  rcases whenRead_ok read with ⟨_, _, like, right⟩ | ⟨_, read⟩
  · obtain ⟨k, rfl, mark⟩ := sound_keyword "LIKE" rfl _ _ _ like
    exact compared_sound sound first (.like mark) right
  rcases whenRead_ok read with ⟨_, _, like, right⟩ | ⟨_, read⟩
  · obtain ⟨k, rfl, mark⟩ := sound_keyword "ILIKE" rfl _ _ _ like
    exact compared_sound sound first (.ilike mark) right
  rcases whenRead_ok read with ⟨op, _, sign, right⟩ | ⟨_, done⟩
  · have comparator : Sound comparisonOperator (OperatorText comparisonSymbols) :=
      sound_operator fun _ => rfl
    obtain ⟨o, rfl, mark⟩ := comparator _ _ _ sign
    exact compared_sound sound first (.symbol mark) right
  · cases done
    exact ⟨t, rfl, .operand first⟩

theorem sound_comparison : Sound (comparison nested) (ComparisonText inner) := by
  intro s e rest read
  obtain ⟨left, middle, found, follows⟩ := bind_ok read
  obtain ⟨t, rfl, first⟩ := sound_additive sound _ _ _ found
  exact comparisonRest_sound sound first follows

theorem sound_orExpr : Sound (orExpr nested) (OrText inner) := by
  have negation : Sound (notExpr nested) (NotText inner) :=
    sound_marked (sound_keyword "NOT" rfl) (sound_comparison sound)
  have conjunction : Sound (andExpr nested) (AndText inner) :=
    sound_chain negation (sound_wordOperator "AND" rfl .and)
  exact sound_chain conjunction (sound_wordOperator "OR" rfl .or)

end Levels

theorem sound_exprWithin (depth : Nat) : Sound (exprWithin depth) (ExprText depth) := by
  induction depth with
  | zero =>
    intro s e rest read
    cases read
  | succ depth ih => exact sound_orExpr ih

end Reader

end SqlDialects
