import SqlDialects.Proofs.Grammar.QueryReading

/-
Queries in a changed text. A change says what may become of a text. Where the words, names and signs
of a text are found again in the changed one, in the same order, so are the expressions and the
queries that they make up. An expression may become another one, as long as the likeness of the two
passes through every operator.
-/
namespace SqlDialects

open Reader Spelling

variable {α β : Type}

abbrev Change : Type := List Char → List Char → Prop

def Uncontinued (rest : List Char) : Prop :=
  ∀ c, front rest = some c → c ≠ '(' ∧ c.isDigit = false

theorem Uncontinued.uncalled {s : List Char} (stop : Uncontinued s) : front s ≠ some '(' :=
  fun opened => (stop '(' opened).1 rfl

def Anywhere (_ : List Char) : Prop := True

namespace Change

variable (change : Change)

def Finds (spelling : Spelling α) (wanted : α → Prop) (rest w : List Char) : Prop :=
  ∃ b t' rest', w = t' ++ rest' ∧ spelling b t' rest' ∧ wanted b ∧ change rest rest'

/-- Whatever is spelled at the front of a text, something like it is found in the changed text. -/
def Carries (ends : List Char → Prop) (spelling : Spelling α) (like : α → α → Prop) : Prop :=
  ∀ a t rest w, spelling a t rest → ends rest → change (t ++ rest) w →
    change.Finds spelling (like a) rest w

variable {change} {ends : List Char → Prop}

theorem Carries.fewer {narrow : List Char → Prop} {spelling : Spelling α} {like : α → α → Prop}
    (carried : change.Carries ends spelling like) (within : ∀ s, narrow s → ends s) :
    change.Carries narrow spelling like :=
  fun a t rest w spelled ended => carried a t rest w spelled (within rest ended)

/-! The ways of putting parts together. -/

theorem carries_maybe {part : Spelling α} {like : α → α → Prop}
    (each : change.Carries ends part like) :
    change.Carries ends (Maybe part) (Option.Rel like) := by
  intro found t rest w spelled ended changed
  cases spelled with
  | missing => exact ⟨none, [], w, rfl, .missing w, .none, changed⟩
  | there h =>
    obtain ⟨b, t', rest', rfl, spelled, alike, changed⟩ := each _ _ _ _ h ended changed
    exact ⟨some b, t', rest', rfl, .there spelled, .some alike, changed⟩

theorem carries_present {part : Spelling α} {like : α → α → Prop}
    (each : change.Carries ends part like) : change.Carries ends (Present part) Eq := by
  intro found t rest w spelled ended changed
  cases spelled with
  | missing => exact ⟨false, [], w, rfl, .missing w, rfl, changed⟩
  | there h =>
    obtain ⟨b, t', rest', rfl, spelled, _, changed⟩ := each _ _ _ _ h ended changed
    exact ⟨true, t', rest', rfl, .there spelled, rfl, changed⟩

theorem carries_many {item : Spelling α} {like : α → α → Prop}
    (each : change.Carries ends item like) (begins : ∀ a t rest, item a t rest → ends (t ++ rest)) :
    change.Carries ends (Many item) (List.Forall₂ like) := by
  intro found t rest w spelled ended changed
  induction spelled generalizing w with
  | none rest => exact ⟨[], [], w, rfl, .none w, .nil, changed⟩
  | @more a as t u rest head tail ih =>
    rw [List.append_assoc] at changed
    obtain ⟨b, t', middle, rfl, first, alike, changed⟩ :=
      each _ _ _ _ head (many_front tail begins ended) changed
    obtain ⟨bs, u', rest', rfl, others, same, changed⟩ := ih _ ended changed
    exact ⟨b :: bs, t' ++ u', rest', by simp, .more first others, .cons alike same, changed⟩

theorem carries_separated {separator : Spelling β} {item : Spelling α} {like : α → α → Prop}
    (mark : change.Carries Anywhere separator Eq) (each : change.Carries ends item like)
    (begins : ∀ b t rest, separator b t rest → ends (t ++ rest)) :
    change.Carries ends (Separated separator item) (List.Forall₂ like) := by
  intro found t rest w spelled ended changed
  induction spelled generalizing w with
  | one h =>
    obtain ⟨b, t', rest', rfl, spelled, alike, changed⟩ := each _ _ _ _ h ended changed
    exact ⟨[b], t', rest', rfl, .one spelled, .cons alike .nil, changed⟩
  | @more a sign as t m u rest head between tail ih =>
    simp only [List.append_assoc] at changed
    obtain ⟨b, t', w', rfl, first, alike, changed⟩ :=
      each _ _ _ _ head (begins _ _ _ between) changed
    obtain ⟨_, m', w'', rfl, comma, rfl, changed⟩ := mark _ _ _ _ between trivial changed
    obtain ⟨bs, u', rest', rfl, others, same, changed⟩ := ih _ ended changed
    exact ⟨b :: bs, t' ++ (m' ++ u'), rest', by simp, .more first comma others,
      .cons alike same, changed⟩

theorem carries_behind {separator : Spelling β} {item : Spelling α} {like : α → α → Prop}
    (mark : change.Carries Anywhere separator Eq) (each : change.Carries ends item like) :
    change.Carries ends (Behind separator item) like := by
  rintro a t rest w ⟨sign, m, v, rfl, between, spelled⟩ ended changed
  rw [List.append_assoc] at changed
  obtain ⟨_, m', w', rfl, comma, rfl, changed⟩ := mark _ _ _ _ between trivial changed
  obtain ⟨b, v', rest', rfl, found, alike, changed⟩ := each _ _ _ _ spelled ended changed
  exact ⟨b, m' ++ v', rest', by simp, ⟨_, m', v', rfl, comma, found⟩, alike, changed⟩

theorem carries_chainFrom {combine : α → β → α → α} {operand : Spelling α} {operator : Spelling β}
    {like : α → α → Prop} (mark : change.Carries Anywhere operator Eq)
    (each : change.Carries ends operand like)
    (begins : ∀ op t rest, operator op t rest → ends (t ++ rest))
    (passes : ∀ {a b c d : α} (op : β), like a b → like c d → like (combine a op c) (combine b op d))
    {left left' result : α} {t rest w : List Char} (alike : like left left')
    (spelled : ChainFrom combine operand operator left result t rest) (ended : ends rest)
    (changed : change (t ++ rest) w) :
    change.Finds (ChainFrom combine operand operator left') (like result) rest w := by
  induction spelled generalizing left' w with
  | stop left rest => exact ⟨left', [], w, rfl, .stop left' w, alike, changed⟩
  | @more left right result op o t u rest sign next tail ih =>
    simp only [List.append_assoc] at changed
    obtain ⟨_, o', w', rfl, sign', rfl, changed⟩ := mark _ _ _ _ sign trivial changed
    obtain ⟨right', t', w'', rfl, next', also, changed⟩ :=
      each _ _ _ _ next (chain_front tail begins ended) changed
    obtain ⟨result', u', rest', rfl, tail', same, changed⟩ :=
      ih (passes op alike also) ended changed
    exact ⟨result', o' ++ (t' ++ u'), rest', by simp, .more sign' next' tail', same, changed⟩

theorem carries_chained {combine : α → β → α → α} {operand : Spelling α} {operator : Spelling β}
    {like : α → α → Prop} (mark : change.Carries Anywhere operator Eq)
    (each : change.Carries ends operand like)
    (begins : ∀ op t rest, operator op t rest → ends (t ++ rest))
    (passes : ∀ {a b c d : α} (op : β), like a b → like c d → like (combine a op c) (combine b op d)) :
    change.Carries ends (Chained combine operand operator) like := by
  intro result t rest w spelled ended changed
  cases spelled with
  | @mk first result t u rest head tail =>
    rw [List.append_assoc] at changed
    obtain ⟨first', t', w', rfl, head', alike, changed⟩ :=
      each _ _ _ _ head (chain_front tail begins ended) changed
    obtain ⟨result', u', rest', rfl, tail', same, changed⟩ :=
      carries_chainFrom mark each begins passes alike tail ended changed
    exact ⟨result', t' ++ u', rest', by simp, .mk head' tail', same, changed⟩

theorem carries_marked {mark : Spelling β} {wrap : α → α} {operand : Spelling α}
    {like : α → α → Prop} (sign : change.Carries Anywhere mark Eq)
    (each : change.Carries ends operand like)
    (passes : ∀ {a b : α}, like a b → like (wrap a) (wrap b)) :
    change.Carries ends (Marked mark wrap operand) like := by
  intro found t rest w spelled ended changed
  induction spelled generalizing w with
  | bare h =>
    obtain ⟨b, t', rest', rfl, spelled, alike, changed⟩ := each _ _ _ _ h ended changed
    exact ⟨b, t', rest', rfl, .bare spelled, alike, changed⟩
  | behind before inner ih =>
    rw [List.append_assoc] at changed
    obtain ⟨_, m', w', rfl, before', rfl, changed⟩ := sign _ _ _ _ before trivial changed
    obtain ⟨b, t', rest', rfl, inner', alike, changed⟩ := ih _ ended changed
    exact ⟨wrap b, m' ++ t', rest', by simp, .behind before' inner', passes alike, changed⟩

/-! What a change has to do with the lexemes of a text. -/

def queryWords : List String :=
  ["SELECT", "DISTINCT", "AS", "FROM", "INNER", "LEFT", "RIGHT", "FULL", "OUTER", "CROSS", "JOIN",
    "ON", "WHERE", "GROUP", "BY", "HAVING", "ORDER", "DESC", "ASC", "AND", "OR", "NOT", "IS", "NULL",
    "IN", "LIKE"]

def WordText (word : String) : Spelling Unit :=
  fun _ k rest => k.map Char.toUpper = word.toList ∧ EndsWord rest

def LiteralText : Spelling (List Char) :=
  fun body t rest => t = Text.enclose '\x27' body ∧ rest.head? ≠ some '\x27'

variable (change) in
structure Lexical : Prop where
  gap : ∀ {s w}, change s w → change (skipGaps s) (skipGaps w)
  ended : ∀ {w}, change [] w → afterGap w = none → w = []
  uncontinued : ∀ {s w}, change s w → Uncontinued s → Uncontinued w
  keyword : ∀ word ∈ queryWords, change.Carries Anywhere (KeywordText word) Eq
  symbol : ∀ text ∈ [",", "(", ")", "*", "-"], change.Carries Anywhere (SymbolText text) Eq
  operator : ∀ table ∈ [productSymbols, sumSymbols, comparisonSymbols],
    change.Carries Anywhere (OperatorText table) Eq
  mark : ∀ text ∈ ["(", "*", "."], change.Carries Anywhere (ExactText text) Eq
  null : change.Carries Anywhere (WordText "NULL") Eq
  literal : change.Carries Anywhere LiteralText Eq
  number : change.Carries Uncontinued NumberText Eq
  parameter : change.Carries Uncontinued ParameterText Eq
  part : change.Carries Uncontinued PartText Eq

def isLeaf : Expr → Bool
  | .column _ | .number _ | .string _ | .null | .star _ | .parameter _ => true
  | _ => false

structure Congruent (like : Expr → Expr → Prop) : Prop where
  leaf : ∀ e, isLeaf e = true → like e e
  bare : ∀ name, isNiladic name = true → like (.call name [] false true) (.call name [] false true)
  binary : ∀ {a b c d} (op : BinaryOp), like a b → like c d → like (.binary a op c) (.binary b op d)
  group : ∀ {a b}, like a b → like (.group a) (.group b)
  not : ∀ {a b}, like a b → like (.not a) (.not b)
  negate : ∀ {a b}, like a b → like (.negate a) (.negate b)
  isNull : ∀ {a b negated}, like a b → like (.isNull a negated) (.isNull b negated)
  inList : ∀ {a b negated as bs}, like a b → List.Forall₂ like as bs →
    like (.inList a as negated) (.inList b bs negated)

def Replaces (like : Expr → Expr → Prop) (op other : BinaryOp) : Prop :=
  ∀ {a b c d}, like a b → like c d → like (.binary a op c) (.binary b other d)

/-! What goes on neither with an opening parenthesis nor with a digit. -/

theorem uncontinued_of_front {s : List Char} {c : Char} (first : front s = some c) (other : c ≠ '(')
    (letter : c.isDigit = false) : Uncontinued s := by
  intro d found
  rw [first] at found
  cases found
  exact ⟨other, letter⟩

theorem uncontinued_of_letter {s : List Char} {c : Char} (first : front s = some c)
    (letter : c.isAlpha = true) : Uncontinued s := by
  refine uncontinued_of_front first ?_ (Text.not_isDigit_of_isAlpha c letter)
  rintro rfl
  cases letter

theorem uncontinued_keyword {word : String} {a : Unit} {t rest : List Char}
    (spelled : KeywordText word a t rest) (capital : Capital word) (nonempty : word.toList ≠ []) :
    Uncontinued (t ++ rest) := by
  obtain ⟨c, first, letter⟩ := keyword_front spelled capital nonempty
  exact uncontinued_of_letter first letter

theorem uncontinued_symbol {text : String} {a : Unit} {t rest : List Char}
    (spelled : SymbolText text a t rest)
    (other : ∃ c, text.toList.head? = some c ∧ c ≠ '(' ∧ c.isDigit = false) :
    Uncontinued (t ++ rest) := by
  obtain ⟨c, first, other, letter⟩ := other
  obtain ⟨u, split⟩ := List.head?_eq_some_iff.mp first
  refine @uncontinued_of_front _ c ?_ other letter
  rw [front, symbol_front spelled, split]
  rfl

theorem uncontinued_operator {table : List (String × BinaryOp)} {op : BinaryOp} {t rest : List Char}
    (spelled : OperatorText table op t rest) (written : ∀ entry ∈ table, entry.1.toList ≠ [])
    (apart : (symbolHeads table).all (fun c => c != '(' && !c.isDigit) = true) :
    Uncontinued (t ++ rest) := by
  obtain ⟨c, member, first⟩ := operator_front written spelled
  have other := List.all_eq_true.mp apart c member
  simp only [Bool.and_eq_true, bne_iff_ne, ne_eq, Bool.not_eq_true'] at other
  exact uncontinued_of_front first other.1 other.2

theorem uncontinued_opens {words : List String} {s : List Char} (opens : Opens words s)
    (reserved : ∀ w ∈ words, w ∈ reservedWords) : Uncontinued s := by
  intro c first
  exact uncontinued_of_letter first (front_of_opens opens reserved first) c first

theorem uncontinued_present {word : String} {shown : Bool} {t rest : List Char}
    (spelled : Present (KeywordText word) shown t rest) (capital : Capital word)
    (nonempty : word.toList ≠ []) (after : Uncontinued rest) : Uncontinued (t ++ rest) := by
  cases spelled with
  | missing => exact after
  | there h => exact uncontinued_keyword h capital nonempty

theorem uncontinued_comparator {op : BinaryOp} {t rest : List Char}
    (spelled : ComparatorText op t rest) : Uncontinued (t ++ rest) := by
  cases spelled with
  | like h => exact uncontinued_keyword h rfl (by decide)
  | notLike not h =>
    rw [List.append_assoc]
    exact uncontinued_keyword not rfl (by decide)
  | ilike h => exact uncontinued_keyword h rfl (by decide)
  | symbol h => exact uncontinued_operator h (by decide) (by decide)

theorem uncontinued_dot (rest : List Char) : Uncontinued ('.' :: rest) := by
  refine @uncontinued_of_front _ '.' ?_ (by decide) (by decide)
  rw [front, skipGaps_of_none _ (solid_of_head rest (by decide))]
  rfl

theorem uncontinued_newName {name : String} {t rest : List Char} (spelled : NewNameText name t rest) :
    Uncontinued (t ++ rest) := by
  cases spelled with
  | @mk word name as g t rest optional gap part =>
    simp only [List.append_assoc]
    cases optional with
    | missing =>
      obtain ⟨c, first, known⟩ := part_head part
      have front : front (g ++ (t ++ rest)) = some c := by rw [front_gap gap, first]
      rcases known with quote | start
      · simp only [List.mem_cons, List.not_mem_nil, or_false] at quote
        rcases quote with rfl | rfl <;> exact uncontinued_of_front front (by decide) (by decide)
      · refine uncontinued_of_front front ?_ ?_
        · rintro rfl
          exact absurd start (by decide)
        · by_contra digit
          rw [not_nameStart_of_isDigit c (by simpa using digit)] at start
          cases start
    | there h => exact uncontinued_keyword h rfl (by decide)

theorem uncontinued_alias {name : Option String} {t rest : List Char} (spelled : AliasText name t rest)
    (after : Uncontinued rest) : Uncontinued (t ++ rest) := by
  cases spelled with
  | missing => exact after
  | there h => exact uncontinued_newName h

/-! Expressions. -/

section Expressions

variable {like : Expr → Expr → Prop} (lexical : change.Lexical) (congruent : Congruent like)
  {nested : Spelling Expr} (inner : change.Carries Uncontinued nested like)

include lexical

theorem carries_behindGap {spelling : Spelling α} {alike : α → α → Prop}
    (each : change.Carries ends spelling alike) :
    change.Carries ends (BehindGap spelling) alike := by
  rintro a t rest w ⟨g, u, rfl, gap, spelled⟩ ended changed
  have solid := lexical.gap changed
  rw [List.append_assoc, gap] at solid
  obtain ⟨g', split, gap'⟩ := skipGaps_split w
  obtain ⟨b, u', rest', found, spelled', same, changed⟩ := each _ _ _ _ spelled ended solid
  rw [found] at split gap'
  exact ⟨b, g' ++ u', rest', by rw [split, List.append_assoc], ⟨g', u', rfl, gap', spelled'⟩, same,
    changed⟩

theorem carries_path : change.Carries Uncontinued PathText Eq := by
  intro parts t rest w spelled ended changed
  obtain ⟨parts', t', rest', split, spelled', same, changed⟩ :=
    carries_separated (lexical.mark "." (by simp)) lexical.part
      (fun _ t rest dot => by subst dot; exact uncontinued_dot rest) parts t rest w spelled ended changed
  rw [List.forall₂_eq_eq_eq] at same
  exact ⟨parts', t', rest', split, spelled', same, changed⟩

include inner

theorem carries_values : change.Carries Uncontinued (ValuesText nested) (List.Forall₂ like) :=
  carries_separated (lexical.symbol "," (by simp)) inner
    fun _ _ _ comma => uncontinued_symbol comma ⟨',', rfl, by decide⟩

theorem carries_arguments {name other : String} {e : Expr} {t rest w : List Char}
    (all : like (.star none) (.star none)) (spelled : ArgumentsText nested name e t rest)
    (changed : change (t ++ rest) w) :
    change.Finds (ArgumentsText nested other) (fun found => ∃ as bs distinct,
      e = .call name as distinct false ∧ found = .call other bs distinct false
        ∧ List.Forall₂ like as bs) rest w := by
  have closing := lexical.symbol ")" (by simp)
  cases spelled with
  | none closed =>
    obtain ⟨_, t', rest', rfl, closed', rfl, changed⟩ := closing _ _ _ _ closed trivial changed
    exact ⟨_, t', rest', rfl, .none closed', ⟨[], [], false, rfl, rfl, .nil⟩, changed⟩
  | all star closed =>
    rw [List.append_assoc] at changed
    obtain ⟨_, m', w', rfl, star', rfl, changed⟩ :=
      lexical.symbol "*" (by simp) _ _ _ _ star trivial changed
    obtain ⟨_, c', rest', rfl, closed', rfl, changed⟩ := closing _ _ _ _ closed trivial changed
    exact ⟨_, m' ++ c', rest', by simp, .all star' closed',
      ⟨_, _, false, rfl, rfl, .cons all .nil⟩, changed⟩
  | @some args distinct d ts close rest only listed closed =>
    simp only [List.append_assoc] at changed
    obtain ⟨_, d', w', rfl, only', rfl, changed⟩ :=
      carries_present (lexical.keyword "DISTINCT" (by decide)) _ _ _ _ only trivial changed
    obtain ⟨bs, ts', w'', rfl, listed', same, changed⟩ := carries_values lexical inner _ _ _ _
      listed (uncontinued_symbol closed ⟨')', rfl, by decide⟩) changed
    obtain ⟨_, c', rest', rfl, closed', rfl, changed⟩ := closing _ _ _ _ closed trivial changed
    exact ⟨_, d' ++ (ts' ++ c'), rest', by simp, .some only' listed' closed',
      ⟨_, bs, distinct, rfl, rfl, same⟩, changed⟩

end Expressions

def AtEnd (rest : List Char) : Prop := skipGaps rest = []

variable (change) in
/-- The change finds lexemes again, and finds something in the place of the parts of a query that are
more than lexemes: an operator, a call and the page. -/
structure Lawful (like : Expr → Expr → Prop) (paged : Page → Page → Prop) : Prop where
  lexical : change.Lexical
  congruent : Congruent like
  ilike : ∀ {t rest w}, KeywordText "ILIKE" () t rest → change (t ++ rest) w →
    change.Finds ComparatorText (Replaces like .ilike) rest w
  call : ∀ {depth parts e t opening args rest w}, change.Carries Uncontinued (ExprText depth) like →
    PathText parts t (opening ++ (args ++ rest)) → SymbolText "(" () opening (args ++ rest) →
    ArgumentsText (ExprText depth) (".".intercalate parts) e args rest → Uncontinued rest →
    change (t ++ (opening ++ (args ++ rest))) w →
    change.Finds (OperandText (ExprText depth)) (like e) rest w
  page : change.Carries AtEnd PageText paged

section Lawful

variable {like : Expr → Expr → Prop} {paged : Page → Page → Prop} (lawful : change.Lawful like paged)
  {depth : Nat} (inner : change.Carries Uncontinued (ExprText depth) like)

include lawful

theorem carries_comparator {op : BinaryOp} {t rest w : List Char}
    (spelled : ComparatorText op t rest) (changed : change (t ++ rest) w) :
    change.Finds ComparatorText (Replaces like op) rest w := by
  have same : ∀ op, Replaces like op op := fun op => lawful.congruent.binary op
  have word := lawful.lexical.keyword
  cases spelled with
  | like h =>
    obtain ⟨_, t', rest', rfl, h', rfl, changed⟩ :=
      word "LIKE" (by decide) _ _ _ _ h trivial changed
    exact ⟨.like, t', rest', rfl, .like h', same .like, changed⟩
  | notLike not h =>
    rw [List.append_assoc] at changed
    obtain ⟨_, n', w', rfl, not', rfl, changed⟩ :=
      word "NOT" (by decide) _ _ _ _ not trivial changed
    obtain ⟨_, t', rest', rfl, h', rfl, changed⟩ :=
      word "LIKE" (by decide) _ _ _ _ h trivial changed
    exact ⟨.notLike, n' ++ t', rest', by simp, .notLike not' h', same .notLike, changed⟩
  | ilike h => exact lawful.ilike h changed
  | symbol h =>
    obtain ⟨_, t', rest', rfl, h', rfl, changed⟩ :=
      lawful.lexical.operator comparisonSymbols (by simp) _ _ _ _ h trivial changed
    exact ⟨op, t', rest', rfl, .symbol h', same op, changed⟩

theorem carries_wordOperator {word : String} {op : BinaryOp} (known : word ∈ queryWords) :
    change.Carries Anywhere (WordOperator word op) Eq := by
  rintro found t rest w ⟨rfl, spelled⟩ ended changed
  obtain ⟨_, t', rest', rfl, h', rfl, changed⟩ :=
    lawful.lexical.keyword word known _ _ _ _ spelled ended changed
  exact ⟨found, t', rest', rfl, ⟨rfl, h'⟩, rfl, changed⟩

include inner

theorem carries_operand : change.Carries Uncontinued (OperandText (ExprText depth)) like := by
  intro e t rest w spelled ended changed
  have lexical := lawful.lexical
  have mark := lexical.mark
  have path := carries_path lexical
  have same := lawful.congruent.leaf
  cases spelled with
  | @group value t close rest h closed =>
    have split : '(' :: (t ++ close) ++ rest = "(".toList ++ (t ++ (close ++ rest)) := by simp
    rw [split] at changed
    obtain ⟨_, o', w', rfl, rfl, rfl, changed⟩ :=
      mark "(" (by simp) () _ _ _ rfl trivial changed
    obtain ⟨value', t', w'', rfl, h', alike, changed⟩ :=
      inner _ _ _ _ h (uncontinued_symbol closed ⟨')', rfl, by decide⟩) changed
    obtain ⟨_, c', rest', rfl, closed', rfl, changed⟩ :=
      lexical.symbol ")" (by simp) _ _ _ _ closed trivial changed
    exact ⟨.group value', '(' :: (t' ++ c'), rest', by simp, .group h' closed',
      lawful.congruent.group alike, changed⟩
  | @string body rest closed =>
    obtain ⟨_, t', rest', rfl, ⟨rfl, closed'⟩, rfl, later⟩ :=
      lexical.literal body _ _ _ ⟨rfl, closed⟩ trivial changed
    exact ⟨_, _, rest', rfl, .string closed', same _ rfl, later⟩
  | number h =>
    obtain ⟨_, t', rest', rfl, h', rfl, changed⟩ := lexical.number _ _ _ _ h ended changed
    exact ⟨_, t', rest', rfl, .number h', same _ rfl, changed⟩
  | parameter h =>
    obtain ⟨_, t', rest', rfl, h', rfl, changed⟩ := lexical.parameter _ _ _ _ h ended changed
    exact ⟨_, t', rest', rfl, .parameter h', same _ rfl, changed⟩
  | null word ends =>
    obtain ⟨_, t', rest', rfl, ⟨word', ends'⟩, rfl, changed⟩ :=
      lexical.null () _ _ _ ⟨word, ends⟩ trivial changed
    exact ⟨_, t', rest', rfl, .null word' ends', same _ rfl, changed⟩
  | star rest =>
    obtain ⟨_, t', rest', rfl, rfl, rfl, changed⟩ :=
      mark "*" (by simp) () ['*'] _ _ rfl trivial changed
    exact ⟨_, ['*'], rest', rfl, .star rest', same _ rfl, changed⟩
  | @qualified parts t rest h =>
    have split : t ++ ['.', '*'] ++ rest = t ++ (".".toList ++ ("*".toList ++ rest)) := by simp
    rw [split] at changed
    obtain ⟨_, t', w', rfl, h', rfl, changed⟩ := path _ _ _ _ h (uncontinued_dot _) changed
    obtain ⟨_, d', w'', rfl, rfl, rfl, changed⟩ :=
      mark "." (by simp) () _ _ _ rfl trivial changed
    obtain ⟨_, s', rest', rfl, rfl, rfl, changed⟩ :=
      mark "*" (by simp) () _ _ _ rfl trivial changed
    exact ⟨_, t' ++ ['.', '*'], rest', by simp, .qualified h', same _ rfl, changed⟩
  | call h opened inside =>
    simp only [List.append_assoc] at changed
    exact lawful.call inner h opened inside ended changed
  | bare h niladic uncalled =>
    obtain ⟨_, t', rest', rfl, h', rfl, changed⟩ := path _ _ _ _ h ended changed
    exact ⟨_, t', rest', rfl, .bare h' niladic (lexical.uncontinued changed ended).uncalled,
      lawful.congruent.bare _ niladic, changed⟩
  | column h other uncalled =>
    obtain ⟨_, t', rest', rfl, h', rfl, changed⟩ := path _ _ _ _ h ended changed
    exact ⟨_, t', rest', rfl, .column h' other (lexical.uncontinued changed ended).uncalled,
      same _ rfl, changed⟩

theorem carries_sum : change.Carries Uncontinued (SumText (ExprText depth)) like := by
  have primary := carries_behindGap lawful.lexical (carries_operand lawful inner)
  have unary := carries_marked (lawful.lexical.symbol "-" (by simp)) primary lawful.congruent.negate
  have product := carries_chained (lawful.lexical.operator productSymbols (by simp)) unary
    (fun _ _ _ sign => uncontinued_operator sign (by decide) (by decide)) lawful.congruent.binary
  exact carries_chained (lawful.lexical.operator sumSymbols (by simp)) product
    (fun _ _ _ sign => uncontinued_operator sign (by decide) (by decide)) lawful.congruent.binary

theorem carries_comparison : change.Carries Uncontinued (ComparisonText (ExprText depth)) like := by
  intro e t rest w spelled ended changed
  have word := lawful.lexical.keyword
  have sum := carries_sum lawful inner
  cases spelled with
  | operand h =>
    obtain ⟨e', t', rest', rfl, h', alike, changed⟩ := sum _ _ _ _ h ended changed
    exact ⟨e', t', rest', rfl, .operand h', alike, changed⟩
  | isNull h test sign last =>
    simp only [List.append_assoc] at changed
    obtain ⟨e', t', w1, rfl, h', alike, changed⟩ :=
      sum _ _ _ _ h (uncontinued_keyword test rfl (by decide)) changed
    obtain ⟨_, i', w2, rfl, test', rfl, changed⟩ :=
      word "IS" (by decide) _ _ _ _ test trivial changed
    obtain ⟨_, n', w3, rfl, sign', rfl, changed⟩ :=
      carries_present (word "NOT" (by decide)) _ _ _ _ sign trivial changed
    obtain ⟨_, l', rest', rfl, last', rfl, changed⟩ :=
      word "NULL" (by decide) _ _ _ _ last trivial changed
    exact ⟨_, t' ++ (i' ++ (n' ++ l')), rest', by simp, .isNull h' test' sign' last',
      lawful.congruent.isNull alike, changed⟩
  | inList h sign test opened listed closed =>
    simp only [List.append_assoc] at changed
    obtain ⟨e', t', w1, rfl, h', alike, changed⟩ := sum _ _ _ _ h
      (uncontinued_present sign rfl (by decide) (uncontinued_keyword test rfl (by decide))) changed
    obtain ⟨_, n', w2, rfl, sign', rfl, changed⟩ :=
      carries_present (word "NOT" (by decide)) _ _ _ _ sign trivial changed
    obtain ⟨_, i', w3, rfl, test', rfl, changed⟩ :=
      word "IN" (by decide) _ _ _ _ test trivial changed
    obtain ⟨_, o', w4, rfl, opened', rfl, changed⟩ :=
      lawful.lexical.symbol "(" (by simp) _ _ _ _ opened trivial changed
    obtain ⟨values', l', w5, rfl, listed', same, changed⟩ := carries_values lawful.lexical inner
      _ _ _ _ listed (uncontinued_symbol closed ⟨')', rfl, by decide⟩) changed
    obtain ⟨_, c', rest', rfl, closed', rfl, changed⟩ :=
      lawful.lexical.symbol ")" (by simp) _ _ _ _ closed trivial changed
    exact ⟨_, t' ++ (n' ++ (i' ++ (o' ++ (l' ++ c')))), rest', by simp,
      .inList h' sign' test' opened' listed' closed', lawful.congruent.inList alike same, changed⟩
  | compared left mark right =>
    simp only [List.append_assoc] at changed
    obtain ⟨a', t', w1, rfl, left', alike, changed⟩ :=
      sum _ _ _ _ left (uncontinued_comparator mark) changed
    obtain ⟨op', o', w2, rfl, mark', replaces, changed⟩ :=
      carries_comparator lawful mark changed
    obtain ⟨b', u', rest', rfl, right', same, changed⟩ := sum _ _ _ _ right ended changed
    exact ⟨_, t' ++ (o' ++ u'), rest', by simp, .compared left' mark' right', replaces alike same,
      changed⟩

theorem carries_or : change.Carries Uncontinued (OrText (ExprText depth)) like := by
  have negation := carries_marked (lawful.lexical.keyword "NOT" (by decide))
    (carries_comparison lawful inner) lawful.congruent.not
  have conjunction : change.Carries Uncontinued (AndText (ExprText depth)) like :=
    carries_chained (carries_wordOperator lawful (by decide)) negation
      (fun _ _ _ sign => uncontinued_keyword sign.2 rfl (by decide)) lawful.congruent.binary
  exact carries_chained (carries_wordOperator lawful (by decide)) conjunction
    (fun _ _ _ sign => uncontinued_keyword sign.2 rfl (by decide)) lawful.congruent.binary

end Lawful

end Change

end SqlDialects
