import SqlDialects.Proofs.Grammar.Query

/-
The trees that readers give. An operand binds tighter than the operator it stands under, as the
levels say; names, numbers and parameters are spelled as their texts allow.
-/
namespace SqlDialects

open Reader Spelling

/-- How tight an operator binds; a higher level is tighter. -/
def BinaryOp.level : BinaryOp → Nat
  | .or => 1
  | .and => 2
  | .eq | .ne | .lt | .le | .gt | .ge | .like | .notLike | .ilike => 4
  | .plus | .minus | .concat => 5
  | .times | .divide | .modulo => 6

/-- The lowest level of a left operand. Comparisons do not chain, other operators group from the
left. -/
def BinaryOp.leftLevel (op : BinaryOp) : Nat := if op.level = 4 then 5 else op.level

def Expr.level : Expr → Nat
  | .binary _ op _ => op.level
  | .not _ => 3
  | .isNull .. => 4
  | .inList .. => 4
  | .negate _ => 7
  | _ => 8

def IsPart (name : String) : Prop := PartText name name.toList []

structure IsPath (parts : List String) : Prop where
  nonempty : parts ≠ []
  each : ∀ part ∈ parts, IsPart part

theorem isPath_one {name : String} (part : IsPart name) : IsPath [name] :=
  ⟨List.cons_ne_nil _ _, List.forall_mem_singleton.mpr part⟩

theorem isPart_cases {name : String} (part : IsPart name) :
    (∃ body, name.toList = Text.enclose '"' body)
      ∨ IsWord name.toList ∧ isReserved name = false := by
  have shape : ∀ {t : List Char}, PartText name t [] → t = name.toList →
      (∃ body, name.toList = Text.enclose '"' body)
        ∨ IsWord name.toList ∧ isReserved name = false := by
    rintro t (⟨known, closed⟩ | ⟨shape, free, ended⟩) same
    · exact .inl ⟨_, String.toList_ofList⟩
    · exact .inr ⟨same ▸ shape, free⟩
  exact shape part rfl

theorem dotted_cons (part next : String) (parts : List String) :
    (".".intercalate (part :: next :: parts)).toList
      = part.toList ++ (['.'] ++ (".".intercalate (next :: parts)).toList) := by
  rw [String.intercalate_cons_of_ne_nil (List.cons_ne_nil next parts)]
  simp

inductive Expr.WellFormed : Expr → Prop
  | call {parts : List String} {args : List Expr} {distinct : Bool} (path : IsPath parts)
      (inside : ∀ a ∈ args, a.WellFormed) (only : distinct = true → args ≠ []) :
      WellFormed (.call (".".intercalate parts) args distinct false)
  | bare {name : String} (part : IsPart name) (niladic : isNiladic name = true) :
      WellFormed (.call name [] false true)
  | column {parts : List String} (path : IsPath parts)
      (other : (parts.length == 1 && isNiladic (".".intercalate parts)) = false) :
      WellFormed (.column (".".intercalate parts))
  | number {text : String} (spelled : NumberText text text.toList []) : WellFormed (.number text)
  | string (value : String) : WellFormed (.string value)
  | null : WellFormed .null
  | star : WellFormed (.star none)
  | qualified {parts : List String} (path : IsPath parts) :
      WellFormed (.star (some (".".intercalate parts)))
  | parameter {text : String} (spelled : ParameterText text text.toList []) :
      WellFormed (.parameter text)
  | group {inner : Expr} (inside : inner.WellFormed) : WellFormed (.group inner)
  | not {inner : Expr} (inside : inner.WellFormed) (tight : 3 ≤ inner.level) :
      WellFormed (.not inner)
  | negate {inner : Expr} (inside : inner.WellFormed) (tight : 7 ≤ inner.level) :
      WellFormed (.negate inner)
  | binary {left right : Expr} {op : BinaryOp} (first : left.WellFormed)
      (second : right.WellFormed) (loose : op.leftLevel ≤ left.level)
      (tight : op.level < right.level) : WellFormed (.binary left op right)
  | isNull {subject : Expr} {negated : Bool} (inside : subject.WellFormed)
      (tight : 5 ≤ subject.level) : WellFormed (.isNull subject negated)
  | inList {subject : Expr} {values : List Expr} {negated : Bool} (inside : subject.WellFormed)
      (tight : 5 ≤ subject.level) (nonempty : values ≠ []) (each : ∀ v ∈ values, v.WellFormed) :
      WellFormed (.inList subject values negated)

def Expr.FitsLevel (level : Nat) (e : Expr) : Prop := e.WellFormed ∧ level ≤ e.level

structure SelectItem.WellFormed (item : SelectItem) : Prop where
  expr : item.expr.WellFormed
  alias? : ∀ name ∈ item.alias?, IsPart name

structure TableRef.WellFormed (table : TableRef) : Prop where
  name : ∃ parts, IsPath parts ∧ table.name = ".".intercalate parts
  alias? : ∀ name ∈ table.alias?, IsPart name

structure Join.WellFormed (join : Join) : Prop where
  table : join.table.WellFormed
  on? : ∀ condition ∈ join.on?, condition.WellFormed

/-- A count is not given twice, and an offset is marked by `ROWS` only where it is given alone or
with a fetch clause. -/
structure Page.WellFormed (page : Page) : Prop where
  single : page.limit.isSome = true → page.fetch = none ∧ page.offsetRows = false
  offset : page.offset = none → page.offsetRows = false

structure Select.WellFormed (select : Select) : Prop where
  nonempty : select.items ≠ []
  items : ∀ item ∈ select.items, item.WellFormed
  tables : ∀ table ∈ select.tables, table.WellFormed
  joins : ∀ join ∈ select.joins, join.WellFormed
  filter : ∀ condition ∈ select.filter, condition.WellFormed
  groupBy : ∀ e ∈ select.groupBy, e.WellFormed
  having : ∀ condition ∈ select.having, condition.WellFormed
  orderBy : ∀ item ∈ select.orderBy, item.expr.WellFormed
  page : select.page.WellFormed

theorem oneItem_wellFormed {e : Expr} {page : Page} (value : e.WellFormed)
    (paged : page.WellFormed) : Select.WellFormed { items := [⟨e, none⟩], page } where
  nonempty := List.cons_ne_nil _ _
  items item member := by
    obtain rfl := List.mem_singleton.mp member
    exact ⟨value, nofun⟩
  tables := nofun
  joins := nofun
  filter := nofun
  groupBy := nofun
  having := nofun
  orderBy := nofun
  page := paged

/-! What a name, a number or a parameter stands for is kept as a text of its own, which spells it in
front of other texts too. -/

def EndsName (rest : List Char) : Prop :=
  ∀ c, rest.head? = some c → c ∉ ['"', '\x60'] ∧ isNameCharacter c = false

theorem part_elsewhere {name : String} {t rest other : List Char} (spelled : PartText name t rest)
    (ended : EndsName other) : PartText name name.toList other := by
  cases spelled with
  | quoted known closed =>
    rw [String.toList_ofList]
    exact .quoted (.inl rfl) fun first => (ended _ first).1 (by simp)
  | plain shape free _ =>
    rw [String.toList_ofList]
    exact .plain shape free fun c first => (ended c first).2

theorem part_kept {name : String} {t rest : List Char} (spelled : PartText name t rest) :
    IsPart name :=
  part_elsewhere spelled fun c first => by cases first

theorem path_kept {parts : List String} {t rest : List Char} (spelled : PathText parts t rest) :
    IsPath parts := by
  induction spelled with
  | one part => exact ⟨by simp, by simpa using part_kept part⟩
  | more part _ _ ih =>
    refine ⟨by simp, fun found member => ?_⟩
    rcases List.mem_cons.mp member with rfl | member
    · exact part_kept part
    · exact ih.each found member

theorem number_elsewhere {text : String} {t rest other : List Char}
    (spelled : NumberText text t rest) (ended : EndsDigits other) (point : other.head? ≠ some '.') :
    NumberText text text.toList other := by
  cases spelled with
  | whole digits _ _ =>
    rw [String.toList_ofList]
    exact .whole digits ended point
  | fraction digits places _ =>
    rw [String.toList_ofList]
    exact .fraction digits places ended

theorem parameter_elsewhere {text : String} {t rest other : List Char}
    (spelled : ParameterText text t rest) (ended : EndsWord other) (digitless : EndsDigits other) :
    ParameterText text text.toList other := by
  cases spelled with
  | question => exact .question other
  | named shape _ => simpa using ParameterText.named shape ended
  | numbered digits _ => simpa using ParameterText.numbered digits digitless

/-! Whatever is spelled is well-formed. -/

theorem separated_each {α : Type} {item : Spelling α} {P : α → Prop}
    {as : List α} {t rest : List Char} (spelled : Separated (SymbolText ",") item as t rest)
    (each : ∀ a t rest, item a t rest → P a) : as ≠ [] ∧ ∀ a ∈ as, P a := by
  induction spelled with
  | one h => exact ⟨by simp, by simpa using each _ _ _ h⟩
  | more head _ _ ih =>
    refine ⟨by simp, fun a member => ?_⟩
    rcases List.mem_cons.mp member with rfl | member
    · exact each _ _ _ head
    · exact ih.2 a member

section Levels

variable {inner : Spelling Expr} (inside : ∀ e t rest, inner e t rest → e.WellFormed)
include inside

theorem primary_fits {e : Expr} {t rest : List Char} (spelled : PrimaryText inner e t rest) :
    e.FitsLevel 8 := by
  obtain ⟨g, u, rfl, gap, operand⟩ := spelled
  cases operand with
  | group h closed => exact ⟨.group (inside _ _ _ h), Nat.le_refl _⟩
  | string closed => exact ⟨.string _, Nat.le_refl _⟩
  | number h => exact ⟨.number (number_elsewhere h endsDigits_nil (by simp)), Nat.le_refl _⟩
  | parameter h => exact ⟨.parameter (parameter_elsewhere h endsWord_nil endsDigits_nil), Nat.le_refl _⟩
  | null same ended => exact ⟨.null, Nat.le_refl _⟩
  | star => exact ⟨.star, Nat.le_refl _⟩
  | qualified h => exact ⟨.qualified (path_kept h), Nat.le_refl _⟩
  | call h opened args =>
    cases args with
    | none closed => exact ⟨.call (path_kept h) (by simp) (by simp), Nat.le_refl _⟩
    | all star closed =>
      exact ⟨.call (path_kept h) (by simpa using Expr.WellFormed.star) (by simp), Nat.le_refl _⟩
    | some only listed closed =>
      obtain ⟨nonempty, each⟩ := separated_each listed inside
      exact ⟨.call (path_kept h) each fun _ => nonempty, Nat.le_refl _⟩
  | bare h niladic uncalled =>
    exact ⟨.bare ((path_kept h).each _ (by simp)) niladic, Nat.le_refl _⟩
  | column h other uncalled => exact ⟨.column (path_kept h) other, Nat.le_refl _⟩

theorem unary_fits {e : Expr} {t rest : List Char} (spelled : UnaryText inner e t rest) :
    e.FitsLevel 7 := by
  induction spelled with
  | bare h =>
    obtain ⟨wellFormed, tight⟩ := primary_fits inside h
    exact ⟨wellFormed, by omega⟩
  | behind sign _ ih => exact ⟨.negate ih.1 ih.2, Nat.le_refl _⟩

omit inside in
theorem chained_fits {operand : Spelling Expr} {operator : Spelling BinaryOp} {level : Nat}
    (operands : ∀ e t rest, operand e t rest → e.FitsLevel (level + 1))
    (operators : ∀ op t rest, operator op t rest → op.level = level ∧ op.leftLevel = level)
    {e : Expr} {t rest : List Char} (spelled : Chained .binary operand operator e t rest) :
    e.FitsLevel level := by
  obtain ⟨head, tail⟩ := spelled
  next first t u =>
  have begun : first.FitsLevel level :=
    ⟨(operands _ _ _ head).1, Nat.le_of_succ_le (operands _ _ _ head).2⟩
  clear head
  induction tail with
  | stop => exact begun
  | @more left right result op o t u rest mark next tail ih =>
    obtain ⟨own, before⟩ := operators _ _ _ mark
    obtain ⟨wellFormed, tight⟩ := operands _ _ _ next
    refine ih ⟨.binary begun.1 wellFormed (by rw [before]; exact begun.2) (by omega), ?_⟩
    exact own.ge

omit inside in
theorem operator_level {table : List (String × BinaryOp)} {level : Nat}
    (listed : table.all (fun entry => entry.2.level == level && entry.2.leftLevel == level) = true)
    {op : BinaryOp} {t rest : List Char} (spelled : OperatorText table op t rest) :
    op.level = level ∧ op.leftLevel = level := by
  cases spelled with
  | mk gap member first => simpa using List.all_eq_true.mp listed _ member

theorem sum_fits {e : Expr} {t rest : List Char} (spelled : SumText inner e t rest) :
    e.FitsLevel 5 :=
  chained_fits (fun _ _ _ => chained_fits (fun _ _ _ => unary_fits inside)
    fun _ _ _ => operator_level rfl) (fun _ _ _ => operator_level rfl) spelled

omit inside in
theorem comparator_level {op : BinaryOp} {t rest : List Char} (spelled : ComparatorText op t rest) :
    op.level = 4 := by
  cases spelled with
  | like => rfl
  | notLike => rfl
  | ilike => rfl
  | symbol h =>
    cases h with
    | mk gap member first =>
      have each := List.all_eq_true.mp
        (rfl : comparisonSymbols.all (fun entry => entry.2.level == 4) = true) _ member
      simpa using each

theorem comparison_fits {e : Expr} {t rest : List Char} (spelled : ComparisonText inner e t rest) :
    e.FitsLevel 4 := by
  cases spelled with
  | operand h =>
    obtain ⟨wellFormed, tight⟩ := sum_fits inside h
    exact ⟨wellFormed, by omega⟩
  | isNull h test sign last =>
    obtain ⟨wellFormed, tight⟩ := sum_fits inside h
    exact ⟨.isNull wellFormed tight, Nat.le_refl _⟩
  | inList h sign test opened listed closed =>
    obtain ⟨wellFormed, tight⟩ := sum_fits inside h
    obtain ⟨nonempty, each⟩ := separated_each listed inside
    exact ⟨.inList wellFormed tight nonempty each, Nat.le_refl _⟩
  | @compared left right op t o u rest first mark second =>
    obtain ⟨leftFormed, leftTight⟩ := sum_fits inside first
    obtain ⟨rightFormed, rightTight⟩ := sum_fits inside second
    have own := comparator_level mark
    refine ⟨.binary leftFormed rightFormed ?_ (by omega), own.ge⟩
    rwa [BinaryOp.leftLevel, if_pos own]

theorem or_fits {e : Expr} {t rest : List Char} (spelled : OrText inner e t rest) :
    e.FitsLevel 1 := by
  have negation : ∀ e t rest, NotText inner e t rest → e.FitsLevel 3 := by
    intro e t rest spelled
    induction spelled with
    | bare h =>
      obtain ⟨wellFormed, tight⟩ := comparison_fits inside h
      exact ⟨wellFormed, by omega⟩
    | behind sign _ ih => exact ⟨.not ih.1 ih.2, Nat.le_refl _⟩
  refine chained_fits (fun _ _ _ => chained_fits negation ?_) ?_ spelled
  · rintro op t rest ⟨rfl, _⟩
    exact ⟨rfl, rfl⟩
  · rintro op t rest ⟨rfl, _⟩
    exact ⟨rfl, rfl⟩

end Levels

theorem exprText_wellFormed (depth : Nat) (e : Expr) (t rest : List Char)
    (spelled : ExprText depth e t rest) : e.WellFormed := by
  induction depth generalizing e t rest with
  | zero => cases spelled
  | succ depth ih => exact (or_fits ih spelled).1

/-! Whatever is spelled as a query is well-formed. -/

theorem anyExprText_wellFormed {e : Expr} {t rest : List Char} (spelled : AnyExprText e t rest) :
    e.WellFormed := by
  obtain ⟨depth, spelled⟩ := spelled
  exact exprText_wellFormed depth e t rest spelled

theorem alias_wellFormed {name : Option String} {t rest : List Char}
    (spelled : AliasText name t rest) : ∀ found ∈ name, IsPart found := by
  cases spelled with
  | missing => simp
  | there h =>
    cases h with
    | mk optional gap part => simpa using part_kept part

theorem selectItem_wellFormed {item : SelectItem} {t rest : List Char}
    (spelled : SelectItemText item t rest) : item.WellFormed := by
  cases spelled with
  | mk value shown => exact ⟨anyExprText_wellFormed value, alias_wellFormed shown⟩

theorem tableRef_wellFormed {table : TableRef} {t rest : List Char}
    (spelled : TableRefText table t rest) : table.WellFormed := by
  cases spelled with
  | mk path shown =>
    obtain ⟨g, u, rfl, gap, path⟩ := path
    exact ⟨⟨_, path_kept path, rfl⟩, alias_wellFormed shown⟩

theorem condition_wellFormed {word : String} {condition : Option Expr} {t rest : List Char}
    (spelled : ConditionText word condition t rest) : ∀ e ∈ condition, e.WellFormed := by
  cases spelled with
  | missing => simp
  | there h =>
    obtain ⟨_, m, v, rfl, mark, value⟩ := h
    simpa using anyExprText_wellFormed value

theorem join_wellFormed {join : Join} {t rest : List Char} (spelled : JoinText join t rest) :
    join.WellFormed := by
  cases spelled with
  | mk mark joined on => exact ⟨tableRef_wellFormed joined, condition_wellFormed on⟩

theorem page_wellFormed {page : Page} {t rest : List Char} (spelled : PageText page t rest) :
    page.WellFormed := by
  cases spelled with
  | comma => exact ⟨by simp, by simp⟩
  | limit => exact ⟨by simp, by simp⟩
  | @offset offset fetch o f rest first second =>
    refine ⟨by simp [Page.ofOffset], fun absent => ?_⟩
    have missing : offset = none := by simpa [Page.ofOffset] using absent
    simp [Page.ofOffset, missing]

theorem list_each {α : Type} {mark : Spelling Unit} {item : Spelling α} {P : α → Prop}
    {as : List α} {t rest : List Char} (spelled : ListText mark item as t rest)
    (each : ∀ a t rest, item a t rest → P a) : ∀ a ∈ as, P a := by
  cases spelled with
  | missing => simp
  | there marked listed => exact (separated_each listed each).2

theorem many_each {α : Type} {item : Spelling α} {P : α → Prop}
    {as : List α} {t rest : List Char} (spelled : Many item as t rest)
    (each : ∀ a t rest, item a t rest → P a) : ∀ a ∈ as, P a := by
  induction spelled with
  | none => simp
  | more head _ ih =>
    intro a member
    rcases List.mem_cons.mp member with rfl | member
    · exact each _ _ _ head
    · exact ih a member

theorem query_wellFormed {select : Select} {s : List Char} (spelled : QueryText select s) :
    select.WellFormed := by
  cases spelled with
  | mk word distinct items tables joins filter groupBy having orderBy page ended =>
    obtain ⟨nonempty, each⟩ := separated_each items fun _ _ _ => selectItem_wellFormed
    have ordered : ∀ item t rest, OrderItemText item t rest → item.expr.WellFormed := by
      intro item t rest spelled
      cases spelled with
      | mk value way => exact anyExprText_wellFormed value
    exact
      { nonempty, items := each
        tables := list_each tables fun _ _ _ => tableRef_wellFormed
        joins := many_each joins fun _ _ _ => join_wellFormed
        filter := condition_wellFormed filter
        groupBy := list_each groupBy fun _ _ _ => anyExprText_wellFormed
        having := condition_wellFormed having
        orderBy := list_each orderBy ordered
        page := page_wellFormed page }

end SqlDialects
