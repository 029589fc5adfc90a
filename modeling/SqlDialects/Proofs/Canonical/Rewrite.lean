import SqlDialects.Conversion.Calls
import SqlDialects.Proofs.Canonical.WellFormed
import SqlDialects.Proofs.Sql.Nodes

/-
Queries with other names for their functions and other operators. Such a change goes through a
query node by node; it keeps well-formed queries so, and two of them in a row are one.
-/
namespace SqlDialects

/-- The call under its new name, if it has one. A name that is written without parentheses only
takes the place of a call without arguments. -/
def Call.renamed (new? : String → Option String) (call : Call) : Call :=
  match new? call.name with
  | some target => if losesArguments target call.args then call else call.rename target
  | none => call

mutual

def Expr.rewrite (new? : String → Option String) (change : BinaryOp → BinaryOp) : Expr → Expr
  | .call name args distinct bare =>
    let call := Call.renamed new? { name, args, distinct, bare }
    .call call.name (Expr.listRewrite new? change args) call.distinct call.bare
  | .binary left op right => .binary (left.rewrite new? change) (change op) (right.rewrite new? change)
  | .group inner => .group (inner.rewrite new? change)
  | .not inner => .not (inner.rewrite new? change)
  | .negate inner => .negate (inner.rewrite new? change)
  | .isNull subject negated => .isNull (subject.rewrite new? change) negated
  | .inList subject values negated =>
    .inList (subject.rewrite new? change) (Expr.listRewrite new? change values) negated
  | .column name => .column name
  | .number text => .number text
  | .string value => .string value
  | .null => .null
  | .star qualifier => .star qualifier
  | .parameter text => .parameter text

def Expr.listRewrite (new? : String → Option String) (change : BinaryOp → BinaryOp) :
    List Expr → List Expr
  | [] => []
  | e :: rest => e.rewrite new? change :: Expr.listRewrite new? change rest

end

theorem Expr.listRewrite_eq (new? : String → Option String) (change : BinaryOp → BinaryOp)
    (es : List Expr) : Expr.listRewrite new? change es = es.map (Expr.rewrite new? change) := by
  induction es with
  | nil => rfl
  | cons e es ih => exact congrArg (e.rewrite new? change :: ·) ih

def Select.mapExprs (f : Expr → Expr) (select : Select) : Select :=
  { select with
    items := select.items.map fun item => { item with expr := f item.expr }
    joins := select.joins.map fun join => { join with on? := join.on?.map f }
    filter := select.filter.map f
    groupBy := select.groupBy.map f
    having := select.having.map f
    orderBy := select.orderBy.map fun item => { item with expr := f item.expr } }

/-! Plain names. -/

def PlainName (name : String) : Prop :=
  ∀ c ∈ name.toList, c.toNat < 0x80 ∧ c ∉ ['"', '$', '#']

/-- The name of an expression is plain, that of a function has one part, and a parameter has no
name. -/
def Expr.PlainNode : Expr → Prop
  | .column name => PlainName name
  | .star (some qualifier) => PlainName qualifier
  | .call name _ _ _ => PlainName name ∧ '.' ∉ name.toList
  | .parameter text => text.toList.head? ≠ some ':'
  | _ => True

structure TableRef.Plain (table : TableRef) : Prop where
  name : PlainName table.name
  alias? : ∀ name ∈ table.alias?, PlainName name

structure Select.Plain (select : Select) : Prop where
  nodes : ∀ e ∈ select.nodes, e.PlainNode
  items : ∀ item ∈ select.items, ∀ name ∈ item.alias?, PlainName name
  tables : ∀ table ∈ select.tables, table.Plain
  joins : ∀ join ∈ select.joins, join.table.Plain

/-! Node by node. -/

section Rewrite

variable {new? : String → Option String} {change : BinaryOp → BinaryOp}

theorem rewrite_call (name : String) (args : List Expr) (distinct bare : Bool) :
    (Expr.call name args distinct bare).rewrite new? change
      = .call (Call.renamed new? ⟨name, args, distinct, bare⟩).name
        (args.map (Expr.rewrite new? change))
        (Call.renamed new? ⟨name, args, distinct, bare⟩).distinct
        (Call.renamed new? ⟨name, args, distinct, bare⟩).bare := by
  rw [← Expr.listRewrite_eq]
  rfl

mutual

theorem Expr.rewrite_nodes : (e : Expr) →
    (e.rewrite new? change).nodes = e.nodes.map (Expr.rewrite new? change)
  | .call name args distinct bare => congrArg (_ :: ·) (Expr.listRewrite_nodes args)
  | .binary left op right => by
    have both := congrArg₂ (· ++ ·) left.rewrite_nodes right.rewrite_nodes
    rw [← List.map_append] at both
    exact congrArg (_ :: ·) both
  | .group inner => congrArg (_ :: ·) inner.rewrite_nodes
  | .not inner => congrArg (_ :: ·) inner.rewrite_nodes
  | .negate inner => congrArg (_ :: ·) inner.rewrite_nodes
  | .isNull subject negated => congrArg (_ :: ·) subject.rewrite_nodes
  | .inList subject values negated => by
    have both := congrArg₂ (· ++ ·) subject.rewrite_nodes (Expr.listRewrite_nodes values)
    rw [← List.map_append] at both
    exact congrArg (_ :: ·) both
  | .column _ | .number _ | .string _ | .null | .parameter _ | .star _ => rfl

theorem Expr.listRewrite_nodes : (es : List Expr) →
    Expr.listNodes (Expr.listRewrite new? change es)
      = (Expr.listNodes es).map (Expr.rewrite new? change)
  | [] => rfl
  | e :: es => by
    have both := congrArg₂ (· ++ ·) e.rewrite_nodes (Expr.listRewrite_nodes es)
    rw [← List.map_append] at both
    exact both

end

theorem renamed_cases (call : Call) : Call.renamed new? call = call
    ∨ ∃ target, new? call.name = some target ∧ Call.renamed new? call = call.rename target := by
  rw [Call.renamed]
  split
  · next target found =>
    split
    · exact .inl rfl
    · exact .inr ⟨target, found, rfl⟩
  · exact .inl rfl

theorem rewrite_plainNode
    (targets : ∀ name target, new? name = some target → PlainName target ∧ '.' ∉ target.toList)
    {e : Expr} (plain : e.PlainNode) : (e.rewrite new? change).PlainNode := by
  cases e with
  | call name args distinct bare =>
    rw [rewrite_call]
    rcases @renamed_cases new? ⟨name, args, distinct, bare⟩ with
      kept | ⟨target, found, renamed⟩
    · rw [kept]
      exact plain
    · rw [renamed]
      exact targets name target found
  | _ => exact plain

theorem renamed_wellFormed {target : String} (part : IsPart target) {args : List Expr}
    {distinct : Bool} (inside : ∀ a ∈ args, a.WellFormed) (only : distinct = true → args ≠ []) :
    (Expr.call target args distinct (args.isEmpty && isNiladic target)).WellFormed := by
  cases short : args.isEmpty && isNiladic target with
  | false =>
    have wellFormed := Expr.WellFormed.call (isPath_one part) inside only
    rwa [String.intercalate_singleton] at wellFormed
  | true =>
    obtain ⟨empty, niladic⟩ := (Bool.and_eq_true ..).mp short
    obtain rfl := List.isEmpty_iff.mp empty
    cases distinct with
    | false => exact .bare part niladic
    | true => exact absurd rfl (only rfl)


theorem rewrite_level (levels : ∀ op, (change op).level = op.level) (e : Expr) :
    (e.rewrite new? change).level = e.level := by
  cases e with
  | binary left op right => exact levels op
  | _ => rfl

theorem rewrite_wellFormed (targets : ∀ name target, new? name = some target → IsPart target)
    (levels : ∀ op, (change op).level = op.level) {e : Expr} (wellFormed : e.WellFormed) :
    (e.rewrite new? change).WellFormed := by
  have calls : ∀ {name args distinct bare}, (Expr.call name args distinct bare).WellFormed →
      (∀ a ∈ args.map (Expr.rewrite new? change), a.WellFormed) →
      (distinct = true → args ≠ []) →
      (Expr.call name (args.map (Expr.rewrite new? change)) distinct bare).WellFormed →
      ((Expr.call name args distinct bare).rewrite new? change).WellFormed := by
    intro name args distinct bare whole each only same
    rw [rewrite_call]
    rcases @renamed_cases new? ⟨name, args, distinct, bare⟩ with
      kept | ⟨target, found, renamed⟩
    · rw [kept]
      exact same
    · rw [renamed]
      have wellFormed := renamed_wellFormed (targets name target found) each (by simpa using only)
      rwa [List.isEmpty_map] at wellFormed
  induction wellFormed with
  | call path inside only ih =>
    have each := (@List.forall_mem_map _ _ _ _ Expr.WellFormed).mpr ih
    exact calls (.call path inside only) each only (.call path each (by simpa using only))
  | bare part niladic => exact calls (.bare part niladic) (by simp) (by simp) (.bare part niladic)
  | binary first second loose tight ihl ihr =>
    refine .binary ihl ihr ?_ ?_
    · rwa [rewrite_level levels, BinaryOp.leftLevel, levels]
    · rwa [rewrite_level levels, levels]
  | column path other => exact .column path other
  | number spelled => exact .number spelled
  | string value => exact .string value
  | null => exact .null
  | star => exact .star
  | qualified path => exact .qualified path
  | parameter spelled => exact .parameter spelled
  | group inside ih => exact .group ih
  | not inside tight ih => exact .not ih (by rwa [rewrite_level levels])
  | negate inside tight ih => exact .negate ih (by rwa [rewrite_level levels])
  | isNull inside tight ih => exact .isNull ih (by rwa [rewrite_level levels])
  | @inList subject values negated inside tight nonempty each ih ihs =>
    change (Expr.inList (subject.rewrite new? change) (Expr.listRewrite new? change values)
      negated).WellFormed
    rw [Expr.listRewrite_eq]
    exact .inList ih (by rwa [rewrite_level levels]) (by simpa using nonempty)
      (List.forall_mem_map.mpr ihs)

end Rewrite

/-! One after the other. -/

/-- Renaming by the first and then by the second is renaming by the third: what has been renamed is
left alone. -/
structure InTurn (first second both : String → Option String) : Prop where
  renamed : ∀ name target, first name = some target →
    second target = none ∧ second name = none ∧ both name = some target
  kept : ∀ name, first name = none → both name = second name

section InTurn

variable {first second both : String → Option String}

theorem renamed_renamed (inTurn : InTurn first second both) (call : Call) {args : List Expr}
    (length : args.isEmpty = call.args.isEmpty) :
    Call.renamed second { Call.renamed first call with args }
      = { Call.renamed both call with args } := by
  have loses : ∀ target, losesArguments target args = losesArguments target call.args := by
    intro target
    simp only [losesArguments, length]
  cases found : first call.name with
  | none =>
    simp only [Call.renamed, found, inTurn.kept call.name found]
    cases second call.name with
    | none => rfl
    | some target =>
      cases lost : losesArguments target call.args <;> simp [loses, lost, Call.rename, length]
  | some target =>
    obtain ⟨settled, same, whole⟩ := inTurn.renamed call.name target found
    simp only [Call.renamed, found, whole]
    cases losesArguments target call.args with
    | true => simp only [if_true, same]
    | false => simp only [Bool.false_eq_true, if_false, Call.rename, settled]

mutual

theorem Expr.rewrite_rewrite (inTurn : InTurn first second both) (f h : BinaryOp → BinaryOp) :
    (e : Expr) → (e.rewrite first f).rewrite second h = e.rewrite both (h ∘ f)
  | .call name args distinct bare => by
    have inside := Expr.listRewrite_rewrite inTurn f h args
    have call := @renamed_renamed _ _ _ inTurn ⟨name, args, distinct, bare⟩
      (Expr.listRewrite first f args) (by rw [Expr.listRewrite_eq, List.isEmpty_map])
    have whole := congrArg₂
      (fun (call : Call) args => Expr.call call.name args call.distinct call.bare) call inside
    exact whole
  | .binary left op right =>
    congrArg₂ (Expr.binary · (h (f op)) ·) (left.rewrite_rewrite inTurn f h)
      (right.rewrite_rewrite inTurn f h)
  | .group inner => congrArg Expr.group (inner.rewrite_rewrite inTurn f h)
  | .not inner => congrArg Expr.not (inner.rewrite_rewrite inTurn f h)
  | .negate inner => congrArg Expr.negate (inner.rewrite_rewrite inTurn f h)
  | .isNull subject negated => congrArg (Expr.isNull · negated) (subject.rewrite_rewrite inTurn f h)
  | .inList subject values negated =>
    congrArg₂ (Expr.inList · · negated) (subject.rewrite_rewrite inTurn f h)
      (Expr.listRewrite_rewrite inTurn f h values)
  | .column _ | .number _ | .string _ | .null | .parameter _ | .star _ => rfl

theorem Expr.listRewrite_rewrite (inTurn : InTurn first second both) (f h : BinaryOp → BinaryOp) :
    (es : List Expr) →
    Expr.listRewrite second h (Expr.listRewrite first f es) = Expr.listRewrite both (h ∘ f) es
  | [] => rfl
  | e :: es =>
    congrArg₂ (· :: ·) (e.rewrite_rewrite inTurn f h) (Expr.listRewrite_rewrite inTurn f h es)

end

end InTurn

mutual

theorem Expr.rewrite_none : (e : Expr) → e.rewrite (fun _ => none) id = e
  | .call name args distinct bare =>
    congrArg (Expr.call name · distinct bare) (Expr.listRewrite_none args)
  | .binary left op right => congrArg₂ (Expr.binary · op ·) left.rewrite_none right.rewrite_none
  | .group inner => congrArg Expr.group inner.rewrite_none
  | .not inner => congrArg Expr.not inner.rewrite_none
  | .negate inner => congrArg Expr.negate inner.rewrite_none
  | .isNull subject negated => congrArg (Expr.isNull · negated) subject.rewrite_none
  | .inList subject values negated =>
    congrArg₂ (Expr.inList · · negated) subject.rewrite_none (Expr.listRewrite_none values)
  | .column _ | .number _ | .string _ | .null | .parameter _ | .star _ => rfl

theorem Expr.listRewrite_none : (es : List Expr) → Expr.listRewrite (fun _ => none) id es = es
  | [] => rfl
  | e :: es => congrArg₂ (· :: ·) e.rewrite_none (Expr.listRewrite_none es)

end

/-! Whole queries. -/

namespace Select

theorem mapExprs_id (select : Select) : select.mapExprs id = select := by
  simp [mapExprs]

theorem mapExprs_mapExprs (f h : Expr → Expr) (select : Select) :
    (select.mapExprs f).mapExprs h = select.mapExprs (h ∘ f) := by
  simp [mapExprs, Function.comp_def]

theorem mapExprs_exprs (f : Expr → Expr) (select : Select) :
    (select.mapExprs f).exprs = select.exprs.map f := by
  simp [mapExprs, exprs, List.filterMap_map, List.map_filterMap, Function.comp_def, Option.toList_map]

theorem mapExprs_wellFormed {f : Expr → Expr} (each : ∀ e : Expr, e.WellFormed → (f e).WellFormed)
    {select : Select} (wellFormed : select.WellFormed) : (select.mapExprs f).WellFormed :=
  { wellFormed with
    nonempty := by simpa [mapExprs] using wellFormed.nonempty
    items := List.forall_mem_map.mpr fun item member =>
      ⟨each _ (wellFormed.items item member).expr, (wellFormed.items item member).alias?⟩
    joins := List.forall_mem_map.mpr fun join member => by
      refine ⟨(wellFormed.joins join member).table, fun condition found => ?_⟩
      obtain ⟨old, inside, rfl⟩ := Option.mem_map.mp found
      exact each _ ((wellFormed.joins join member).on? old inside)
    filter := fun condition found => by
      obtain ⟨old, inside, rfl⟩ := Option.mem_map.mp found
      exact each _ (wellFormed.filter old inside)
    groupBy := List.forall_mem_map.mpr fun e member => each e (wellFormed.groupBy e member)
    having := fun condition found => by
      obtain ⟨old, inside, rfl⟩ := Option.mem_map.mp found
      exact each _ (wellFormed.having old inside)
    orderBy := List.forall_mem_map.mpr fun item member => each _ (wellFormed.orderBy item member) }

section Rewrite

variable {new? : String → Option String} {change : BinaryOp → BinaryOp}

theorem rewrite_nodes (select : Select) :
    (select.mapExprs (Expr.rewrite new? change)).nodes
      = select.nodes.map (Expr.rewrite new? change) := by
  rw [nodes, nodes, mapExprs_exprs, List.flatMap_map, List.map_flatMap]
  exact congrArg (List.flatMap · _) (funext Expr.rewrite_nodes)

theorem rewrite_plain
    (targets : ∀ name target, new? name = some target → PlainName target ∧ '.' ∉ target.toList)
    {select : Select} (plain : select.Plain) :
    (select.mapExprs (Expr.rewrite new? change)).Plain where
  nodes := by
    rw [rewrite_nodes]
    exact List.forall_mem_map.mpr fun e member => rewrite_plainNode targets (plain.nodes e member)
  items := List.forall_mem_map.mpr fun item member => plain.items item member
  tables := plain.tables
  joins := List.forall_mem_map.mpr fun join member => plain.joins join member

end Rewrite

end Select

end SqlDialects
