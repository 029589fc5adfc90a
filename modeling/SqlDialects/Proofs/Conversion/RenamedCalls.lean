import SqlDialects.Proofs.Conversion.TreePath

/-
What the renaming of calls leaves alone. A tree is compared with the renamed one node by node: at
every position the two have the same node, but for a call with a new name that is reached from above
through calls and binary operators only.
-/
namespace SqlDialects

/-! Positions in an expression. -/

namespace Expr

def children : Expr → List Expr
  | .call _ args _ _ => args
  | .binary left _ right => [left, right]
  | .group inner | .not inner | .negate inner => [inner]
  | .isNull subject _ => [subject]
  | .inList subject values _ => subject :: values
  | .column _ | .number _ | .string _ | .null | .star _ | .parameter _ => []

def at? (e : Expr) : List Nat → Option Expr
  | [] => some e
  | i :: position => e.children[i]?.bind fun child => child.at? position

def hollow : Expr → Expr
  | .call name args distinct bare => .call name (args.map fun _ => .null) distinct bare
  | .binary _ op _ => .binary .null op .null
  | .group _ => .group .null
  | .not _ => .not .null
  | .negate _ => .negate .null
  | .isNull _ negated => .isNull .null negated
  | .inList _ values negated => .inList .null (values.map fun _ => .null) negated
  | e => e

def isEntered : Expr → Bool
  | .call .. | .binary .. => true
  | _ => false

/-- The search for calls comes to a position: it goes on below every node above it. -/
def reaches (e : Expr) : List Nat → Bool
  | [] => true
  | i :: position => e.isEntered && e.children[i]?.any fun child => child.reaches position

theorem children_smaller {e child : Expr} (member : child ∈ e.children) : sizeOf child < sizeOf e := by
  cases e with
  | call name args distinct bare =>
    have smaller : sizeOf child < sizeOf args := List.sizeOf_lt_of_mem member
    simp only [call.sizeOf_spec]
    omega
  | inList subject values negated =>
    simp only [inList.sizeOf_spec]
    rcases List.mem_cons.mp member with rfl | member
    · omega
    · have smaller := List.sizeOf_lt_of_mem member
      omega
  | binary left op right =>
    simp only [children, List.mem_cons, List.not_mem_nil, or_false] at member
    simp only [binary.sizeOf_spec]
    rcases member with rfl | rfl <;> omega
  | group | not | negate | isNull =>
    obtain rfl := List.mem_singleton.mp member
    simp
  | column | number | string | null | star | parameter => cases member

theorem eq_of_children {e f : Expr} (node : e.hollow = f.hollow) (below : e.children = f.children) :
    e = f := by
  cases e <;> cases f <;> simp_all [hollow, children]

theorem children_length {e f : Expr} (node : e.hollow = f.hollow) :
    e.children.length = f.children.length := by
  have marks : ∀ e : Expr, e.hollow.children.length = e.children.length := by
    intro e
    cases e <;> simp [hollow, children]
  rw [← marks e, ← marks f, node]

theorem eq_of_nodes (e f : Expr)
    (same : ∀ position, (e.at? position).map hollow = (f.at? position).map hollow) : e = f := by
  have node : e.hollow = f.hollow := Option.some.inj (same [])
  refine eq_of_children node (List.ext_getElem (children_length node) fun i here there => ?_)
  have smaller := children_smaller (List.getElem_mem here)
  refine eq_of_nodes _ _ fun position => ?_
  simpa [at?, here, there] using same (i :: position)
termination_by e

end Expr

/-! Nodes under their new names. -/

/-- The new name of a call, if it is to be renamed: its function has another name in the target, and
it does not take arguments to a name that is written without parentheses. -/
def Call.newName? (pair : Pair) (call : Call) : Option String :=
  match (FunctionMapping.lookup? pair call.name).map FunctionMapping.action with
  | some (.rename target) | some (.approximate target _) =>
    if isNiladic target && !call.args.isEmpty then none else some target
  | some (.unsupported _) | some .native | none => none

theorem Call.adapted_eq (pair : Pair) (call : Call) :
    call.adapted pair = ((call.newName? pair).map call.rename).getD call := by
  rw [Call.adapted, Call.newName?]
  cases FunctionMapping.lookup? pair call.name with
  | none => rfl
  | some mapping =>
    simp only [Option.bind_some, Option.map_some]
    cases mapping.action with
    | rename target | approximate target _ =>
      have loses : (isNiladic target && !call.args.isEmpty) = losesArguments target call.args := rfl
      simp only [FunctionAction.target?, loses]
      cases losesArguments target call.args <;> rfl
    | unsupported _ | native => rfl

namespace Expr

/-- The node under its new name, if it is a call that has one. It is then bare if it has no
arguments and the name is written without parentheses; all else stays. -/
def renamed (pair : Pair) : Expr → Expr
  | .call name args distinct bare =>
    match Call.newName? pair ⟨name, args, distinct, bare⟩ with
    | some target => .call target args distinct (args.isEmpty && isNiladic target)
    | none => .call name args distinct bare
  | e => e

theorem adaptCalls_call (pair : Pair) (name : String) (args : List Expr) (distinct bare : Bool) :
    (call name args distinct bare).adaptCalls pair
      = match Call.newName? pair ⟨name, args, distinct, bare⟩ with
        | some target =>
          call target (args.map (adaptCalls pair)) distinct (args.isEmpty && isNiladic target)
        | none => call name (args.map (adaptCalls pair)) distinct bare := by
  rw [adaptCalls, listAdaptCalls_eq]
  simp only [Call.adapted_eq]
  cases Call.newName? pair ⟨name, args, distinct, bare⟩ <;> rfl

theorem adaptCalls_hollow (pair : Pair) (e : Expr) :
    (e.adaptCalls pair).hollow = (e.renamed pair).hollow := by
  cases e with
  | call name args distinct bare =>
    rw [adaptCalls_call, renamed]
    cases Call.newName? pair ⟨name, args, distinct, bare⟩ <;>
      (simp only [hollow, List.map_map]; rfl)
  | _ => rfl

theorem adaptCalls_children (pair : Pair) (e : Expr) :
    (e.adaptCalls pair).children
      = if e.isEntered then e.children.map (adaptCalls pair) else e.children := by
  cases e with
  | call name args distinct bare =>
    rw [adaptCalls_call]
    cases Call.newName? pair ⟨name, args, distinct, bare⟩ <;> rfl
  | _ => rfl

theorem adaptCalls_entered (pair : Pair) (e : Expr) :
    (e.adaptCalls pair).isEntered = e.isEntered := by
  cases e with
  | call name args distinct bare =>
    rw [adaptCalls_call]
    cases Call.newName? pair ⟨name, args, distinct, bare⟩ <;> rfl
  | _ => rfl

theorem adaptCalls_reaches (pair : Pair) (e : Expr) (position : List Nat) :
    (e.adaptCalls pair).reaches position = e.reaches position := by
  induction position generalizing e with
  | nil => rfl
  | cons i position ih =>
    rw [reaches, reaches, adaptCalls_entered, adaptCalls_children]
    cases e.isEntered with
    | false => rfl
    | true => cases found : e.children[i]? <;> simp [found, ih]

end Expr

/-- The second expression is the first one with new names, where the search for calls comes to and
nowhere else. -/
def OnlyRenamed (pair : Pair) (e changed : Expr) : Prop :=
  ∀ position, (changed.at? position).map Expr.hollow = (e.at? position).map fun node =>
    if e.reaches position then (node.renamed pair).hollow else node.hollow

theorem onlyRenamed_adaptCalls (pair : Pair) (e : Expr) : OnlyRenamed pair e (e.adaptCalls pair) := by
  intro position
  induction position generalizing e with
  | nil => exact congrArg some (e.adaptCalls_hollow pair)
  | cons i position ih =>
    rw [Expr.at?, Expr.at?, Expr.adaptCalls_children]
    cases entered : e.isEntered with
    | false => simp [Expr.reaches, entered]
    | true =>
      cases found : e.children[i]? with
      | none => simp [found]
      | some child => simpa [found, entered, Expr.reaches] using ih child

theorem onlyRenamed_iff {pair : Pair} {e changed : Expr} :
    OnlyRenamed pair e changed ↔ changed = e.adaptCalls pair := by
  refine ⟨fun only => Expr.eq_of_nodes _ _ fun position => ?_, ?_⟩
  · rw [only position, onlyRenamed_adaptCalls pair e position]
  · rintro rfl
    exact onlyRenamed_adaptCalls pair e

/-! Renaming once more. -/

theorem targets_settled :
    Dialect.all.all (fun source => Dialect.all.all fun target =>
      (FunctionMapping.table ⟨source, target⟩).all fun mapping =>
        mapping.action.target?.all fun name =>
          (FunctionMapping.lookup? ⟨source, target⟩ name).isNone) = true := by
  decide

theorem Call.newName_listed {pair : Pair} {call : Call} {target : String}
    (found : call.newName? pair = some target) :
    ∃ mapping ∈ FunctionMapping.table pair, mapping.source = Text.upper call.name
      ∧ mapping.action.target? = some target := by
  rw [Call.newName?] at found
  cases entry : FunctionMapping.lookup? pair call.name with
  | none => simp [entry] at found
  | some mapping =>
    refine ⟨mapping, List.mem_of_find?_eq_some entry, by simpa using List.find?_some entry, ?_⟩
    rw [entry, Option.map_some] at found
    cases action : mapping.action with
    | rename name | approximate name _ =>
      simp only [action] at found
      split at found
      · cases found
      · exact found
    | unsupported _ | native => simp [action] at found

theorem Call.newName_settled {pair : Pair} {call : Call} {target : String}
    (found : call.newName? pair = some target) (args : List Expr) (distinct bare : Bool) :
    Call.newName? pair ⟨target, args, distinct, bare⟩ = none := by
  have known : ∀ d, d ∈ Dialect.all := by
    intro d
    cases d <;> decide
  obtain ⟨mapping, listed, _, named⟩ := Call.newName_listed found
  have settled := List.all_eq_true.mp (List.all_eq_true.mp (List.all_eq_true.mp targets_settled
    pair.source (known _)) pair.target (known _)) mapping listed
  rw [named] at settled
  have missing : FunctionMapping.lookup? pair target = none := Option.isNone_iff_eq_none.mp settled
  rw [Call.newName?, missing]
  rfl

theorem Expr.renamed_renamed (pair : Pair) (e : Expr) :
    (e.renamed pair).renamed pair = e.renamed pair := by
  cases e with
  | call name args distinct bare =>
    cases found : Call.newName? pair ⟨name, args, distinct, bare⟩ with
    | none => simp only [renamed, found]
    | some target => simp only [renamed, found, Call.newName_settled found]
  | _ => rfl

theorem Expr.renamed_hollow (pair : Pair) (e : Expr) :
    (e.renamed pair).hollow = e.hollow.renamed pair := by
  cases e with
  | call name args distinct bare =>
    have same : Call.newName? pair ⟨name, args.map fun _ => .null, distinct, bare⟩
        = Call.newName? pair ⟨name, args, distinct, bare⟩ := by
      simp only [Call.newName?, List.isEmpty_map]
    rw [renamed, hollow, renamed, same]
    cases Call.newName? pair ⟨name, args, distinct, bare⟩ <;> simp only [hollow, List.isEmpty_map]
  | _ => rfl

theorem Expr.adaptCalls_adaptCalls (pair : Pair) (e : Expr) :
    (e.adaptCalls pair).adaptCalls pair = e.adaptCalls pair := by
  refine (onlyRenamed_iff.mp fun position => ?_).symm
  have once := onlyRenamed_adaptCalls pair e position
  rw [adaptCalls_reaches]
  cases reached : e.reaches position with
  | false => simp
  | true =>
    simp only [reached, if_true] at once ⊢
    calc ((e.adaptCalls pair).at? position).map hollow
        = (e.at? position).map fun node => ((node.renamed pair).hollow).renamed pair := by
          rw [once]
          exact congrArg (Option.map · _) (funext fun node => by
            rw [← renamed_hollow, renamed_renamed])
      _ = (((e.adaptCalls pair).at? position).map hollow).map (renamed pair) := by
          rw [once, Option.map_map]
          rfl
      _ = ((e.adaptCalls pair).at? position).map fun node => (node.renamed pair).hollow := by
          rw [Option.map_map]
          exact congrArg (Option.map · _) (funext fun node => (renamed_hollow pair node).symm)

/-- Renaming the calls of a query changes the names of the calls that the search comes to from the
select list and the filter, as the table says, and nothing else; and there is nothing to rename in
what it gives. -/
theorem adaptCalls_only_renames (pair : Pair) (select : Select) :
    { select.adaptCalls pair with items := select.items, filter := select.filter } = select
      ∧ List.Forall₂ (fun item changed : SelectItem =>
          changed.alias? = item.alias? ∧ OnlyRenamed pair item.expr changed.expr)
        select.items (select.adaptCalls pair).items
      ∧ Option.Rel (OnlyRenamed pair) select.filter (select.adaptCalls pair).filter
      ∧ (select.adaptCalls pair).adaptCalls pair = select.adaptCalls pair := by
  refine ⟨rfl, ?_, ?_, ?_⟩
  · simp only [Select.adaptCalls, List.forall₂_map_right_iff]
    exact List.forall₂_same.mpr fun item _ => ⟨rfl, onlyRenamed_adaptCalls pair item.expr⟩
  · rw [Select.adaptCalls]
    cases select.filter with
    | none => exact .none
    | some condition => exact .some (onlyRenamed_adaptCalls pair condition)
  · simp [Select.adaptCalls, Expr.adaptCalls_adaptCalls, Function.comp_def]

end SqlDialects
