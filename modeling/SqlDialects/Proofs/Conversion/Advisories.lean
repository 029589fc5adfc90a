import SqlDialects.Proofs.Conversion.Paging
import SqlDialects.Proofs.Conversion.RenamedCalls
import SqlDialects.Proofs.Conversion.ReportedErrors

/-
Advice on single expressions of a query. A search goes down from the select list and the filter,
but only below some kinds of nodes; what it comes to is advised on, and nothing else is.
-/
namespace SqlDialects

open Text

/-! Searches. -/

namespace Expr

def descends (enters : Expr → Bool) (e : Expr) : List Nat → Bool
  | [] => true
  | i :: position => enters e && e.children[i]?.any fun child => child.descends enters position

theorem descends_entered (e : Expr) (position : List Nat) :
    e.descends isEntered position = e.reaches position := by
  induction position generalizing e with
  | nil => rfl
  | cons i position ih => simp only [descends, reaches, ih]

def Finds (enters : Expr → Bool) (p : Expr → Prop) (e : Expr) : Prop :=
  ∃ position node, e.descends enters position = true ∧ e.at? position = some node ∧ p node

section

variable {enters : Expr → Bool} {p : Expr → Prop}

theorem finds_iff {e : Expr} :
    e.Finds enters p ↔ p e ∨ enters e = true ∧ ∃ child ∈ e.children, child.Finds enters p := by
  constructor
  · rintro ⟨position, node, comes, found, holds⟩
    cases position with
    | nil =>
      cases found
      exact .inl holds
    | cons i position =>
      rw [descends, Bool.and_eq_true, Option.any_eq_true] at comes
      obtain ⟨entered, child, listed, comes⟩ := comes
      rw [at?, listed, Option.bind_some] at found
      exact .inr ⟨entered, child, List.mem_of_getElem? listed, position, node, comes, found, holds⟩
  · rintro (holds | ⟨entered, child, member, position, node, comes, found, holds⟩)
    · exact ⟨[], e, rfl, rfl, holds⟩
    · obtain ⟨i, listed⟩ := List.getElem?_of_mem member
      exact ⟨i :: position, node, by simp [descends, entered, listed, comes],
        by simp [at?, listed, found], holds⟩

/-- What is decided node by node, as a search goes on, is decided by what the search comes to. -/
theorem finds_of_step (uses : Expr → Prop)
    (step : ∀ e, uses e ↔ p e ∨ enters e = true ∧ ∃ child ∈ e.children, uses child) (e : Expr) :
    uses e ↔ e.Finds enters p := by
  rw [step, finds_iff]
  refine or_congr_right (and_congr_right fun _ => exists_congr fun child =>
    and_congr_right fun member => ?_)
  have smaller := children_smaller member
  exact finds_of_step uses step child
termination_by e

theorem finds_changed {change : Expr → Expr} (same : ∀ e, enters (change e) = enters e)
    (below : ∀ e, enters e = true → (change e).children = e.children.map change)
    (kept : ∀ e, p (change e) ↔ p e) (e : Expr) :
    (change e).Finds enters p ↔ e.Finds enters p := by
  refine finds_of_step (fun e => (change e).Finds enters p) (fun e => ?_) e
  rw [finds_iff, kept, same]
  refine or_congr_right (and_congr_right fun entered => ?_)
  simp [below e entered]

end

def isSearched : Expr → Bool
  | .isNull .. | .inList .. => false
  | _ => true

def IsBinary (op : BinaryOp) (e : Expr) : Prop := ∃ left right, e = .binary left op right

def IsRownum (e : Expr) : Prop := ∃ name, e = .column name ∧ sameIgnoringCase name "ROWNUM" = true

theorem anyUsesOperator_eq (op : BinaryOp) (es : List Expr) :
    anyUsesOperator op es = es.any (usesOperator op) := by
  induction es with
  | nil => rfl
  | cons e es ih => rw [anyUsesOperator, ih, List.any_cons]

theorem listVisited_eq (es : List Expr) : listVisited es = es.flatMap visited := by
  induction es with
  | nil => rfl
  | cons e es ih => rw [listVisited, ih, List.flatMap_cons]

theorem usesOperator_iff (op : BinaryOp) (e : Expr) :
    e.usesOperator op = true ↔ e.Finds isSearched (IsBinary op) := by
  refine finds_of_step (fun e => e.usesOperator op = true) (fun e => ?_) e
  cases e with
  | binary left used right =>
    simp [usesOperator, IsBinary, isSearched, children, or_assoc]
  | call name args distinct bare =>
    simp [usesOperator, anyUsesOperator_eq, IsBinary, isSearched, children]
  | _ => simp [usesOperator, IsBinary, isSearched, children]

theorem visited_rownum (e : Expr) :
    (∃ node ∈ e.visited, node.IsRownum) ↔ e.Finds isEntered IsRownum := by
  refine finds_of_step (fun e => ∃ node ∈ e.visited, node.IsRownum) (fun e => ?_) e
  cases e with
  | binary left op right =>
    simp [visited, IsRownum, isEntered, children, or_and_right, exists_or]
  | call name args distinct bare =>
    simp only [visited, listVisited_eq, IsRownum, isEntered, children]
    simp only [List.mem_cons, List.mem_flatMap, true_and]
    constructor
    · rintro ⟨node, rfl | ⟨child, member, found⟩, named⟩
      · exact .inl named
      · exact .inr ⟨child, member, node, found, named⟩
    · rintro (⟨name, same, _⟩ | ⟨child, member, node, found, named⟩)
      · cases same
      · exact ⟨node, .inr ⟨child, member, found⟩, named⟩
  | _ => simp [visited, IsRownum, isEntered, children]

/-! What is searched has its names and its calls changed first. -/

theorem mapNames_children (f : String → String) (e : Expr) :
    (e.mapNames f).children = e.children.map (mapNames f) := by
  cases e <;> simp [mapNames, children, listMapNames_eq]

theorem usesOperator_mapNames (op : BinaryOp) (f : String → String) (e : Expr) :
    (e.mapNames f).usesOperator op = e.usesOperator op := by
  rw [Bool.eq_iff_iff, usesOperator_iff, usesOperator_iff]
  refine finds_changed (fun e => ?_) (fun e _ => e.mapNames_children f) (fun e => ?_) e
  · cases e <;> rfl
  · cases e <;> simp [mapNames, IsBinary]

theorem usesOperator_adaptCalls (op : BinaryOp) (pair : Pair) (e : Expr) :
    (e.adaptCalls pair).usesOperator op = e.usesOperator op := by
  cases e with
  | call name args distinct bare =>
    have each : (args.map (adaptCalls pair)).any (usesOperator op) = args.any (usesOperator op) := by
      rw [List.any_map, Bool.eq_iff_iff, List.any_eq_true, List.any_eq_true]
      refine exists_congr fun a => and_congr_right fun member => ?_
      have smaller := List.sizeOf_lt_of_mem member
      rw [Function.comp, usesOperator_adaptCalls op pair a]
    rw [adaptCalls_call]
    cases Call.newName? pair ⟨name, args, distinct, bare⟩ <;>
      simp only [usesOperator, anyUsesOperator_eq, each]
  | binary left used right =>
    rw [adaptCalls, usesOperator, usesOperator, usesOperator_adaptCalls op pair left,
      usesOperator_adaptCalls op pair right]
  | _ => rfl

end Expr

theorem requotedName_rownum (name : String) :
    sameIgnoringCase (requotedName '\x60' name) "ROWNUM" = sameIgnoringCase name "ROWNUM" := by
  have letters : ∀ {text : List Char}, sameIgnoringCase (String.ofList text) "ROWNUM" = true →
      ∀ c ∈ text, c ≠ '\x27' ∧ c ≠ '"' ∧ c ≠ '\x60' := by
    intro text same c member
    have upper : text.map Char.toUpper = "ROWNUM".toList := by
      have equal := congrArg String.toList (beq_iff_eq.mp same)
      simpa [Text.upper] using equal
    have listed : c.toUpper ∈ "ROWNUM".toList := upper ▸ List.mem_map_of_mem member
    refine ⟨?_, ?_, ?_⟩ <;> (rintro rfl; revert listed; decide)
  rw [Bool.eq_iff_iff]
  constructor
  · intro same
    have kept := requoteFrom_unquoted name.toList (letters same)
    rwa [requotedName, requote, kept, String.ofList_toList] at same
  · intro same
    have plain := @letters name.toList (by rwa [String.ofList_toList])
    have kept := @requoteFrom_plain '"' '\x60' name.toList
      (fun c member => ⟨(plain c member).1, (plain c member).2.1⟩) []
    rw [List.append_nil] at kept
    rwa [requotedName, requote, kept, requoteFrom_nil, List.append_nil, String.ofList_toList]

/-! Queries. -/

namespace Select

/-- The expressions that advice is sought on: the select list and the filter. -/
def searched (select : Select) : List Expr :=
  select.items.map SelectItem.expr ++ select.filter.toList

theorem usesOperator_eq (op : BinaryOp) (select : Select) :
    select.usesOperator op = select.searched.any (Expr.usesOperator op) := by
  rw [usesOperator, searched, List.any_append, List.any_map]
  cases select.filter <;> simp [Function.comp_def]

theorem usesOperator_iff (op : BinaryOp) (select : Select) :
    select.usesOperator op = true
      ↔ ∃ e ∈ select.searched, e.Finds Expr.isSearched (Expr.IsBinary op) := by
  simp only [usesOperator_eq, List.any_eq_true, Expr.usesOperator_iff]

theorem mentionsRownum_iff (select : Select) :
    select.mentionsRownum = true
      ↔ ∃ e ∈ select.searched, e.Finds Expr.isEntered Expr.IsRownum := by
  have visited : select.visited = select.searched.flatMap Expr.visited := by
    rw [Select.visited, searched, List.flatMap_append, List.flatMap_map]
    cases select.filter <;> simp
  have named : select.mentionsRownum = true ↔ ∃ node ∈ select.visited, node.IsRownum := by
    rw [mentionsRownum, List.any_eq_true]
    refine exists_congr fun node => and_congr_right fun _ => ?_
    cases node <;> simp [Expr.IsRownum]
  simp only [named, visited, List.mem_flatMap, ← Expr.visited_rownum]
  constructor
  · rintro ⟨node, ⟨e, listed, found⟩, rownum⟩
    exact ⟨e, listed, node, found, rownum⟩
  · rintro ⟨e, listed, node, found, rownum⟩
    exact ⟨node, ⟨e, listed, found⟩, rownum⟩

theorem requoted_searched (pair : Pair) (select : Select) :
    ∃ f : String → String,
      (∀ name, sameIgnoringCase (f name) "ROWNUM" = sameIgnoringCase name "ROWNUM")
        ∧ (select.adapted pair).1.searched
          = select.searched.map fun e => (e.adaptCalls pair).mapNames f := by
  have mapped : ∀ f, ((select.adaptCalls pair).mapNames f).searched
      = select.searched.map fun e => (e.adaptCalls pair).mapNames f := by
    intro f
    simp only [searched, mapNames, adaptCalls, List.map_append, List.map_map]
    cases select.filter <;> simp [Function.comp_def]
  rw [adapted_tree_page]
  cases target : pair.target with
  | mysql => exact ⟨requotedName '\x60', requotedName_rownum, mapped _⟩
  | _ =>
    refine ⟨id, fun _ => rfl, ?_⟩
    rw [← mapped id, mapNames_id]
    rfl

theorem adapted_usesOperator (op : BinaryOp) (pair : Pair) (select : Select) :
    (select.adapted pair).1.usesOperator op = select.usesOperator op := by
  obtain ⟨f, _, same⟩ := select.requoted_searched pair
  rw [usesOperator_eq, usesOperator_eq, same, List.any_map]
  refine congrArg (List.any select.searched) (funext fun e => ?_)
  rw [Function.comp, Expr.usesOperator_mapNames, Expr.usesOperator_adaptCalls]

theorem adapted_mentionsRownum (pair : Pair) (select : Select) :
    (select.adapted pair).1.mentionsRownum = select.mentionsRownum := by
  obtain ⟨f, kept, same⟩ := select.requoted_searched pair
  have renamed : ∀ e : Expr, (e.adaptCalls pair).Finds Expr.isEntered Expr.IsRownum
      ↔ e.Finds Expr.isEntered Expr.IsRownum := by
    refine Expr.finds_changed (Expr.adaptCalls_entered pair) (fun e entered => ?_) fun e => ?_
    · rw [Expr.adaptCalls_children, if_pos entered]
    · cases e with
      | call name args distinct bare =>
        rw [Expr.adaptCalls_call]
        cases Call.newName? pair ⟨name, args, distinct, bare⟩ <;> simp [Expr.IsRownum]
      | _ => simp [Expr.adaptCalls, Expr.IsRownum]
  have named : ∀ e : Expr, (e.mapNames f).Finds Expr.isEntered Expr.IsRownum
      ↔ e.Finds Expr.isEntered Expr.IsRownum := by
    refine Expr.finds_changed (fun e => ?_) (fun e _ => e.mapNames_children f) fun e => ?_
    · cases e <;> rfl
    · cases e <;> simp [Expr.mapNames, Expr.IsRownum, kept]
  rw [Bool.eq_iff_iff, mentionsRownum_iff, mentionsRownum_iff, same]
  simp only [List.mem_map, exists_exists_and_eq_and, named, renamed]

end Select

/-! Warnings on other things. -/

def isOperatorAdvice (message : String) : Bool :=
  ["||", "ILIKE"].any fun op => op.toList.isPrefixOf message.toList

def opensNoAdvice (head : String) : Bool :=
  ["||", "ILIKE"].all fun op =>
    !op.toList.isPrefixOf head.toList && !head.toList.isPrefixOf op.toList

theorem unadvised {head message : String} (other : opensNoAdvice head = true)
    (begins : head.toList <+: message.toList) : isOperatorAdvice message = false := by
  rw [isOperatorAdvice, List.any_eq_false]
  intro op known advised
  have apart := List.all_eq_true.mp other op known
  simp only [Bool.and_eq_true, Bool.not_eq_true', ← Bool.not_eq_true,
    List.isPrefixOf_iff_prefix] at apart advised
  rcases List.prefix_or_prefix_of_prefix advised begins with short | long
  · exact apart.1 short
  · exact apart.2 long

def Warning.isAdvice (warning : Warning) : Bool :=
  warning.kind == .unsupportedConstruct || isOperatorAdvice warning.message

theorem isAdvice_eq_false {warning : Warning} (kind : warning.kind ≠ .unsupportedConstruct)
    (other : isOperatorAdvice warning.message = false) : warning.isAdvice = false := by
  rw [Warning.isAdvice, other, Bool.or_false, beq_eq_false_iff_ne]
  exact kind

def Common (notes : List Note) : Prop :=
  ∀ warning, .warn warning ∈ notes → warning.isAdvice = false

@[simp] theorem common_nil : Common [] := nofun

@[simp] theorem common_warn {warning : Warning} {notes : List Note} :
    Common (.warn warning :: notes) ↔ warning.isAdvice = false ∧ Common notes := by
  simp [Common]

@[simp] theorem common_rule {label : String} {notes : List Note} :
    Common (.rule label :: notes) ↔ Common notes := by
  simp [Common]

@[simp] theorem common_kept {label : String} {notes : List Note} :
    Common (.kept label :: notes) ↔ Common notes := by
  simp [Common]

@[simp] theorem common_append {first second : List Note} :
    Common (first ++ second) ↔ Common first ∧ Common second := by
  simp [Common, or_imp, forall_and]

theorem Common.apart {notes : List Note} (common : Common notes) {warning : Warning}
    (advice : warning.isAdvice = true) : .warn warning ∉ notes := by
  intro member
  rw [common warning member] at advice
  cases advice

theorem common_rules (entries : List String) : Common (entries.map Note.rule) := by
  intro warning member
  obtain ⟨entry, _, same⟩ := List.mem_map.mp member
  cases same

theorem Page.adapted_common (pair : Pair) (page : Page) : Common (page.adapted pair).2 := by
  have lone : ∀ offset, Common (page.adaptLoneOffset pair.target offset).2 := by
    intro offset
    simp only [adaptLoneOffset, common_append]
    refine ⟨?_, ?_⟩
    · split
      · exact common_nil
      · split <;> simp
    · split
      · exact common_warn.mpr ⟨by decide, common_nil⟩
      · exact common_nil
  have missing : (noFetchClause pair.target).isAdvice = false :=
    isAdvice_eq_false (fun same => by cases same) (@unadvised "no FETCH" _ (by decide) (by simp [noFetchClause]))
  rw [adapted]
  split
  · simp
  · split
    · split
      · exact common_warn.mpr ⟨missing, lone _⟩
      · exact common_warn.mpr ⟨missing, common_nil⟩
    · simp only [adaptCount, common_append]
      refine ⟨?_, ?_⟩
      · split <;> split <;> simp
      · split <;> simp

theorem sources_unadvised : allMappings.all (fun mapping => opensNoAdvice mapping.source) = true := by
  decide +kernel

theorem function_unadvised {pair : Pair} {name message : String} {mapping : FunctionMapping}
    (found : FunctionMapping.lookup? pair name = some mapping)
    (named : (upper name).toList <+: message.toList) : isOperatorAdvice message = false := by
  have other := List.all_eq_true.mp sources_unadvised mapping
    (table_listed (List.mem_of_find?_eq_some found))
  have source : mapping.source = upper name := by simpa using List.find?_some found
  exact unadvised (source ▸ other) named

theorem callNotes_common (pair : Pair) (renames : Bool) (name : String) (args : List Expr) :
    Common (callNotes pair renames name args) := by
  cases found : FunctionMapping.lookup? pair name with
  | none => simp [callNotes, found]
  | some mapping =>
    have manual : ∀ message suggestion, (upper name).toList <+: message.toList →
        Common (manualNotes pair (upper name) message suggestion) := by
      intro message suggestion named
      simp [manualNotes, isAdvice_eq_false, function_unadvised found named]
    simp only [callNotes, found, Option.map_some]
    cases mapping.action with
    | rename target =>
      simp only
      split
      · exact manual _ _ (by simp)
      · split <;> simp
    | approximate target note =>
      simp only
      split
      · exact manual _ _ (by simp)
      · rw [common_append, common_warn]
        refine ⟨?_, isAdvice_eq_false (fun same => by cases same) ?_, common_nil⟩
        · split <;> simp
        · exact function_unadvised found (by simp)
    | unsupported suggestion => exact manual _ _ (by simp)
    | native => simp

namespace Select

theorem callNotes_common (pair : Pair) (renames : Bool) (select : Select) :
    Common (select.callNotes pair renames) := by
  intro warning member
  rw [callNotes_eq] at member
  obtain ⟨call, _, found⟩ := List.mem_flatMap.mp member
  exact SqlDialects.callNotes_common pair renames call.name call.args warning found

theorem requoted_common (target : Dialect) (select : Select) :
    Common (select.requoted target).2 := by
  rw [requoted]
  split
  · exact common_nil
  · simp only
    split <;> simp

theorem quoteNotes_common (pair : Pair) : Common (quoteNotes pair) := by
  rw [quoteNotes]
  split
  · exact common_nil
  · refine common_warn.mpr ⟨isAdvice_eq_false (fun same => by cases same) ?_, common_nil⟩
    refine @unadvised pair.target.name _ ?_ (by simp)
    cases pair.target <;> decide

theorem dualNotes_common (pair : Pair) (select : Select) : Common (select.dualNotes pair) := by
  rw [dualNotes]
  split
  · exact common_warn.mpr ⟨by decide, common_nil⟩
  · exact common_nil

theorem offsetNotes_common (target : Dialect) (select : Select) :
    Common (select.offsetNotes target) := by
  rw [offsetNotes]
  split
  · exact common_warn.mpr ⟨by decide, common_nil⟩
  · exact common_nil

section

variable {pair : Pair} {select : Select} {warning : Warning} (advice : warning.isAdvice = true)
include advice

theorem tree_advised (source : pair.source = .tibero ∨ pair.source = .oracle) (sql : String) :
    .warn warning ∈ (select.convert pair sql).2
      ↔ .warn warning ∈ (select.adapted pair).1.rownumNotes pair
        ∨ .warn warning ∈ (select.adapted pair).1.pipesNotes pair := by
  have tree : select.convert pair sql = select.convertTree pair := by
    rcases source with source | source <;> (rw [convert, source])
  simp only [tree, convertTree, adapted, List.mem_append, partialNotes,
    (Page.adapted_common _ _).apart advice, (callNotes_common _ _ _).apart advice,
    (requoted_common _ _).apart advice, (quoteNotes_common _).apart advice,
    (dualNotes_common _ _).apart advice, false_or]

theorem text_advised (source : pair.source = .mysql ∨ pair.source = .postgresql) (sql : String) :
    .warn warning ∈ (select.convert pair sql).2 ↔ .warn warning ∈ select.sourceNotes pair := by
  have text : select.convert pair sql = select.convertText pair sql := by
    rcases source with source | source <;> (rw [convert, source])
  have pipes : select.pipesNotes pair = [] := by
    rcases source with source | source <;> simp [pipesNotes, source, Dialect.hasRownum]
  simp only [text, convertText, List.mem_append, partialNotes, pipes, List.not_mem_nil, or_false,
    (common_rules _).apart advice, (callNotes_common _ _ _).apart advice,
    (offsetNotes_common _ _).apart advice, (dualNotes_common _ _).apart advice, false_or]

end

end Select

/-! Shown advice. -/

theorem Note.mem_warnings {options : Options} {notes : List Note} {warning : Warning} :
    warning ∈ Note.warnings options notes
      ↔ .warn warning ∈ notes ∧ (warning.severity = .info → options.includeInfo = true) := by
  rw [Note.warnings, List.mem_filterMap]
  constructor
  · rintro ⟨note, listed, shown⟩
    cases note with
    | warn other =>
      rw [Note.warning?] at shown
      split at shown
      · cases shown
      · next kept =>
        cases shown
        refine ⟨listed, fun mild => ?_⟩
        simpa [mild] using kept
    | rule label => cases shown
    | kept label => cases shown
  · rintro ⟨listed, shown⟩
    refine ⟨_, listed, if_neg fun hidden => ?_⟩
    simp only [Bool.and_eq_true, decide_eq_true_eq, Bool.not_eq_true'] at hidden
    rw [shown hidden.1] at hidden
    cases hidden.2

theorem convertSql_warned {pair : Pair} (different : pair.source ≠ pair.target) (options : Options)
    {sql : String} {select : Select}
    (read : SourceStatement.ofSql sql = .ok ⟨sql, .select select⟩) :
    ∃ outcome, convertSql pair options sql = .ok outcome ∧ ∀ warning,
      warning ∈ outcome.warnings ↔ .warn warning ∈ (select.convert pair sql).2
        ∧ (warning.severity = .info → options.includeInfo = true) := by
  have distinct : pair.isIdentity = false := by simpa [Pair.isIdentity] using different
  refine ⟨_, congrArg (Except.map _) read, fun warning => ?_⟩
  rw [SourceStatement.convert_eq, SourceStatement.allNotes, distinct]
  exact Note.mem_warnings

/-! `ROWNUM`. -/

def rownumWarning (target : Dialect) : Warning where
  kind := .unsupportedConstruct
  severity := .warning
  message := "ROWNUM is not available in " ++ target.name
  suggestion := some <|
    if target = .mysql then "use LIMIT n, or ROW_NUMBER() OVER (ORDER BY ...) on MySQL 8"
    else "use LIMIT n, or ROW_NUMBER() OVER (ORDER BY ...)"

theorem rownumNotes_eq {pair : Pair} (numbered : pair.source.hasRownum = true)
    (missing : pair.target.hasRownum = false) (select : Select) :
    select.rownumNotes pair
      = if select.mentionsRownum then [.warn (rownumWarning pair.target)] else [] := by
  rw [Select.rownumNotes, numbered, missing]
  cases select.mentionsRownum <;> rfl

theorem mentionsRownum_reached (select : Select) :
    select.mentionsRownum = true ↔ ∃ e ∈ select.searched, ∃ position name,
      e.reaches position = true ∧ e.at? position = some (.column name)
        ∧ sameIgnoringCase name "ROWNUM" = true := by
  rw [Select.mentionsRownum_iff]
  refine exists_congr fun e => and_congr_right fun _ => exists_congr fun position => ?_
  rw [Expr.descends_entered]
  constructor
  · rintro ⟨node, comes, located, name, rfl, named⟩
    exact ⟨name, comes, located, named⟩
  · rintro ⟨name, comes, located, named⟩
    exact ⟨_, comes, located, name, rfl, named⟩

/-- A query of Tibero or Oracle is warned of in MySQL and PostgreSQL, whatever the options are,
exactly if `ROWNUM` stands in its select list or its filter with nothing but calls and binary
operators above it. -/
theorem rownum_flagged {pair : Pair} (source : pair.source = .tibero ∨ pair.source = .oracle)
    (target : pair.target = .mysql ∨ pair.target = .postgresql) (options : Options) {sql : String}
    {select : Select} (read : SourceStatement.ofSql sql = .ok ⟨sql, .select select⟩) :
    ∃ outcome, convertSql pair options sql = .ok outcome
      ∧ ((∃ warning ∈ outcome.warnings, warning.kind = .unsupportedConstruct
          ∧ warning.severity = .warning
          ∧ warning.message = "ROWNUM is not available in " ++ pair.target.name)
        ↔ ∃ e ∈ select.searched, ∃ position name, e.reaches position = true
          ∧ e.at? position = some (.column name) ∧ sameIgnoringCase name "ROWNUM" = true) := by
  have sides : pair.source ≠ pair.target ∧ pair.source.hasRownum = true
      ∧ pair.target.hasRownum = false := by
    rcases source with source | source <;> rcases target with target | target <;>
      (rw [source, target]; decide)
  obtain ⟨different, numbered, missing⟩ := sides
  obtain ⟨outcome, converted, shown⟩ := convertSql_warned different options read
  refine ⟨outcome, converted, ?_⟩
  rw [← mentionsRownum_reached]
  have notes := rownumNotes_eq numbered missing (select.adapted pair).1
  rw [Select.adapted_mentionsRownum] at notes
  constructor
  · rintro ⟨warning, member, kind, _, _⟩
    have advice : warning.isAdvice = true := by simp [Warning.isAdvice, kind]
    rcases (Select.tree_advised advice source sql).mp ((shown warning).mp member).1 with
      rownum | pipes
    · rw [notes] at rownum
      split at rownum
      · next mentioned => exact mentioned
      · cases rownum
    · rw [Select.pipesNotes] at pipes
      split at pipes
      · simp only [List.mem_singleton, Note.warn.injEq] at pipes
        rw [pipes] at kind
        cases kind
      · cases pipes
  · intro mentioned
    rw [mentioned, if_pos rfl] at notes
    refine ⟨rownumWarning pair.target, (shown _).mpr ⟨?_, fun same => by cases same⟩, rfl, rfl, rfl⟩
    refine (Select.tree_advised rfl source sql).mpr (.inl ?_)
    rw [notes]
    exact List.mem_singleton_self _

theorem nested_rownum_flagged :
    ∃ outcome, convertSql ⟨.oracle, .mysql⟩ { includeInfo := false }
        "SELECT NVL(a, 1 + rownum) FROM t" = .ok outcome
      ∧ ∃ warning ∈ outcome.warnings, warning.kind = .unsupportedConstruct
        ∧ warning.severity = .warning ∧ warning.message = "ROWNUM is not available in MYSQL" := by
  have mentioned : (queryOf? "SELECT NVL(a, 1 + rownum) FROM t").map Select.mentionsRownum
      = some true := by
    decide +kernel
  obtain ⟨select, read, found⟩ := read_of_queryOf? mentioned
  obtain ⟨outcome, converted, flagged⟩ := @rownum_flagged ⟨.oracle, .mysql⟩ (.inr rfl) (.inl rfl)
    { includeInfo := false } _ _ read
  exact ⟨outcome, converted, flagged.mpr ((mentionsRownum_reached select).mp found)⟩

/-- Parentheses hide `ROWNUM`. -/
theorem grouped_rownum_unflagged :
    (queryOf? "SELECT a FROM t WHERE (ROWNUM <= 10)").map Select.names = some ["a", "t", "ROWNUM"]
      ∧ ((convertSql ⟨.oracle, .mysql⟩ {} "SELECT a FROM t WHERE (ROWNUM <= 10)").toOption.map
          fun outcome => outcome.warnings.map (·.kind))
        = some [.syntaxDifference, .syntaxDifference] := by
  decide +kernel

/-! Operators. -/

structure OperatorAdvice where
  op : BinaryOp
  severity : Severity
  message : String

/-- The operator of the source that the target has not, or that means something else there. -/
def Pair.operatorAdvice? (pair : Pair) : Option OperatorAdvice :=
  match pair.source, pair.target with
  | .mysql, target =>
    some ⟨.concat, .warning, "|| means OR in MySQL but string concatenation in " ++ target.name⟩
  | .postgresql, .mysql =>
    some ⟨.ilike, .info,
      "ILIKE rewritten to LIKE; case-insensitivity depends on the column collation"⟩
  | .postgresql, target => some ⟨.ilike, .warning, "ILIKE is not available in " ++ target.name⟩
  | .tibero, .mysql | .oracle, .mysql =>
    some ⟨.concat, .info, "|| is logical OR in MySQL unless PIPES_AS_CONCAT is set"⟩
  | _, _ => none

/-- An operator stands in the select list or the filter, with no `IS NULL` and no `IN` above it. -/
def Select.HasOperator (op : BinaryOp) (select : Select) : Prop :=
  ∃ e ∈ select.searched, ∃ position left right,
    e.descends Expr.isSearched position = true ∧ e.at? position = some (.binary left op right)

theorem usesOperator_hasOperator (op : BinaryOp) (select : Select) :
    select.usesOperator op = true ↔ select.HasOperator op := by
  rw [Select.usesOperator_iff]
  refine exists_congr fun e => and_congr_right fun _ => exists_congr fun position => ?_
  constructor
  · rintro ⟨node, comes, located, left, right, rfl⟩
    exact ⟨left, right, comes, located⟩
  · rintro ⟨left, right, comes, located⟩
    exact ⟨_, comes, located, left, right, rfl⟩

theorem mem_noted {used : Bool} {warning other : Warning} :
    Note.warn other ∈ (if used then [Note.warn warning] else []) ↔ used = true ∧ other = warning := by
  cases used <;> simp

theorem mem_noted_unless {used : Bool} {warning other : Warning} :
    Note.warn other ∈ (if !used then [] else [Note.warn warning])
      ↔ used = true ∧ other = warning := by
  cases used <;> simp

theorem rownumNotes_unadvised (pair : Pair) (select : Select) {warning : Warning}
    (advised : isOperatorAdvice warning.message = true) :
    .warn warning ∉ select.rownumNotes pair := by
  intro member
  rw [Select.rownumNotes] at member
  split at member
  · cases member
  · split at member
    · simp at member
    · have other : isOperatorAdvice ("ROWNUM is not available in " ++ pair.target.name) = false :=
        @unadvised "ROWNUM is not available in " _ (by decide) (by simp)
      simp only [List.mem_singleton, Note.warn.injEq] at member
      rw [member, other] at advised
      cases advised

theorem operator_noted {pair : Pair} (different : pair.source ≠ pair.target) {advice : OperatorAdvice}
    (given : pair.operatorAdvice? = some advice) (sql : String) (select : Select) :
    ∃ warning : Warning, warning.severity = advice.severity ∧ warning.message = advice.message
      ∧ isOperatorAdvice advice.message = true
      ∧ ∀ other : Warning, isOperatorAdvice other.message = true →
        (.warn other ∈ (select.convert pair sql).2
          ↔ select.usesOperator advice.op = true ∧ other = warning) := by
  have special : ∀ {other : Warning}, isOperatorAdvice other.message = true →
      other.isAdvice = true := by
    intro other advised
    rw [Warning.isAdvice, advised, Bool.or_true]
  obtain ⟨source, target⟩ := pair
  have tree : source = .tibero ∨ source = .oracle → target = .mysql → ∀ {other : Warning},
      isOperatorAdvice other.message = true →
      (.warn other ∈ (select.convert ⟨source, target⟩ sql).2
        ↔ .warn other ∈ select.pipesNotes ⟨source, target⟩) := by
    intro family mysql other advised
    have pipes : (select.adapted ⟨source, target⟩).1.pipesNotes ⟨source, target⟩
        = select.pipesNotes ⟨source, target⟩ := by
      rw [Select.pipesNotes, Select.adapted_usesOperator, Select.pipesNotes]
    rw [Select.tree_advised (special advised) family, pipes]
    exact or_iff_right (rownumNotes_unadvised _ _ advised)
  -- The notes of each pair name the warning, so it need not be written out again here.
  cases source with
  | mysql =>
    cases given
    refine ⟨_, ?_, ?_, ?_, fun other advised =>
      (Select.text_advised (special advised) (.inl rfl) sql).trans mem_noted⟩
    · rfl
    · rfl
    · cases target <;> decide
  | postgresql =>
    have text : ∀ {other : Warning}, isOperatorAdvice other.message = true →
        (.warn other ∈ (select.convert ⟨.postgresql, target⟩ sql).2
          ↔ .warn other ∈ select.ilikeNotes target) :=
      fun advised => Select.text_advised (special advised) (.inr rfl) sql
    cases target with
    | postgresql => exact absurd rfl different
    | mysql | tibero | oracle =>
      cases given
      refine ⟨_, ?_, ?_, by decide, fun other advised => (text advised).trans mem_noted_unless⟩
      · rfl
      · rfl
  | tibero | oracle =>
    cases target with
    | mysql =>
      cases given
      refine ⟨_, ?_, ?_, by decide, fun other advised =>
        (tree (by decide) rfl advised).trans mem_noted⟩
      · rfl
      · rfl
    | _ => cases given

/-- The search for an operator finds exactly those that have no `IS NULL` and no `IN` above them, and
the use of the operator on which the pair has an advice is advised on exactly if it is found, with
options that show the advice. -/
theorem operator_advised {pair : Pair} (different : pair.source ≠ pair.target) (options : Options) :
    (∀ (select : Select) (op : BinaryOp), select.usesOperator op = true ↔ select.HasOperator op)
      ∧ ∀ sql select, SourceStatement.ofSql sql = .ok ⟨sql, .select select⟩ →
        ∃ outcome, convertSql pair options sql = .ok outcome
          ∧ ∀ advice, pair.operatorAdvice? = some advice →
            ((∃ warning ∈ outcome.warnings, warning.severity = advice.severity
                ∧ warning.message = advice.message)
              ↔ select.HasOperator advice.op
                ∧ (advice.severity = .info → options.includeInfo = true)) := by
  refine ⟨fun select op => usesOperator_hasOperator op select, fun sql select read => ?_⟩
  obtain ⟨outcome, converted, shown⟩ := convertSql_warned different options read
  refine ⟨outcome, converted, fun advice given => ?_⟩
  obtain ⟨warning, severity, message, advised, only⟩ := operator_noted different given sql select
  rw [← usesOperator_hasOperator]
  constructor
  · rintro ⟨other, member, grave, same⟩
    obtain ⟨noted, visible⟩ := (shown other).mp member
    exact ⟨((only other (same ▸ advised)).mp noted).1, grave ▸ visible⟩
  · rintro ⟨used, visible⟩
    have noted := (only warning (message ▸ advised)).mpr ⟨used, rfl⟩
    exact ⟨warning, (shown warning).mpr ⟨noted, severity ▸ visible⟩, severity, message⟩

theorem nested_pipes_advised :
    ∃ outcome, convertSql ⟨.mysql, .postgresql⟩ {} "SELECT f(-(a || b)) FROM t" = .ok outcome
      ∧ ∃ warning ∈ outcome.warnings, warning.severity = .warning
        ∧ warning.message = "|| means OR in MySQL but string concatenation in POSTGRESQL" := by
  have used : (queryOf? "SELECT f(-(a || b)) FROM t").map (Select.usesOperator .concat)
      = some true := by
    decide +kernel
  obtain ⟨select, read, found⟩ := read_of_queryOf? used
  obtain ⟨exact, advised⟩ := @operator_advised ⟨.mysql, .postgresql⟩ (by decide) {}
  obtain ⟨outcome, converted, shown⟩ := advised _ select read
  exact ⟨outcome, converted, (shown _ rfl).mpr ⟨(exact select .concat).mp found, nofun⟩⟩

/-- `IS NULL` hides an operator. -/
theorem pipes_unadvised :
    ((queryOf? "SELECT a FROM t WHERE a || b IS NULL").map fun select =>
        (select.usesOperator .concat,
          select.filter.any fun
            | .isNull (.binary (.column "a") .concat (.column "b")) false => true
            | _ => false)) = some (false, true)
      ∧ ((convertSql ⟨.mysql, .postgresql⟩ {} "SELECT a FROM t WHERE a || b IS NULL").toOption.map
          Outcome.warnings) = some [] := by
  decide +kernel

end SqlDialects
