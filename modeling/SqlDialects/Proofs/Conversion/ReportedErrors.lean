import SqlDialects.Proofs.Conversion.Options
import SqlDialects.Proofs.Conversion.TreePath

/-
The errors of a conversion. There is one for each call that has to be converted by hand and that the
search for calls comes to, in the order of the search; nothing else is an error. The search has the
same to say whether or not it renames the calls, but for the record of the names.
-/
namespace SqlDialects

/-! Calls that have to be converted by hand. -/

mutual

/-- The calls that are found in an expression, each before those in its arguments. Only calls and
binary operators are entered. -/
def Expr.foundCalls : Expr → List Call
  | .call name args distinct bare => ⟨name, args, distinct, bare⟩ :: Expr.listFoundCalls args
  | .binary left _ right => left.foundCalls ++ right.foundCalls
  | _ => []

def Expr.listFoundCalls : List Expr → List Call
  | [] => []
  | e :: rest => e.foundCalls ++ Expr.listFoundCalls rest

end

/-- The calls that are found in a statement: those of the select list, then those of the filter. -/
def Statement.foundCalls : Statement → List Call
  | .select query =>
    query.items.flatMap (fun item => item.expr.foundCalls)
      ++ query.filter.toList.flatMap Expr.foundCalls
  | .createTable _ | .other => []

/-- The target has no such function, or only one that is written without parentheses, while the call
has arguments. -/
def Call.isManual (pair : Pair) (call : Call) : Bool :=
  match (FunctionMapping.lookup? pair call.name).map FunctionMapping.action with
  | some (.unsupported _) => true
  | some (.rename target) | some (.approximate target _) => isNiladic target && !call.args.isEmpty
  | some .native | none => false

structure Call.ReportedBy (call : Call) (warning : Warning) : Prop where
  kind : warning.kind = .unsupportedFunction
  severity : warning.severity = .error
  function : (Text.upper call.name).toList <+: warning.message.toList
  suggestion : warning.suggestion.isSome = true

def isRenaming (label : String) : Bool := label.toList.contains '→'

/-! The notes on one call. -/

inductive CallNotes (pair : Pair) (call : Call) : List Note → List Note → Prop
  | nothing (free : call.isManual pair = false) : CallNotes pair call [] []
  | manual {warning : Warning} {label : String} (due : call.isManual pair = true)
      (reported : call.ReportedBy warning) (other : isRenaming label = false) :
      CallNotes pair call [.warn warning, .rule label] [.warn warning, .rule label]
  | renamed {entry : String} (free : call.isManual pair = false)
      (named : isRenaming entry = true) : CallNotes pair call [.rule entry] []
  | approximate {entry : String} {warning : Warning} (free : call.isManual pair = false)
      (named : isRenaming entry = true) (mild : warning.severity = .info) :
      CallNotes pair call [.rule entry, .warn warning] [.warn warning]
  | native {label : String} (free : call.isManual pair = false) (other : isRenaming label = false) :
      CallNotes pair call [.kept label] [.kept label]

theorem Note.warnings_append (options : Options) (first second : List Note) :
    Note.warnings options (first ++ second)
      = Note.warnings options first ++ Note.warnings options second :=
  List.filterMap_append

theorem Note.labels_append (options : Options) (first second : List Note) :
    Note.labels options (first ++ second)
      = Note.labels options first ++ Note.labels options second :=
  List.filterMap_append

def Note.error? : Note → Option Warning
  | .warn warning => if warning.severity = .error then some warning else none
  | .rule _ | .kept _ => none

theorem isRenaming_append (first second : String) :
    isRenaming (first ++ second) = (isRenaming first || isRenaming second) := by
  simp [isRenaming]

theorem isRenaming_name (d : Dialect) : isRenaming d.name = false := by
  cases d <;> decide

theorem sources_plain : allMappings.all (fun mapping => !isRenaming mapping.source) = true := by
  decide

theorem isRenaming_function {pair : Pair} {name : String} {mapping : FunctionMapping}
    (found : FunctionMapping.lookup? pair name = some mapping) :
    isRenaming (Text.upper name) = false := by
  have plain := List.all_eq_true.mp sources_plain mapping
    (table_listed (List.mem_of_find?_eq_some found))
  have named : mapping.source = Text.upper name := by simpa using List.find?_some found
  simpa [named] using plain

theorem callNotes_cases (pair : Pair) (call : Call) :
    CallNotes pair call (callNotes pair true call.name call.args)
      (callNotes pair false call.name call.args) := by
  cases found : FunctionMapping.lookup? pair call.name with
  | none =>
    simp only [callNotes, found, Option.map_none]
    exact .nothing (by simp [Call.isManual, found])
  | some mapping =>
    have plain := isRenaming_function found
    -- The warning and the entry for a call that is left to the reader.
    have left (due : call.isManual pair = true) (message suggestion : String)
        (named : (Text.upper call.name).toList <+: message.toList) :
        CallNotes pair call (manualNotes pair (Text.upper call.name) message suggestion)
          (manualNotes pair (Text.upper call.name) message suggestion) := by
      refine .manual due ⟨rfl, rfl, named, rfl⟩ ?_
      simp only [isRenaming_append, plain, isRenaming_name]
      decide
    cases action : mapping.action with
    | rename target =>
      have manual : call.isManual pair = losesArguments target call.args := by
        simp [Call.isManual, found, action, losesArguments]
      simp only [callNotes, found, Option.map_some, action]
      cases lost : losesArguments target call.args with
      | true => exact left (manual.trans lost) _ _ (by simp)
      | false =>
        refine .renamed (manual.trans lost) ?_
        simp [isRenaming]
    | approximate target note =>
      have manual : call.isManual pair = losesArguments target call.args := by
        simp [Call.isManual, found, action, losesArguments]
      simp only [callNotes, found, Option.map_some, action]
      cases lost : losesArguments target call.args with
      | true => exact left (manual.trans lost) _ _ (by simp)
      | false =>
        refine .approximate (manual.trans lost) ?_ rfl
        simp [isRenaming]
    | unsupported suggestion =>
      simp only [callNotes, found, Option.map_some, action]
      exact left (by simp [Call.isManual, found, action]) _ _ (by simp)
    | native =>
      simp only [callNotes, found, Option.map_some, action]
      refine .native (by simp [Call.isManual, found, action]) ?_
      simp only [isRenaming_append, plain, isRenaming_name]
      decide

section

variable {pair : Pair} {call : Call} {renamed kept : List Note} (options : Options)
  (notes : CallNotes pair call renamed kept)
include notes

theorem CallNotes.warnings : Note.warnings options renamed = Note.warnings options kept := by
  cases notes <;> rfl

theorem CallNotes.labels :
    Note.labels options kept = (Note.labels options renamed).filter (!isRenaming ·) := by
  cases notes with
  | nothing => rfl
  | manual _ _ other => simp [Note.labels, List.filterMap_cons, Note.label?, other]
  | renamed _ named => simp [Note.labels, Note.label?, named]
  | approximate _ named _ => simp [Note.labels, List.filterMap_cons, Note.label?, named]
  | native _ other =>
    cases recorded : options.recordUnchanged <;>
      simp [Note.labels, Note.label?, recorded, other]

theorem CallNotes.errors {found : List Note} (either : found = renamed ∨ found = kept) :
    List.Forall₂ Call.ReportedBy ([call].filter (Call.isManual pair))
      (found.filterMap Note.error?) := by
  cases notes with
  | nothing free => rcases either with rfl | rfl <;> simp [free]
  | manual due reported _ =>
    rcases either with rfl | rfl <;>
      simp [due, List.filterMap_cons, Note.error?, reported, reported.severity]
  | renamed free _ => rcases either with rfl | rfl <;> simp [free, Note.error?]
  | approximate free _ mild =>
    rcases either with rfl | rfl <;> simp [free, List.filterMap_cons, Note.error?, mild]
  | native free _ => rcases either with rfl | rfl <;> simp [free, Note.error?]

end

/-! The notes on all calls. -/

mutual

theorem Expr.visited_flatMap {g : Expr → List Note}
    (calls : ∀ e, (∀ name args distinct bare, e ≠ .call name args distinct bare) → g e = []) :
    (e : Expr) → e.visited.flatMap g = e.foundCalls.flatMap fun call => g call.toExpr
  | .call name args distinct bare => by
    rw [visited, foundCalls, List.flatMap_cons, List.flatMap_cons, Expr.listVisited_flatMap calls]
    rfl
  | .binary left op right => by
    rw [visited, foundCalls, List.flatMap_append, List.flatMap_append,
      left.visited_flatMap calls, right.visited_flatMap calls]
  | .column _ | .number _ | .string _ | .null | .star _ | .parameter _ | .group _ | .not _
  | .negate _ | .isNull _ _ | .inList _ _ _ => by
    simp [visited, foundCalls, calls]

theorem Expr.listVisited_flatMap {g : Expr → List Note}
    (calls : ∀ e, (∀ name args distinct bare, e ≠ .call name args distinct bare) → g e = []) :
    (es : List Expr) →
      (Expr.listVisited es).flatMap g = (Expr.listFoundCalls es).flatMap fun call => g call.toExpr
  | [] => rfl
  | e :: es => by
    rw [Expr.listVisited, Expr.listFoundCalls, List.flatMap_append, List.flatMap_append,
      e.visited_flatMap calls, Expr.listVisited_flatMap calls es]

end

theorem Select.visited_flatMap {g : Expr → List Note}
    (calls : ∀ e, (∀ name args distinct bare, e ≠ .call name args distinct bare) → g e = [])
    (select : Select) :
    select.visited.flatMap g
      = (Statement.select select).foundCalls.flatMap fun call => g call.toExpr := by
  rw [Select.visited, Statement.foundCalls, List.flatMap_append, List.flatMap_append,
    List.flatMap_assoc, List.flatMap_assoc]
  congr 1
  · exact congrArg (List.flatMap · _) (funext fun item => item.expr.visited_flatMap calls)
  · cases select.filter with
    | none => rfl
    | some condition =>
      rw [Option.toList_some, List.flatMap_singleton]
      exact condition.visited_flatMap calls

theorem Select.callNotes_eq (pair : Pair) (renames : Bool) (select : Select) :
    select.callNotes pair renames
      = (Statement.select select).foundCalls.flatMap fun call =>
        SqlDialects.callNotes pair renames call.name call.args := by
  refine select.visited_flatMap fun e other => ?_
  cases e with
  | call name args distinct bare => exact absurd rfl (other name args distinct bare)
  | _ => rfl

/-- Renaming the calls changes nothing in the warnings, and adds nothing but new names to the
record. -/
theorem Select.callNotes_modes (options : Options) (pair : Pair) (select : Select) :
    Note.warnings options (select.callNotes pair true)
        = Note.warnings options (select.callNotes pair false)
      ∧ Note.labels options (select.callNotes pair false)
        = (Note.labels options (select.callNotes pair true)).filter (!isRenaming ·) := by
  rw [callNotes_eq, callNotes_eq]
  induction (Statement.select select).foundCalls with
  | nil => exact ⟨rfl, rfl⟩
  | cons call calls ih =>
    have first := callNotes_cases pair call
    simp only [List.flatMap_cons, Note.warnings_append, Note.labels_append, List.filter_append]
    rw [ih.1, ih.2, first.warnings options, first.labels options]
    exact ⟨rfl, rfl⟩

/-! Errors. -/

theorem Note.warnings_errors (options : Options) (notes : List Note) :
    (Note.warnings options notes).filter (·.severity == .error) = notes.filterMap Note.error? := by
  rw [Note.warnings, List.filter_filterMap]
  refine List.filterMap_congr fun note _ => ?_
  cases note with
  | warn warning => cases grave : warning.severity <;> simp [Note.warning?, Note.error?, grave]
  | rule label => rfl
  | kept label => rfl

theorem callNotes_errors (pair : Pair) (renames : Bool) (calls : List Call) :
    List.Forall₂ Call.ReportedBy (calls.filter (Call.isManual pair))
      ((calls.flatMap fun call => callNotes pair renames call.name call.args).filterMap
        Note.error?) := by
  induction calls with
  | nil => exact .nil
  | cons call calls ih =>
    have either : callNotes pair renames call.name call.args = callNotes pair true call.name call.args
        ∨ callNotes pair renames call.name call.args = callNotes pair false call.name call.args := by
      cases renames <;> simp
    have first := (callNotes_cases pair call).errors either
    rw [List.flatMap_cons, List.filterMap_append, ← List.singleton_append, List.filter_append]
    exact List.rel_append first ih

/-! Notes that are no errors. -/

def Errorless (notes : List Note) : Prop := ∀ note ∈ notes, note.error? = none

@[simp] theorem errorless_nil : Errorless [] := nofun

@[simp] theorem errorless_cons {note : Note} {notes : List Note} :
    Errorless (note :: notes) ↔ note.error? = none ∧ Errorless notes := by
  simp [Errorless]

@[simp] theorem errorless_append {first second : List Note} :
    Errorless (first ++ second) ↔ Errorless first ∧ Errorless second := by
  simp [Errorless, or_imp, forall_and]

theorem Errorless.errors {notes : List Note} (errorless : Errorless notes) :
    notes.filterMap Note.error? = [] :=
  List.filterMap_eq_nil_iff.mpr errorless

theorem Page.adaptLoneOffset_errorless (target : Dialect) (page : Page) (offset : UInt64) :
    Errorless (page.adaptLoneOffset target offset).2 := by
  simp only [adaptLoneOffset, errorless_append]
  refine ⟨?_, ?_⟩
  · split
    · exact errorless_nil
    · split <;> simp [Note.error?]
  · split <;> simp [Note.error?, offsetWithoutLimit]

theorem Page.adaptCount_errorless (target : Dialect) (page : Page) :
    Errorless (page.adaptCount target).2 := by
  rw [adaptCount]
  split
  · split <;> simp [Note.error?]
  · split <;> simp [Note.error?]

theorem Page.adapted_errorless (pair : Pair) (page : Page) : Errorless (page.adapted pair).2 := by
  rw [adapted]
  split
  · simp [Note.error?]
  · split
    · split
      · simpa [Note.error?, noFetchClause] using adaptLoneOffset_errorless pair.target page _
      · simp [Note.error?, noFetchClause]
    · simp only [errorless_append]
      refine ⟨adaptCount_errorless pair.target page, ?_⟩
      split <;> simp [Note.error?]

namespace Select

theorem requoted_errorless (target : Dialect) (select : Select) :
    Errorless (select.requoted target).2 := by
  rw [requoted]
  split
  · exact errorless_nil
  · simp only
    split <;> simp [Note.error?]

theorem quoteNotes_errorless (pair : Pair) : Errorless (quoteNotes pair) := by
  rw [quoteNotes]
  split <;> simp [Note.error?]

theorem rownumNotes_errorless (pair : Pair) (select : Select) :
    Errorless (select.rownumNotes pair) := by
  rw [rownumNotes]
  split
  · exact errorless_nil
  · split <;> simp [Note.error?]

theorem partialNotes_errorless (pair : Pair) (select : Select) :
    Errorless (select.partialNotes pair) := by
  rw [partialNotes, dualNotes, pipesNotes]
  split <;> split <;> simp [Note.error?]

theorem offsetNotes_errorless (target : Dialect) (select : Select) :
    Errorless (select.offsetNotes target) := by
  rw [offsetNotes]
  split <;> simp [Note.error?, offsetWithoutLimit]

theorem sourceNotes_errorless (pair : Pair) (select : Select) :
    Errorless (select.sourceNotes pair) := by
  rw [sourceNotes]
  cases pair.source with
  | mysql =>
    simp only [orNotes]
    split <;> simp [Note.error?]
  | postgresql =>
    simp only [ilikeNotes]
    split
    · exact errorless_nil
    · split <;> simp [Note.error?]
  | tibero | oracle => exact errorless_nil

end Select

theorem Column.notes_errorless (pair : Pair) (column : Column) : Errorless (column.notes pair) := by
  have type : Errorless (column.typeNotes pair) := by
    simp only [typeNotes]
    split <;> simp [Note.error?]
  have scale : Errorless (column.scaleNotes pair) := by
    simp only [scaleNotes]
    split
    · split <;> simp [Note.error?, notReproduced]
    · exact errorless_nil
  have specs : Errorless column.specNotes := by
    simp only [specNotes]
    split <;> simp [Note.error?, notReproduced]
  simp [notes, type, scale, specs]

theorem TableDefinition.notes_errorless (pair : Pair) (table : TableDefinition) :
    Errorless (table.notes pair) := by
  have columns : Errorless (table.columns.flatMap (Column.notes pair)) := by
    intro note member
    obtain ⟨column, _, found⟩ := List.mem_flatMap.mp member
    exact column.notes_errorless pair note found
  have indexes : Errorless ((table.indexes.filter (!·.isPrimaryKey)).map table.indexNote) := by
    intro note member
    obtain ⟨index, _, rfl⟩ := List.mem_map.mp member
    rfl
  have options : Errorless table.optionNotes := by
    rw [optionNotes]
    split <;> simp [Note.error?, notReproduced]
  simp [notes, columns, indexes, options, Note.error?]

/-! Whole statements. -/

theorem Select.convert_errors (pair : Pair) (sql : String) (select : Select) :
    ∃ renames, (select.convert pair sql).2.filterMap Note.error?
      = (select.callNotes pair renames).filterMap Note.error? := by
  have tree : (select.convertTree pair).2.filterMap Note.error?
      = (select.callNotes pair true).filterMap Note.error? := by
    simp only [convertTree, adapted, List.filterMap_append,
      (select.page.adapted_errorless pair).errors, (requoted_errorless _ _).errors,
      (quoteNotes_errorless pair).errors, (rownumNotes_errorless pair _).errors,
      (partialNotes_errorless pair _).errors, List.nil_append, List.append_nil]
    rfl
  have text : (select.convertText pair sql).2.filterMap Note.error?
      = (select.callNotes pair false).filterMap Note.error? := by
    have entries : ∀ entries : List String, Errorless (entries.map Note.rule) := by
      intro entries note member
      obtain ⟨entry, _, rfl⟩ := List.mem_map.mp member
      rfl
    simp only [convertText, List.filterMap_append, (entries _).errors,
      (select.offsetNotes_errorless pair.target).errors, (select.partialNotes_errorless pair).errors,
      (select.sourceNotes_errorless pair).errors, List.nil_append, List.append_nil]
  rw [convert]
  cases pair.source with
  | tibero | oracle => exact ⟨true, tree⟩
  | mysql | postgresql => exact ⟨false, text⟩

theorem SourceStatement.notes_errors {pair : Pair} (different : pair.source ≠ pair.target)
    (source : SourceStatement) :
    List.Forall₂ Call.ReportedBy (source.statement.foundCalls.filter (Call.isManual pair))
      ((source.allNotes pair).filterMap Note.error?) := by
  have distinct : pair.isIdentity = false := by simpa [Pair.isIdentity] using different
  rw [allNotes, distinct]
  cases source.statement with
  | select query =>
    obtain ⟨renames, same⟩ := query.convert_errors pair source.sql
    simp only [Bool.false_eq_true, if_false, same, Select.callNotes_eq]
    exact callNotes_errors pair renames _
  | createTable table =>
    simp only [Bool.false_eq_true, if_false, (table.notes_errorless pair).errors]
    exact .nil
  | other => exact .nil

/-- The errors of a conversion are one for each call that has to be converted by hand, in the order
in which the calls are found, so there is an error exactly if there is such a call. The search for
calls gives the same warnings whether it renames calls or not, and its record is then the same but
for the new names. -/
theorem convert_errors_exact {pair : Pair} (different : pair.source ≠ pair.target)
    (options : Options) (source : SourceStatement) :
    List.Forall₂ Call.ReportedBy (source.statement.foundCalls.filter (Call.isManual pair))
        ((source.convert pair options).warnings.filter (·.severity == .error))
      ∧ ((source.convert pair options).hasErrors = true
        ↔ ∃ call ∈ source.statement.foundCalls, call.isManual pair = true)
      ∧ ∀ select : Select, Note.warnings options (select.callNotes pair true)
          = Note.warnings options (select.callNotes pair false)
        ∧ Note.labels options (select.callNotes pair false)
          = (Note.labels options (select.callNotes pair true)).filter (!isRenaming ·) := by
  have errors : (source.convert pair options).warnings.filter (·.severity == .error)
      = (source.allNotes pair).filterMap Note.error? := by
    rw [source.convert_eq]
    exact Note.warnings_errors options _
  have reported := source.notes_errors different
  rw [← errors] at reported
  refine ⟨reported, ?_, Select.callNotes_modes options pair⟩
  have counted : source.statement.foundCalls.filter (Call.isManual pair) = []
      ↔ (source.convert pair options).warnings.filter (·.severity == .error) = [] := by
    rw [← List.length_eq_zero_iff, reported.length_eq, List.length_eq_zero_iff]
  simpa [Outcome.hasErrors] using not_congr counted.symm

def manualArguments : Select where
  items := [⟨.call "NVL" [.call "decode" [.column "a"] false false,
    .call "SYSDATE" [.number "1"] false false] false false, none⟩]

theorem manualArguments_errors :
    ((SourceStatement.convert ⟨.tibero, .postgresql⟩ { includeInfo := false }
        ⟨manualArguments.toSql, .select manualArguments⟩).warnings.filter
          (·.severity == .error)).length = 2
      ∧ (SourceStatement.convert ⟨.tibero, .postgresql⟩ { includeInfo := false }
        ⟨manualArguments.toSql, .select manualArguments⟩).hasErrors = true := by
  obtain ⟨reported, errors, _⟩ := @convert_errors_exact ⟨.tibero, .postgresql⟩ (by decide)
    { includeInfo := false } ⟨manualArguments.toSql, .select manualArguments⟩
  refine ⟨reported.length_eq.symm.trans (by decide), errors.mpr ?_⟩
  exact ⟨⟨"decode", [.column "a"], false, false⟩,
    by simp [manualArguments, Statement.foundCalls, Expr.foundCalls, Expr.listFoundCalls], by decide⟩

end SqlDialects
