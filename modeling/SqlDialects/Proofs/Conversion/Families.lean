import Mathlib
import SqlDialects.Proofs.Conversion.Options

/-
Tibero and Oracle as one family. They share their tables, quotes and row limits, so a conversion
cannot tell them apart as a source; as a target they differ by name only, and a name appears only in
the words of warnings and rules.
-/
namespace SqlDialects

/-! The family as a source. -/

theorem mapped_source (target : Dialect) (type : DataType) :
    type.mapped ⟨.tibero, target⟩ = type.mapped ⟨.oracle, target⟩ := by
  have shared : TypeMapping.table ⟨.tibero, target⟩ = TypeMapping.table ⟨.oracle, target⟩ := by
    cases target <;> rfl
  rw [DataType.mapped, DataType.mapped, shared]

def SameFunctions (first second : Pair) : Prop :=
  ∀ name, FunctionMapping.lookup? first name = FunctionMapping.lookup? second name

theorem Call.adapted_congr {first second : Pair} (same : SameFunctions first second) (call : Call) :
    call.adapted first = call.adapted second := by
  rw [Call.adapted, Call.adapted, same]

mutual

theorem Expr.adaptCalls_congr {first second : Pair} (same : SameFunctions first second) (e : Expr) :
    e.adaptCalls first = e.adaptCalls second := by
  cases e with
  | call name args distinct bare =>
    rw [Expr.adaptCalls, Expr.adaptCalls, Call.adapted_congr same,
      Expr.listAdaptCalls_congr same args]
  | binary left op right =>
    rw [Expr.adaptCalls, Expr.adaptCalls, Expr.adaptCalls_congr same left,
      Expr.adaptCalls_congr same right]
  | _ => rfl

theorem Expr.listAdaptCalls_congr {first second : Pair} (same : SameFunctions first second)
    (es : List Expr) : Expr.listAdaptCalls first es = Expr.listAdaptCalls second es := by
  cases es with
  | nil => rfl
  | cons e es =>
    rw [Expr.listAdaptCalls, Expr.listAdaptCalls, Expr.adaptCalls_congr same e,
      Expr.listAdaptCalls_congr same es]

end

theorem Select.adaptCalls_congr {first second : Pair} (same : SameFunctions first second)
    (select : Select) : select.adaptCalls first = select.adaptCalls second := by
  have exprs : Expr.adaptCalls first = Expr.adaptCalls second :=
    funext (Expr.adaptCalls_congr same)
  rw [Select.adaptCalls, Select.adaptCalls, exprs]

theorem callNotes_congr {first second : Pair} (same : SameFunctions first second)
    (target : first.target = second.target) (renames : Bool) (name : String) (args : List Expr) :
    callNotes first renames name args = callNotes second renames name args := by
  simp only [callNotes, manualNotes, same name, target]

theorem Select.callNotes_congr {first second : Pair} (same : SameFunctions first second)
    (target : first.target = second.target) (renames : Bool) (select : Select) :
    select.callNotes first renames = select.callNotes second renames := by
  have each : SqlDialects.callNotes first renames = SqlDialects.callNotes second renames :=
    funext fun name => funext (SqlDialects.callNotes_congr same target renames name)
  rw [Select.callNotes, Select.callNotes, each]

theorem functions_source (target : Dialect) : SameFunctions ⟨.tibero, target⟩ ⟨.oracle, target⟩ := by
  have shared : FunctionMapping.table ⟨.tibero, target⟩ = FunctionMapping.table ⟨.oracle, target⟩ := by
    cases target <;> rfl
  intro name
  rw [FunctionMapping.lookup?, FunctionMapping.lookup?, shared]

theorem Select.adapted_source (target : Dialect) (select : Select) :
    select.adapted ⟨.tibero, target⟩ = select.adapted ⟨.oracle, target⟩ := by
  have same := functions_source target
  have calls : Select.adaptCalls ⟨.tibero, target⟩ = Select.adaptCalls ⟨.oracle, target⟩ :=
    funext (Select.adaptCalls_congr same)
  have notes : Select.callNotes ⟨.tibero, target⟩ true = Select.callNotes ⟨.oracle, target⟩ true :=
    funext (Select.callNotes_congr same rfl true)
  simp only [Select.adapted, calls, notes]
  rfl

theorem TableDefinition.convert_source (target : Dialect) (indent : Nat) (table : TableDefinition) :
    table.toSql ⟨.tibero, target⟩ indent = table.toSql ⟨.oracle, target⟩ indent
      ∧ table.notes ⟨.tibero, target⟩ = table.notes ⟨.oracle, target⟩ := by
  have lines : Column.line ⟨.tibero, target⟩ = Column.line ⟨.oracle, target⟩ := by
    funext column
    rw [Column.line, Column.line, mapped_source]
  have notes : Column.notes ⟨.tibero, target⟩ = Column.notes ⟨.oracle, target⟩ := by
    funext column
    simp only [Column.notes, Column.typeNotes, Column.scaleNotes, mapped_source]
  constructor
  · rw [toSql_eq, toSql_eq, TableDefinition.lines, TableDefinition.lines, lines]
  · rw [TableDefinition.notes, TableDefinition.notes, notes]

theorem convert_source {target : Dialect} (outside : target ≠ .tibero ∧ target ≠ .oracle)
    (options : Options) (statement : SourceStatement) :
    statement.convert ⟨.tibero, target⟩ options = statement.convert ⟨.oracle, target⟩ options := by
  have first : Pair.isIdentity ⟨.tibero, target⟩ = false := by
    simpa [Pair.isIdentity] using outside.1.symm
  have second : Pair.isIdentity ⟨.oracle, target⟩ = false := by
    simpa [Pair.isIdentity] using outside.2.symm
  have both : statement.convertedText ⟨.tibero, target⟩ options.ddlIndent
        = statement.convertedText ⟨.oracle, target⟩ options.ddlIndent
      ∧ statement.allNotes ⟨.tibero, target⟩ = statement.allNotes ⟨.oracle, target⟩ := by
    rw [SourceStatement.convertedText, SourceStatement.convertedText, SourceStatement.allNotes,
      SourceStatement.allNotes, first, second]
    cases statement.statement with
    | select select =>
      have trees : select.convertTree ⟨.tibero, target⟩ = select.convertTree ⟨.oracle, target⟩ := by
        rw [Select.convertTree, Select.convertTree, Select.adapted_source]
      exact ⟨congrArg Prod.fst trees, congrArg Prod.snd trees⟩
    | createTable table => exact table.convert_source target options.ddlIndent
    | other => exact ⟨rfl, rfl⟩
  rw [statement.convert_eq, statement.convert_eq, both.1, both.2]

/-! Notes without their words. -/

def Warning.advice (warning : Warning) : WarningKind × Severity × Option String :=
  (warning.kind, warning.severity, warning.suggestion)

def Note.unworded : Note → Note
  | .rule _ => .rule ""
  | .kept _ => .kept ""
  | .warn warning => .warn { warning with message := "" }

namespace Note

theorem labels_unworded (options : Options) (notes : List Note) :
    (labels options (notes.map unworded)).length = (labels options notes).length := by
  induction notes with
  | nil => rfl
  | cons note notes ih =>
    cases note with
    | rule label => exact congrArg Nat.succ ih
    | kept label => cases listed : options.recordUnchanged <;> simp_all [labels, unworded, label?]
    | warn warning => exact ih

theorem warnings_unworded (options : Options) (notes : List Note) :
    (warnings options (notes.map unworded)).map Warning.advice
      = (warnings options notes).map Warning.advice := by
  rw [warnings, warnings, List.filterMap_map, List.map_filterMap, List.map_filterMap]
  refine List.filterMap_congr fun note _ => ?_
  cases note with
  | warn warning =>
    simp only [Function.comp, unworded, warning?]
    split <;> rfl
  | _ => rfl

/-- Notes that differ by their words give as many labels, and warnings with the same advice. -/
theorem alike_of_unworded (options : Options) {first second : List Note}
    (same : first.map unworded = second.map unworded) :
    (labels options first).length = (labels options second).length
      ∧ (warnings options first).map Warning.advice
        = (warnings options second).map Warning.advice := by
  constructor
  · rw [← labels_unworded, same, labels_unworded]
  · rw [← warnings_unworded, same, warnings_unworded]

end Note

/-! The family as a target. -/

theorem functions_target (source : Dialect) : SameFunctions ⟨source, .tibero⟩ ⟨source, .oracle⟩ := by
  have shared : FunctionMapping.table ⟨source, .tibero⟩ = FunctionMapping.table ⟨source, .oracle⟩ := by
    cases source <;> rfl
  intro name
  rw [FunctionMapping.lookup?, FunctionMapping.lookup?, shared]

theorem mapped_target (source : Dialect) (type : DataType) :
    type.mapped ⟨source, .tibero⟩ = type.mapped ⟨source, .oracle⟩ := by
  have shared : TypeMapping.table ⟨source, .tibero⟩ = TypeMapping.table ⟨source, .oracle⟩ := by
    cases source <;> rfl
  rw [DataType.mapped, DataType.mapped, shared]

theorem pipeline_target {source : Dialect} (outside : source = .mysql ∨ source = .postgresql) :
    TextRule.pipeline ⟨source, .tibero⟩ = TextRule.pipeline ⟨source, .oracle⟩ := by
  rcases outside with rfl | rfl <;> rfl

theorem manualNotes_unworded (pair : Pair) (function message suggestion : String) :
    (manualNotes pair function message suggestion).map Note.unworded
      = [.warn ⟨.unsupportedFunction, .error, "", some suggestion⟩, .rule ""] := rfl

theorem callNotes_unworded (source : Dialect) (renames : Bool) (name : String) (args : List Expr) :
    (callNotes ⟨source, .tibero⟩ renames name args).map Note.unworded
      = (callNotes ⟨source, .oracle⟩ renames name args).map Note.unworded := by
  simp only [callNotes, functions_target source name]
  cases (FunctionMapping.lookup? ⟨source, .oracle⟩ name).map FunctionMapping.action with
  | none => rfl
  | some action =>
    cases action with
    | rename target | approximate target note =>
      dsimp only
      split
      · rw [manualNotes_unworded, manualNotes_unworded]
      · rfl
    | unsupported suggestion => exact manualNotes_unworded _ _ _ suggestion
    | native => rfl

theorem Select.callNotes_unworded (source : Dialect) (renames : Bool) (select : Select) :
    (select.callNotes ⟨source, .tibero⟩ renames).map Note.unworded
      = (select.callNotes ⟨source, .oracle⟩ renames).map Note.unworded := by
  rw [Select.callNotes, Select.callNotes, List.map_flatMap, List.map_flatMap]
  refine List.flatMap_congr fun e _ => ?_
  cases e with
  | call name args _ _ => exact SqlDialects.callNotes_unworded source renames name args
  | _ => rfl

theorem Select.sourceNotes_unworded (source : Dialect) (select : Select) :
    (select.sourceNotes ⟨source, .tibero⟩).map Note.unworded
      = (select.sourceNotes ⟨source, .oracle⟩).map Note.unworded := by
  cases source with
  | mysql =>
    simp only [Select.sourceNotes, Select.orNotes]
    split <;> rfl
  | postgresql =>
    simp only [Select.sourceNotes, Select.ilikeNotes]
    split <;> rfl
  | _ => rfl

/-- The text of a query for the family is one text, with notes that differ by their words. -/
theorem Select.convertText_target {source : Dialect}
    (outside : source = .mysql ∨ source = .postgresql) (sql : String) (select : Select) :
    (select.convertText ⟨source, .tibero⟩ sql).1 = (select.convertText ⟨source, .oracle⟩ sql).1
      ∧ (select.convertText ⟨source, .tibero⟩ sql).2.map Note.unworded
        = (select.convertText ⟨source, .oracle⟩ sql).2.map Note.unworded := by
  have calls := select.callNotes_unworded source false
  have notes := select.sourceNotes_unworded source
  simp only [Select.convertText, pipeline_target outside, List.map_append, calls, notes]
  refine ⟨trivial, ?_⟩
  simp [Select.offsetNotes, Select.partialNotes, Select.dualNotes, Select.pipesNotes]

theorem TableDefinition.convert_target (source : Dialect) (indent : Nat) (table : TableDefinition) :
    table.toSql ⟨source, .tibero⟩ indent = table.toSql ⟨source, .oracle⟩ indent
      ∧ (table.notes ⟨source, .tibero⟩).map Note.unworded
        = (table.notes ⟨source, .oracle⟩).map Note.unworded := by
  have lines : Column.line ⟨source, .tibero⟩ = Column.line ⟨source, .oracle⟩ := by
    funext column
    rw [Column.line, Column.line, mapped_target]
    rfl
  have notes : Column.notes ⟨source, .tibero⟩ = Column.notes ⟨source, .oracle⟩ := by
    funext column
    simp only [Column.notes, Column.typeNotes, Column.scaleNotes, mapped_target]
  constructor
  · rw [toSql_eq, toSql_eq, TableDefinition.lines, TableDefinition.lines, lines]
    rfl
  · simp only [TableDefinition.notes, notes, List.map_append, List.map_cons, List.map_nil,
      Note.unworded]

theorem convert_target {source : Dialect} (outside : source = .mysql ∨ source = .postgresql)
    (options : Options) (statement : SourceStatement) :
    (statement.convert ⟨source, .tibero⟩ options).sql
        = (statement.convert ⟨source, .oracle⟩ options).sql
      ∧ (statement.convert ⟨source, .tibero⟩ options).rules.length
        = (statement.convert ⟨source, .oracle⟩ options).rules.length
      ∧ (statement.convert ⟨source, .tibero⟩ options).warnings.map Warning.advice
        = (statement.convert ⟨source, .oracle⟩ options).warnings.map Warning.advice := by
  have both : statement.convertedText ⟨source, .tibero⟩ options.ddlIndent
        = statement.convertedText ⟨source, .oracle⟩ options.ddlIndent
      ∧ (statement.allNotes ⟨source, .tibero⟩).map Note.unworded
        = (statement.allNotes ⟨source, .oracle⟩).map Note.unworded := by
    rw [SourceStatement.convertedText, SourceStatement.convertedText, SourceStatement.allNotes,
      SourceStatement.allNotes]
    cases statement.statement with
    | select select =>
      have texts := select.convertText_target outside statement.sql
      rcases outside with rfl | rfl <;> exact texts
    | createTable table =>
      have texts := table.convert_target source options.ddlIndent
      rcases outside with rfl | rfl <;> exact texts
    | other => rcases outside with rfl | rfl <;> exact ⟨rfl, rfl⟩
  rw [statement.convert_eq, statement.convert_eq]
  exact ⟨both.1, Note.alike_of_unworded options both.2⟩

/-- Tibero and Oracle are interchangeable. From either of them a statement is converted with the same
outcome; into either of them it gets the same text, as many rules, and the same warnings in the same
order but for the words of their messages. -/
theorem tibero_and_oracle_convert_alike {other : Dialect}
    (outside : other = .mysql ∨ other = .postgresql) (options : Options)
    (statement : SourceStatement) :
    statement.convert ⟨.tibero, other⟩ options = statement.convert ⟨.oracle, other⟩ options
      ∧ (statement.convert ⟨other, .tibero⟩ options).sql
        = (statement.convert ⟨other, .oracle⟩ options).sql
      ∧ (statement.convert ⟨other, .tibero⟩ options).rules.length
        = (statement.convert ⟨other, .oracle⟩ options).rules.length
      ∧ (statement.convert ⟨other, .tibero⟩ options).warnings.map Warning.advice
        = (statement.convert ⟨other, .oracle⟩ options).warnings.map Warning.advice := by
  refine ⟨convert_source ?_ options statement, convert_target outside options statement⟩
  rcases outside with rfl | rfl <;> decide

def oneColumnText : SourceStatement := ⟨"CREATE TABLE t (a NUMBER)", .createTable oneColumn⟩

theorem oneColumnText_alike :
    (oneColumnText.convert ⟨.mysql, .tibero⟩ {}).rules = ["CREATE TABLE synthesized for TIBERO"]
      ∧ oneColumnText.convert ⟨.tibero, .mysql⟩ {} = oneColumnText.convert ⟨.oracle, .mysql⟩ {}
      ∧ (oneColumnText.convert ⟨.mysql, .tibero⟩ {}).sql
        = (oneColumnText.convert ⟨.mysql, .oracle⟩ {}).sql
      ∧ (oneColumnText.convert ⟨.mysql, .tibero⟩ {}).rules.length
        = (oneColumnText.convert ⟨.mysql, .oracle⟩ {}).rules.length
      ∧ (oneColumnText.convert ⟨.mysql, .tibero⟩ {}).warnings.map Warning.advice
        = (oneColumnText.convert ⟨.mysql, .oracle⟩ {}).warnings.map Warning.advice :=
  ⟨by decide, tibero_and_oracle_convert_alike (.inl rfl) {} oneColumnText⟩

end SqlDialects
