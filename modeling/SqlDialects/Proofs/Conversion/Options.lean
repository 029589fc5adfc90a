import Mathlib
import SqlDialects.Conversion.Statement

/-
What the options of a conversion can change. A conversion makes its text and its notes without
looking at the options, but for the indentation of a table definition; the options then choose which
of the notes are shown.
-/
namespace SqlDialects

/-! Choosing notes. -/

namespace Note

theorem warnings_filtered (options : Options) (notes : List Note) :
    warnings { options with includeInfo := false } notes
      = (warnings { options with includeInfo := true } notes).filter (·.severity != .info) := by
  rw [warnings, warnings, List.filter_filterMap]
  refine List.filterMap_congr fun note _ => ?_
  cases note with
  | warn warning => cases grave : warning.severity <;> simp [warning?, grave, Option.filter]
  | rule label => rfl
  | kept label => rfl

theorem labels_sublist (options : Options) (notes : List Note) :
    (labels { options with recordUnchanged := false } notes).Sublist
      (labels { options with recordUnchanged := true } notes) := by
  induction notes with
  | nil => exact List.Sublist.refl []
  | cons note notes ih =>
    cases note with
    | rule label => exact ih.cons_cons label
    | kept label => exact ih.cons label
    | warn warning => exact ih

end Note

def Outcome.withoutInfo (outcome : Outcome) : Outcome :=
  { outcome with warnings := outcome.warnings.filter (·.severity != .info) }

theorem Outcome.withoutInfo_hasErrors (outcome : Outcome) :
    outcome.withoutInfo.hasErrors = outcome.hasErrors := by
  simp only [hasErrors, withoutInfo, List.any_filter]
  refine congrArg (List.any outcome.warnings) (funext fun warning => ?_)
  cases warning.severity <;> rfl

/-! What there is to choose from. -/

namespace TableDefinition

def lines (pair : Pair) (table : TableDefinition) : List String :=
  table.columns.map (Column.line pair) ++ (table.keyLine? pair.target).toList

def sqlOfLines (pair : Pair) (table : TableDefinition) (lines : List String) : String :=
  "CREATE TABLE " ++ pair.target.quoteName table.name ++ " (\n" ++ ",\n".intercalate lines ++ "\n)"

theorem toSql_eq (pair : Pair) (indent : Nat) (table : TableDefinition) :
    table.toSql pair indent = "CREATE TABLE " ++ pair.target.quoteName table.name ++ " (\n"
      ++ ",\n".intercalate
        ((table.lines pair).map (String.ofList (List.replicate indent ' ') ++ ·))
      ++ "\n)" := rfl

theorem lines_head (pair : Pair) (table : TableDefinition) :
    ∀ line ∈ table.lines pair, line.toList.head? ≠ some ' ' := by
  intro line listed
  rcases List.mem_append.mp listed with listed | listed
  · obtain ⟨column, _, rfl⟩ := List.mem_map.mp listed
    have quoted : ∀ pieces : List (List Char), pieces ≠ [] →
        (".".intercalate (pieces.map fun part =>
          String.ofList (Text.enclose pair.target.quote part))).toList.head?
          = some pair.target.quote := by
      intro pieces some
      cases pieces with
      | nil => exact absurd rfl some
      | cons part pieces => cases pieces <;> simp [String.toList_intercalate, Text.enclose]
    have named : (pair.target.quoteName column.name).toList.head? = some pair.target.quote := by
      refine quoted _ ?_
      cases column.name.toList with
      | nil => simp [Text.pieces]
      | cons c rest =>
        rw [Text.pieces]
        split
        · simp
        · cases Text.pieces '.' rest <;> simp [Text.prepend]
    have first : (column.line pair).toList.head? = some pair.target.quote := by
      rw [Column.line, String.toList_intercalate]
      simp only [List.map_cons, List.cons_append]
      cases shape : (pair.target.quoteName column.name).toList with
      | nil => rw [shape] at named; cases named
      | cons c rest =>
        rw [shape] at named
        simpa [List.intercalate] using named
    rw [first]
    cases pair.target <;> decide
  · rw [keyLine?, Option.mem_toList, Option.map_eq_some_iff] at listed
    obtain ⟨index, _, rfl⟩ := listed
    simp

end TableDefinition

namespace SourceStatement

def allNotes (pair : Pair) (source : SourceStatement) : List Note :=
  if pair.isIdentity then []
  else
    match source.statement with
    | .select select => (select.convert pair source.sql).2
    | .createTable table => table.notes pair
    | .other => []

def convertedText (pair : Pair) (indent : Nat) (source : SourceStatement) : String :=
  if pair.isIdentity then source.sql
  else
    match source.statement with
    | .select select => (select.convert pair source.sql).1
    | .createTable table => table.toSql pair indent
    | .other => source.sql

theorem convert_eq (pair : Pair) (options : Options) (source : SourceStatement) :
    source.convert pair options
      = .ofNotes options (source.convertedText pair options.ddlIndent) (source.allNotes pair) := by
  rw [convert, convertedText, allNotes]
  cases pair.isIdentity with
  | true => rfl
  | false => cases source.statement <;> rfl

theorem convertedText_indent {pair : Pair} {source : SourceStatement}
    (free : pair.isIdentity = true ∨ ∀ table, source.statement ≠ .createTable table)
    (indent other : Nat) : source.convertedText pair indent = source.convertedText pair other := by
  rw [convertedText, convertedText]
  rcases free with same | free
  · rw [if_pos same, if_pos same]
  · cases kind : source.statement with
    | createTable table => exact absurd kind (free table)
    | _ => rfl

end SourceStatement

/-- Options only filter. Without informational warnings a conversion gives the same text and rules
and exactly the other warnings, so the same errors. Without a record of what was kept it gives the
same text and warnings and part of the rules, in order. The indentation matters to nothing but a
table definition that is written anew, and there it is the number of blanks in front of the lines of
columns and key. -/
theorem convert_options (pair : Pair) (options : Options) (source : SourceStatement) :
    source.convert pair { options with includeInfo := false }
        = (source.convert pair { options with includeInfo := true }).withoutInfo
      ∧ (source.convert pair { options with includeInfo := false }).hasErrors
        = (source.convert pair { options with includeInfo := true }).hasErrors
      ∧ (source.convert pair { options with recordUnchanged := false }).sql
        = (source.convert pair { options with recordUnchanged := true }).sql
      ∧ (source.convert pair { options with recordUnchanged := false }).warnings
        = (source.convert pair { options with recordUnchanged := true }).warnings
      ∧ (source.convert pair { options with recordUnchanged := false }).rules.Sublist
        (source.convert pair { options with recordUnchanged := true }).rules
      ∧ (∀ indent, pair.isIdentity = true ∨ (∀ table, source.statement ≠ .createTable table) →
        source.convert pair { options with ddlIndent := indent } = source.convert pair options)
      ∧ ∀ indent table, pair.isIdentity = false → source.statement = .createTable table →
        source.convert pair { options with ddlIndent := indent }
          = { source.convert pair options with
              sql := table.sqlOfLines pair
                ((table.lines pair).map (String.ofList (List.replicate indent ' ') ++ ·)) }
        ∧ ∀ line ∈ table.lines pair, line.toList.head? ≠ some ' ' := by
  have filtered : source.convert pair { options with includeInfo := false }
      = (source.convert pair { options with includeInfo := true }).withoutInfo := by
    rw [source.convert_eq, source.convert_eq]
    exact congrArg (Outcome.mk _ · _) (Note.warnings_filtered options _)
  refine ⟨filtered, ?_, ?_, ?_, ?_, fun indent free => ?_, fun indent table different kind => ?_⟩
  · rw [filtered, Outcome.withoutInfo_hasErrors]
  · rw [source.convert_eq, source.convert_eq]
    rfl
  · rw [source.convert_eq, source.convert_eq]
    rfl
  · rw [source.convert_eq, source.convert_eq]
    exact Note.labels_sublist options _
  · rw [source.convert_eq, source.convert_eq,
      SourceStatement.convertedText_indent free indent options.ddlIndent]
    rfl
  · refine ⟨?_, table.lines_head pair⟩
    rw [source.convert_eq, source.convert_eq, SourceStatement.convertedText, different, kind]
    rfl

def oneColumn : TableDefinition where
  name := "t"
  columns := [{ name := "a", type := { name := "NUMBER" } }]
  indexes := []

theorem oneColumn_indented :
    (SourceStatement.convert ⟨.oracle, .mysql⟩ { ddlIndent := 2 }
      ⟨"CREATE TABLE t (a NUMBER)", .createTable oneColumn⟩).sql
      = "CREATE TABLE \x60t\x60 (\n  \x60a\x60 DECIMAL\n)" := by
  have filter := convert_options ⟨.oracle, .mysql⟩ {}
    ⟨"CREATE TABLE t (a NUMBER)", .createTable oneColumn⟩
  have indented := (filter.2.2.2.2.2.2 2 oneColumn rfl rfl).1
  refine (congrArg Outcome.sql indented).trans ?_
  decide

end SqlDialects
