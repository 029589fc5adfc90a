import SqlDialects.Conversion.Note
import SqlDialects.Rules.TypeTable

/-
Converting table definitions. The definition is written anew from its columns and its primary key,
with every name in the target's quotes; whatever is not written is named in a warning.
-/
namespace SqlDialects

/-- The specifications of a column that are written and those that are not. -/
structure Constraints where
  kept : List String := []
  discarded : List String := []
  deriving DecidableEq, Repr

namespace Constraints

/-- Adds one token in front. `NULL` says nothing, and only defaults are kept. -/
def add (token : String) (constraints : Constraints) : Constraints :=
  let word := Text.upper token
  if word = "NULL" then constraints
  else if "DEFAULT".toList.isPrefixOf word.toList then
    { constraints with kept := token :: constraints.kept }
  else { constraints with discarded := token :: constraints.discarded }

/-- Sorts the tokens of a column. `NOT NULL` is kept and `PRIMARY KEY` is left to the key. -/
def ofSpecs : List String → Constraints
  | [] => {}
  | [token] => add token {}
  | first :: second :: rest =>
    if Text.sameIgnoringCase first "NOT" && Text.sameIgnoringCase second "NULL" then
      let later := ofSpecs rest
      { later with kept := "NOT NULL" :: later.kept }
    else if Text.sameIgnoringCase first "PRIMARY" && Text.sameIgnoringCase second "KEY" then
      ofSpecs rest
    else add first (ofSpecs (second :: rest))

end Constraints

def notReproduced (kind : WarningKind) (message : String) : Note :=
  .warn { kind, severity := .info, message }

namespace Column

def line (pair : Pair) (column : Column) : String :=
  " ".intercalate
    ([pair.target.quoteName column.name, (column.type.mapped pair).toSql]
      ++ (Constraints.ofSpecs column.specs).kept)

def typeNotes (pair : Pair) (column : Column) : List Note :=
  let mapped := column.type.mapped pair
  if mapped = column.type then []
  else [.rule (column.name ++ ": " ++ column.type.toSql ++ " → " ++ mapped.toSql)]

def scaleNotes (pair : Pair) (column : Column) : List Note :=
  let mapped := column.type.mapped pair
  match column.type.scale with
  | some scale =>
    if mapped.precision.isNone || mapped.scale.isNone then
      [notReproduced .partialSupport
        ("column " ++ column.name ++ ": scale " ++ toString scale.toNat ++ " of "
          ++ column.type.toSql ++ " not reproduced in " ++ mapped.toSql)]
    else []
  | none => []

def specNotes (column : Column) : List Note :=
  let discarded := (Constraints.ofSpecs column.specs).discarded
  if discarded.isEmpty then []
  else
    [notReproduced .unsupportedConstruct
      ("column " ++ column.name ++ ": '" ++ " ".intercalate discarded ++ "' not reproduced")]

def notes (pair : Pair) (column : Column) : List Note :=
  column.typeNotes pair ++ column.scaleNotes pair ++ column.specNotes

end Column

namespace TableDefinition

def keyLine? (target : Dialect) (table : TableDefinition) : Option String :=
  (table.indexes.find? Index.isPrimaryKey).map fun index =>
    "PRIMARY KEY (" ++ ", ".intercalate (index.columns.map target.quoteName) ++ ")"

def indexNote (table : TableDefinition) (index : Index) : Note :=
  let label := match index.name with
    | some name => index.kind ++ " " ++ name
    | none => index.kind ++ " (" ++ ", ".intercalate index.columns ++ ")"
  notReproduced .unsupportedConstruct (label ++ " on " ++ table.name ++ " not reproduced")

def optionNotes (table : TableDefinition) : List Note :=
  if table.options.isEmpty then []
  else
    [notReproduced .unsupportedConstruct
      ("table options '" ++ " ".intercalate table.options ++ "' dropped")]

def toSql (pair : Pair) (indent : Nat) (table : TableDefinition) : String :=
  let blanks := String.ofList (List.replicate indent ' ')
  let lines := table.columns.map (Column.line pair) ++ (table.keyLine? pair.target).toList
  "CREATE TABLE " ++ pair.target.quoteName table.name ++ " (\n"
    ++ ",\n".intercalate (lines.map (blanks ++ ·)) ++ "\n)"

def notes (pair : Pair) (table : TableDefinition) : List Note :=
  table.columns.flatMap (Column.notes pair)
    ++ (table.indexes.filter (!·.isPrimaryKey)).map table.indexNote
    ++ table.optionNotes
    ++ [.rule ("CREATE TABLE synthesized for " ++ pair.target.name)]

end TableDefinition

end SqlDialects
