import SqlDialects.Reader.DataType
import SqlDialects.Reader.Nesting

/-
Reading table definitions. The elements between the outer parentheses are keys or columns. What
follows the type of a column, and what follows the closing parenthesis, is kept as tokens.
-/
namespace SqlDialects

def joinDefaults : List String → List String
  | [] => []
  | [token] => [token]
  | token :: value :: rest =>
    if Text.sameIgnoringCase token "DEFAULT" then (token ++ " " ++ value) :: joinDefaults rest
    else token :: joinDefaults (value :: rest)

def specTokens (s : List Char) : List String := joinDefaults ((tokens s).map String.ofList)

def hasPrimaryKey : List String → Bool
  | first :: second :: rest =>
    (Text.sameIgnoringCase first "PRIMARY" && Text.sameIgnoringCase second "KEY")
      || hasPrimaryKey (second :: rest)
  | _ => false

namespace Reader

/-- The start of a definition up to the opening parenthesis; gives the table's name. -/
def tableHead : Reader String := do
  keyword "CREATE"
  let _ ← option do
    keyword "GLOBAL"
    keyword "TEMPORARY"
  keyword "TABLE"
  let _ ← option do
    keyword "IF"
    keyword "NOT"
    keyword "EXISTS"
  let parts ← path
  symbol "("
  pure (".".intercalate parts)

def indexKind : Reader String :=
  (do keyword "PRIMARY"; keyword "KEY"; pure "PRIMARY KEY")
    <|> (do keyword "FOREIGN"; keyword "KEY"; pure "FOREIGN KEY")
    <|> (do
      keyword "UNIQUE"
      let _ ← option (keyword "KEY" <|> keyword "INDEX")
      pure "UNIQUE")
    <|> (do keyword "KEY"; pure "KEY")
    <|> (do keyword "INDEX"; pure "INDEX")
    <|> (do keyword "CHECK"; pure "CHECK")

def indexColumn : Reader String := do
  let name ← identifier
  let _ ← option (keyword "ASC" <|> keyword "DESC")
  pure name

/-- A key, index or constraint. Only a check may come without a list of columns. The name of a
constraint goes before that of an index. -/
def index : Reader Index := do
  let constraint ← option do
    keyword "CONSTRAINT"
    identifier
  let kind ← indexKind
  let name ← option identifier
  let columns ← option do
    symbol "("
    let columns ← separatedBy (symbol ",") indexColumn
    symbol ")"
    pure columns
  if columns.isNone && kind != "CHECK" then stop
  else pure { kind, name := constraint.or name, columns := columns.getD [] }

end Reader

def indexElement? (element : List Char) : Option Index :=
  match Reader.index element with
  | .ok (index, _) => some index
  | .error _ => none

def columnElement? (element : List Char) : Option Column :=
  match Reader.identifier element with
  | .error _ => none
  | .ok (name, rest) =>
    match Reader.dataType rest with
    | .error _ => none
    | .ok (type, rest) => some { name, type, specs := specTokens rest }

namespace TableDefinition

/-- Adds one element to a definition. A column that is a primary key by itself also counts as an
index. -/
def addElement? (table : TableDefinition) (element : List Char) : Option TableDefinition :=
  if element.isEmpty then none
  else
    match indexElement? element with
    | some index => some { table with indexes := table.indexes ++ [index] }
    | none =>
      (columnElement? element).map fun column =>
        { table with
          columns := table.columns ++ [column]
          indexes :=
            if hasPrimaryKey column.specs then
              table.indexes ++ [{ kind := "PRIMARY KEY", columns := [column.name] }]
            else table.indexes }

/-- Reads a table definition; every element has to be understood. -/
def ofText? (s : List Char) : Option TableDefinition :=
  match Reader.tableHead s with
  | .error _ => none
  | .ok (name, rest) =>
    match cutAtClosing rest with
    | none => none
    | some (body, tail) =>
      ((topLevelPieces ',' body).map Text.trim).foldlM addElement?
        { name, columns := [], indexes := [], options := specTokens (Text.trim tail) }

end TableDefinition

end SqlDialects
