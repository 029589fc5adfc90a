import SqlDialects.Reader.Query
import SqlDialects.Reader.Table
import SqlDialects.Sql.Statement

/-
Reading one statement. Whatever is neither a query nor a table definition that can be read to its
end is some other statement.
-/
namespace SqlDialects

def Statement.ofText (s : List Char) : Statement :=
  match Reader.query s with
  | .ok (found, _) => .select found
  | .error _ =>
    match TableDefinition.ofText? s with
    | some table => .createTable table
    | none => .other

/-- The text of a statement without surrounding blanks and the semicolons at its end. -/
def statementBody (s : List Char) : List Char :=
  Text.trim (Text.dropEndWhile (· == ';') (Text.trim s))

def SourceStatement.ofSql (sql : String) : Except Failure SourceStatement :=
  let body := statementBody sql.toList
  if body.isEmpty then .error .emptyInput else .ok { sql, statement := .ofText body }

end SqlDialects
