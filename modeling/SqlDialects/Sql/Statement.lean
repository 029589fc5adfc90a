import SqlDialects.Sql.Select
import SqlDialects.Sql.Table

/-
Statements. Only queries and table definitions have a structure; any other statement is kept as
text.
-/
namespace SqlDialects

inductive Statement where
  | select (select : Select)
  | createTable (table : TableDefinition)
  | other

structure SourceStatement where
  sql : String
  statement : Statement

/-- The canonical text of a query; every other statement is shown as written. -/
def SourceStatement.toSql (source : SourceStatement) : String :=
  match source.statement with
  | .select select => select.toSql
  | .createTable _ | .other => source.sql

end SqlDialects
