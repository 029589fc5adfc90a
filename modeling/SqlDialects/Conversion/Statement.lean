import SqlDialects.Conversion.Query
import SqlDialects.Conversion.Table
import SqlDialects.Reader.Script
import SqlDialects.Reader.Statement

/-
Converting statements and scripts.
-/
namespace SqlDialects

namespace SourceStatement

/-- Converts a statement that has been read. Statements without a structure, and conversions of a
dialect to itself, leave the text as it is. -/
def convert (pair : Pair) (options : Options) (source : SourceStatement) : Outcome :=
  if pair.isIdentity then { sql := source.sql }
  else
    match source.statement with
    | .select select =>
      let (sql, notes) := select.convert pair source.sql
      .ofNotes options sql notes
    | .createTable table =>
      .ofNotes options (table.toSql pair options.ddlIndent) (table.notes pair)
    | .other => { sql := source.sql }

end SourceStatement

def convertSql (pair : Pair) (options : Options) (sql : String) : Except Failure Outcome :=
  (SourceStatement.ofSql sql).map (SourceStatement.convert pair options)

def convertScript (pair : Pair) (options : Options) (script : String) :
    Except Failure (List Outcome) :=
  match splitStatements script with
  | [] => .error .emptyInput
  | statements => statements.mapM (convertSql pair options)

end SqlDialects
