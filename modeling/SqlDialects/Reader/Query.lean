import SqlDialects.Reader.Expression
import SqlDialects.Sql.Select

/-
Reading queries: the select list, tables and joins, conditions, grouping, order and the clause that
limits the rows.
-/
namespace SqlDialects.Reader

def aliasName : Reader (Option String) := option do
  let _ ← option (keyword "AS")
  gaps
  quotedNamePart

def selectItem : Reader SelectItem := do
  let expr ← expr
  let name ← aliasName
  pure ⟨expr, name⟩

def tableRef : Reader TableRef := do
  let parts ← quotedPath
  let name ← aliasName
  pure ⟨".".intercalate parts, name⟩

def outerJoin (side : String) (kind : JoinKind) : Reader JoinKind := do
  keyword side
  let _ ← option (keyword "OUTER")
  keyword "JOIN"
  pure kind

def joinKind : Reader JoinKind :=
  (do let _ ← option (keyword "INNER"); keyword "JOIN"; pure .inner)
    <|> outerJoin "LEFT" .left
    <|> outerJoin "RIGHT" .right
    <|> outerJoin "FULL" .full
    <|> (do keyword "CROSS"; keyword "JOIN"; pure .cross)

def join : Reader Join := do
  let kind ← joinKind
  let table ← tableRef
  let condition ← option do
    keyword "ON"
    expr
  pure ⟨kind, table, condition⟩

def orderItem : Reader OrderItem := do
  let expr ← expr
  let direction ← option ((do keyword "DESC"; pure true) <|> (do keyword "ASC"; pure false))
  pure ⟨expr, direction.getD false⟩

def rowsKeyword : Reader Unit := keyword "ROWS" <|> keyword "ROW"

/-- `FETCH FIRST n ROWS ONLY`; without a count it is one row. -/
def fetchClause : Reader UInt64 := do
  keyword "FETCH"
  keyword "FIRST" <|> keyword "NEXT"
  let count ← option rowCount
  rowsKeyword
  keyword "ONLY"
  pure (count.getD 1)

/-- What follows `LIMIT`: `m, n`, or `n` with an optional offset. -/
def limitRest : Reader Page := do
  let first ← rowCount
  whenRead (symbol ",") (fun _ => do
    let count ← rowCount
    pure { limit := some count, offset := some first }) do
      let offset ← option do
        keyword "OFFSET"
        rowCount
      pure { limit := some first, offset }

/-- The clause that limits the rows; it may be missing altogether. -/
def page : Reader Page :=
  whenRead (keyword "LIMIT") (fun _ => limitRest) do
    let offset ← option do
      keyword "OFFSET"
      let count ← rowCount
      let rows ← present rowsKeyword
      pure (count, rows)
    let fetch ← option fetchClause
    pure
      { offset := offset.map (·.1)
        fetch
        offsetRows := match offset with
          | some (_, rows) => rows
          | none => false }

/-- A list behind its keywords; it may be missing. -/
def listClause {α : Type} (head : Reader Unit) (item : Reader α) : Reader (List α) := do
  let items ← option do
    head
    separatedBy (symbol ",") item
  pure (items.getD [])

/-- A condition behind its keyword; it may be missing. -/
def conditionClause (word : String) : Reader (Option Expr) := option do
  keyword word
  expr

def query : Reader Select := do
  keyword "SELECT"
  let distinct ← present (keyword "DISTINCT")
  let items ← separatedBy (symbol ",") selectItem
  let tables ← listClause (keyword "FROM") tableRef
  let joins ← many join
  let filter ← conditionClause "WHERE"
  let groupBy ← listClause (do keyword "GROUP"; keyword "BY") expr
  let having ← conditionClause "HAVING"
  let orderBy ← listClause (do keyword "ORDER"; keyword "BY") orderItem
  let page ← page
  gaps
  finish
  pure { distinct, items, tables, joins, filter, groupBy, having, orderBy, page }

end SqlDialects.Reader
