import SqlDialects.Sql.Expr

/-
Queries and their canonical text: keywords in upper case, single blanks between the parts.
-/
namespace SqlDialects

structure SelectItem where
  expr : Expr
  alias? : Option String := none

structure TableRef where
  name : String
  alias? : Option String := none
  deriving DecidableEq, Repr

inductive JoinKind where
  | inner | left | right | full | cross
  deriving DecidableEq, Repr

structure Join where
  kind : JoinKind
  table : TableRef
  on? : Option Expr := none

structure OrderItem where
  expr : Expr
  descending : Bool := false

/-- The rows asked for. A count is written either as a limit or as a fetch clause. -/
structure Page where
  limit : Option UInt64 := none
  offset : Option UInt64 := none
  fetch : Option UInt64 := none
  /-- An offset alone is written `OFFSET m ROWS`, not `OFFSET m`. -/
  offsetRows : Bool := false
  deriving DecidableEq, Repr

structure Select where
  distinct : Bool := false
  items : List SelectItem
  tables : List TableRef := []
  joins : List Join := []
  filter : Option Expr := none
  groupBy : List Expr := []
  having : Option Expr := none
  orderBy : List OrderItem := []
  page : Page := {}

def SelectItem.toSql (item : SelectItem) : String :=
  match item.alias? with
  | some name => item.expr.toSql ++ " AS " ++ name
  | none => item.expr.toSql

def TableRef.toSql (table : TableRef) : String :=
  match table.alias? with
  | some name => table.name ++ " " ++ name
  | none => table.name

def JoinKind.toSql : JoinKind → String
  | .inner => "JOIN"
  | .left => "LEFT JOIN"
  | .right => "RIGHT JOIN"
  | .full => "FULL JOIN"
  | .cross => "CROSS JOIN"

def Join.toSql (join : Join) : String :=
  join.kind.toSql ++ " " ++ join.table.toSql
    ++ (match join.on? with
      | some condition => " ON " ++ condition.toSql
      | none => "")

def OrderItem.toSql (item : OrderItem) : String :=
  item.expr.toSql ++ (if item.descending then " DESC" else "")

namespace Page

def isEmpty (page : Page) : Bool := page.limit.isNone && page.offset.isNone && page.fetch.isNone

def countSql (n : UInt64) : String := toString n.toNat

/-- The clause with a blank in front, or nothing. A limit hides a fetch clause. -/
def toSql (page : Page) : String :=
  match page.limit with
  | some n =>
    " LIMIT " ++ countSql n
      ++ (match page.offset with
        | some m => " OFFSET " ++ countSql m
        | none => "")
  | none =>
    (match page.offset with
      | some m =>
        " OFFSET " ++ countSql m ++ (if page.fetch.isSome || page.offsetRows then " ROWS" else "")
      | none => "")
      ++ (match page.fetch with
        | some n => " FETCH FIRST " ++ countSql n ++ " ROWS ONLY"
        | none => "")

end Page

namespace Select

def listSql (keyword : String) (texts : List String) : String :=
  if texts.isEmpty then "" else keyword ++ ", ".intercalate texts

def conditionSql (keyword : String) : Option Expr → String
  | some condition => keyword ++ condition.toSql
  | none => ""

def toSql (select : Select) : String :=
  "SELECT " ++ (if select.distinct then "DISTINCT " else "")
    ++ ", ".intercalate (select.items.map SelectItem.toSql)
    ++ listSql " FROM " (select.tables.map TableRef.toSql)
    ++ String.join (select.joins.map fun join => " " ++ join.toSql)
    ++ conditionSql " WHERE " select.filter
    ++ listSql " GROUP BY " (select.groupBy.map Expr.toSql)
    ++ conditionSql " HAVING " select.having
    ++ listSql " ORDER BY " (select.orderBy.map OrderItem.toSql)
    ++ select.page.toSql

end Select

end SqlDialects
