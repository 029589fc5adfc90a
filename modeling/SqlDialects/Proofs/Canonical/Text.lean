import Mathlib
import SqlDialects.Conversion.Names

/-
Canonical text as a list of characters, with every name written by a given function. Without any
change to the names it is the canonical text itself.
-/
namespace SqlDialects

def commas (texts : List (List Char)) : List Char := [',', ' '].intercalate texts

@[simp] theorem commas_nil : commas [] = [] := rfl

@[simp] theorem commas_one (t : List Char) : commas [t] = t := List.intercalate_singleton

@[simp] theorem commas_more (t u : List Char) (texts : List (List Char)) :
    commas (t :: u :: texts) = t ++ (',' :: ' ' :: commas (u :: texts)) := by
  simp [commas, List.intercalate_cons_cons]

def Expr.written (f : String → String) (e : Expr) : List Char := (e.mapNames f).toSql.toList

theorem Expr.listToSql_eq (es : List Expr) : Expr.listToSql es = es.map Expr.toSql := by
  induction es with
  | nil => rfl
  | cons e es ih => exact congrArg (e.toSql :: ·) ih

theorem Expr.listMapNames_eq (f : String → String) (es : List Expr) :
    Expr.listMapNames f es = es.map (Expr.mapNames f) := by
  induction es with
  | nil => rfl
  | cons e es ih => exact congrArg (e.mapNames f :: ·) ih

section Written

variable (f : String → String)

theorem commas_written (es : List Expr) :
    (", ".intercalate (Expr.listToSql (Expr.listMapNames f es))).toList
      = commas (es.map (Expr.written f)) := by
  rw [String.toList_intercalate, Expr.listToSql_eq, Expr.listMapNames_eq, List.map_map,
    List.map_map]
  rfl

theorem written_bare (name : String) (distinct : Bool) :
    (Expr.call name [] distinct true).written f = name.toList := rfl

theorem written_call (name : String) (args : List Expr) (distinct : Bool) :
    (Expr.call name args distinct false).written f
      = name.toList ++ ('(' :: ((if distinct then "DISTINCT ".toList else [])
        ++ (commas (args.map (Expr.written f)) ++ [')']))) := by
  change (callSql name (Expr.listToSql (Expr.listMapNames f args)) distinct false).toList = _
  rw [← commas_written]
  cases distinct <;> simp [callSql]

theorem written_binary (left right : Expr) (op : BinaryOp) :
    (Expr.binary left op right).written f
      = left.written f ++ (' ' :: op.toSql.toList ++ ' ' :: right.written f) := by
  change ((left.mapNames f).toSql ++ " " ++ op.toSql ++ " " ++ (right.mapNames f).toSql).toList = _
  simp [Expr.written]

theorem written_number (text : String) : (Expr.number text).written f = text.toList := rfl

theorem written_string (value : String) :
    (Expr.string value).written f = Text.enclose '\x27' value.toList := by
  exact String.toList_ofList

theorem written_null : Expr.null.written f = "NULL".toList := rfl

theorem written_star : (Expr.star none).written f = ['*'] := by
  change "*".toList = _
  rfl

theorem written_qualified (name : String) :
    (Expr.star (some name)).written f = (f name).toList ++ ['.', '*'] := by
  change (f name ++ ".*").toList = _
  simp

theorem written_parameter (text : String) : (Expr.parameter text).written f = text.toList := rfl

theorem written_group (inner : Expr) :
    (Expr.group inner).written f = '(' :: (inner.written f ++ [')']) := by
  change ("(" ++ (inner.mapNames f).toSql ++ ")").toList = _
  simp [Expr.written]

theorem written_not (inner : Expr) :
    (Expr.not inner).written f = "NOT".toList ++ ' ' :: inner.written f := by
  change ("NOT " ++ (inner.mapNames f).toSql).toList = _
  simp [Expr.written]

theorem written_negate (inner : Expr) : (Expr.negate inner).written f = '-' :: inner.written f := by
  change ("-" ++ (inner.mapNames f).toSql).toList = _
  simp [Expr.written]

theorem written_isNull (subject : Expr) (negated : Bool) :
    (Expr.isNull subject negated).written f
      = subject.written f
        ++ (' ' :: "IS".toList
          ++ ((if negated then ' ' :: "NOT".toList else []) ++ ' ' :: "NULL".toList)) := by
  change ((subject.mapNames f).toSql ++ (if negated then " IS NOT NULL" else " IS NULL")).toList = _
  cases negated <;> simp [Expr.written]

theorem written_inList (subject : Expr) (values : List Expr) (negated : Bool) :
    (Expr.inList subject values negated).written f
      = subject.written f ++ ((if negated then ' ' :: "NOT".toList else [])
        ++ (' ' :: "IN".toList
          ++ (' ' :: "(".toList ++ (commas (values.map (Expr.written f)) ++ [')'])))) := by
  change ((subject.mapNames f).toSql ++ (if negated then " NOT IN (" else " IN (")
    ++ ", ".intercalate (Expr.listToSql (Expr.listMapNames f values)) ++ ")").toList = _
  rw [← commas_written]
  cases negated <;> simp [Expr.written]

end Written

/-! Queries. -/

def aliasWritten (f : String → String) (word : List Char) : Option String → List Char
  | some name => word ++ ' ' :: (f name).toList
  | none => []

def SelectItem.written (f : String → String) (item : SelectItem) : List Char :=
  item.expr.written f ++ aliasWritten f (' ' :: "AS".toList) item.alias?

def TableRef.written (f : String → String) (table : TableRef) : List Char :=
  (f table.name).toList ++ aliasWritten f [] table.alias?

def conditionWritten (f : String → String) (word : String) : Option Expr → List Char
  | some condition => ' ' :: word.toList ++ ' ' :: condition.written f
  | none => []

def Join.written (f : String → String) (join : Join) : List Char :=
  ' ' :: join.kind.toSql.toList ++ (' ' :: join.table.written f
    ++ conditionWritten f "ON" join.on?)

def OrderItem.written (f : String → String) (item : OrderItem) : List Char :=
  item.expr.written f ++ (if item.descending then ' ' :: "DESC".toList else [])

def listWritten (head : List Char) (texts : List (List Char)) : List Char :=
  if texts.isEmpty then [] else head ++ ' ' :: commas texts

def countWritten (n : UInt64) : List Char := ' ' :: (Page.countSql n).toList

def limitWritten (n : UInt64) : Option UInt64 → List Char
  | some m => ' ' :: "LIMIT".toList ++ (countWritten n ++ (' ' :: "OFFSET".toList ++ countWritten m))
  | none => ' ' :: "LIMIT".toList ++ countWritten n

def offsetWritten (rows : Bool) : Option UInt64 → List Char
  | some m =>
    ' ' :: "OFFSET".toList ++ (countWritten m ++ (if rows then ' ' :: "ROWS".toList else []))
  | none => []

def fetchWritten : Option UInt64 → List Char
  | some n => ' ' :: "FETCH".toList ++ (' ' :: "FIRST".toList
    ++ (countWritten n ++ (' ' :: "ROWS".toList ++ ' ' :: "ONLY".toList)))
  | none => []

def Page.written (page : Page) : List Char :=
  match page.limit with
  | some n => limitWritten n page.offset
  | none => offsetWritten (page.fetch.isSome || page.offsetRows) page.offset
    ++ fetchWritten page.fetch

theorem page_written (page : Page) : page.toSql.toList = page.written := by
  obtain ⟨limit, offset, fetch, rows⟩ := page
  cases limit <;> cases offset <;> cases fetch <;> cases rows <;>
    simp [Page.toSql, Page.written, limitWritten, offsetWritten, fetchWritten, countWritten]

def Select.written (f : String → String) (select : Select) : List Char :=
  (select.mapNames f).toSql.toList

section SelectWritten

variable (f : String → String)

theorem selectItem_written (item : SelectItem) :
    (SelectItem.toSql ⟨item.expr.mapNames f, item.alias?.map f⟩).toList = item.written f := by
  cases found : item.alias? <;>
    simp [SelectItem.toSql, SelectItem.written, aliasWritten, Expr.written, found]

theorem tableRef_written (table : TableRef) :
    (table.mapNames f).toSql.toList = table.written f := by
  cases found : table.alias? <;>
    simp [TableRef.toSql, TableRef.mapNames, TableRef.written, aliasWritten, found]

theorem join_written (join : Join) :
    (" " ++ Join.toSql ⟨join.kind, join.table.mapNames f, join.on?.map (Expr.mapNames f)⟩).toList
      = join.written f := by
  cases found : join.on? <;>
    simp [Join.toSql, Join.written, conditionWritten, tableRef_written, Expr.written, found]

theorem orderItem_written (item : OrderItem) :
    (OrderItem.toSql ⟨item.expr.mapNames f, item.descending⟩).toList = item.written f := by
  cases found : item.descending <;>
    simp [OrderItem.toSql, OrderItem.written, Expr.written, found]

theorem conditionSql_written (word head : String) (spaced : head.toList = ' ' :: word.toList ++ [' '])
    (condition : Option Expr) :
    (Select.conditionSql head (condition.map (Expr.mapNames f))).toList
      = conditionWritten f word condition := by
  cases condition <;> simp [Select.conditionSql, conditionWritten, spaced, Expr.written]

theorem listSql_written {α : Type} (word head : String)
    (spaced : head.toList = ' ' :: word.toList ++ [' ']) (items : List α) (text : α → String) :
    (Select.listSql head (items.map text)).toList
      = listWritten (' ' :: word.toList) (items.map fun a => (text a).toList) := by
  cases items with
  | nil => rfl
  | cons a items =>
    simp [Select.listSql, listWritten, spaced, commas, Function.comp_def]

theorem distinct_written (distinct : Bool) (rest : List Char) :
    "SELECT ".toList ++ ((if distinct then "DISTINCT " else "").toList ++ rest)
      = "SELECT".toList ++ ((if distinct then ' ' :: "DISTINCT".toList else []) ++ ' ' :: rest) := by
  cases distinct <;> simp

theorem items_written (items : List SelectItem) :
    (", ".intercalate ((items.map fun item =>
        { expr := item.expr.mapNames f, alias? := item.alias?.map f }).map SelectItem.toSql)).toList
      = commas (items.map (SelectItem.written f)) := by
  rw [String.toList_intercalate, List.map_map, List.map_map]
  exact congrArg commas (List.map_congr_left fun item _ => selectItem_written f item)

theorem joins_written (joins : List Join) :
    (String.join ((joins.map fun join =>
        { join with table := join.table.mapNames f, on? := join.on?.map (Expr.mapNames f) }).map
          fun join => " " ++ join.toSql)).toList
      = (joins.map (Join.written f)).flatten := by
  rw [String.toList_join, List.flatMap_def, List.map_map, List.map_map]
  exact congrArg List.flatten (List.map_congr_left fun join _ => join_written f join)

theorem tables_written (tables : List TableRef) :
    (Select.listSql " FROM " ((tables.map (TableRef.mapNames f)).map TableRef.toSql)).toList
      = listWritten (' ' :: "FROM".toList) (tables.map (TableRef.written f)) := by
  rw [List.map_map, listSql_written "FROM" " FROM " (by simp)]
  exact congrArg _ (List.map_congr_left fun table _ => tableRef_written f table)

theorem groups_written (groups : List Expr) :
    (Select.listSql " GROUP BY " ((groups.map (Expr.mapNames f)).map Expr.toSql)).toList
      = listWritten (' ' :: "GROUP BY".toList) (groups.map (Expr.written f)) := by
  rw [List.map_map, listSql_written "GROUP BY" " GROUP BY " (by simp)]
  rfl

theorem orders_written (orders : List OrderItem) :
    (Select.listSql " ORDER BY " ((orders.map fun item =>
        { item with expr := item.expr.mapNames f }).map OrderItem.toSql)).toList
      = listWritten (' ' :: "ORDER BY".toList) (orders.map (OrderItem.written f)) := by
  rw [List.map_map, listSql_written "ORDER BY" " ORDER BY " (by simp)]
  exact congrArg _ (List.map_congr_left fun item _ => orderItem_written f item)

theorem toSql_clauses (select : Select) :
    select.toSql.toList = "SELECT ".toList
      ++ ((if select.distinct then "DISTINCT " else "").toList
      ++ ((", ".intercalate (select.items.map SelectItem.toSql)).toList
      ++ ((Select.listSql " FROM " (select.tables.map TableRef.toSql)).toList
      ++ ((String.join (select.joins.map fun join => " " ++ join.toSql)).toList
      ++ ((Select.conditionSql " WHERE " select.filter).toList
      ++ ((Select.listSql " GROUP BY " (select.groupBy.map Expr.toSql)).toList
      ++ ((Select.conditionSql " HAVING " select.having).toList
      ++ ((Select.listSql " ORDER BY " (select.orderBy.map OrderItem.toSql)).toList
      ++ select.page.toSql.toList)))))))) := by
  have pieces : ∀ a b c d e f g h i j : String,
      (a ++ b ++ c ++ d ++ e ++ f ++ g ++ h ++ i ++ j).toList
        = a.toList ++ (b.toList ++ (c.toList ++ (d.toList ++ (e.toList ++ (f.toList
          ++ (g.toList ++ (h.toList ++ (i.toList ++ j.toList)))))))) := by
    intros
    simp only [String.toList_append, List.append_assoc]
  exact pieces ..

theorem select_written (select : Select) :
    select.written f = "SELECT".toList
      ++ ((if select.distinct then ' ' :: "DISTINCT".toList else [])
      ++ (' ' :: commas (select.items.map (SelectItem.written f))
      ++ (listWritten (' ' :: "FROM".toList) (select.tables.map (TableRef.written f))
      ++ ((select.joins.map (Join.written f)).flatten
      ++ (conditionWritten f "WHERE" select.filter
      ++ (listWritten (' ' :: "GROUP BY".toList) (select.groupBy.map (Expr.written f))
      ++ (conditionWritten f "HAVING" select.having
      ++ (listWritten (' ' :: "ORDER BY".toList) (select.orderBy.map (OrderItem.written f))
      ++ select.page.written)))))))) := by
  rewrite [← page_written, ← items_written, ← tables_written, ← joins_written, ← groups_written,
    ← orders_written, ← conditionSql_written f "WHERE" " WHERE " (by simp),
    ← conditionSql_written f "HAVING" " HAVING " (by simp), List.cons_append, ← distinct_written]
  exact toSql_clauses (select.mapNames f)

end SelectWritten

end SqlDialects
