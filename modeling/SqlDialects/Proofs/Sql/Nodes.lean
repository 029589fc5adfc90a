import Mathlib
import SqlDialects.Sql.Select

/-
The nodes of the expressions of a query, each before the nodes below it, in the order in which they
are written.
-/
namespace SqlDialects

mutual

def Expr.nodes : Expr → List Expr
  | .call name args distinct bare => .call name args distinct bare :: Expr.listNodes args
  | .binary left op right => .binary left op right :: (left.nodes ++ right.nodes)
  | .group inner => .group inner :: inner.nodes
  | .not inner => .not inner :: inner.nodes
  | .negate inner => .negate inner :: inner.nodes
  | .isNull subject negated => .isNull subject negated :: subject.nodes
  | .inList subject values negated =>
    .inList subject values negated :: (subject.nodes ++ Expr.listNodes values)
  | .column name => [.column name]
  | .number text => [.number text]
  | .string value => [.string value]
  | .null => [.null]
  | .star qualifier => [.star qualifier]
  | .parameter text => [.parameter text]

def Expr.listNodes : List Expr → List Expr
  | [] => []
  | e :: rest => e.nodes ++ Expr.listNodes rest

end

def Select.exprs (select : Select) : List Expr :=
  select.items.map SelectItem.expr ++ select.joins.filterMap Join.on? ++ select.filter.toList
    ++ select.groupBy ++ select.having.toList ++ select.orderBy.map OrderItem.expr

def Select.nodes (select : Select) : List Expr := select.exprs.flatMap Expr.nodes

theorem Select.mem_exprs {select : Select} {e : Expr} :
    e ∈ select.exprs ↔ (∃ item ∈ select.items, item.expr = e) ∨ (∃ join ∈ select.joins, e ∈ join.on?)
      ∨ e ∈ select.filter ∨ e ∈ select.groupBy ∨ e ∈ select.having
      ∨ ∃ item ∈ select.orderBy, item.expr = e := by
  simp [Select.exprs]

theorem Expr.mem_nodes (e : Expr) : e ∈ e.nodes := by
  cases e <;> exact List.mem_cons_self

theorem Expr.listNodes_eq (es : List Expr) : Expr.listNodes es = es.flatMap Expr.nodes := by
  induction es with
  | nil => rfl
  | cons e es ih => rw [Expr.listNodes, ih, List.flatMap_cons]

end SqlDialects
