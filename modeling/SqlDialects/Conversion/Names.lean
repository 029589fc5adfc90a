import SqlDialects.Conversion.Note
import SqlDialects.Dialect
import SqlDialects.Sql.Select
import SqlDialects.Text.Requote

/-
The names of a query: columns, qualifiers, tables and aliases, but not functions. They are kept in
double quotes and get the target's quotes when that differs.
-/
namespace SqlDialects

mutual

def Expr.mapNames (f : String → String) : Expr → Expr
  | .call name args distinct bare => .call name (Expr.listMapNames f args) distinct bare
  | .binary left op right => .binary (left.mapNames f) op (right.mapNames f)
  | .column name => .column (f name)
  | .star qualifier => .star (qualifier.map f)
  | .group inner => .group (inner.mapNames f)
  | .not inner => .not (inner.mapNames f)
  | .negate inner => .negate (inner.mapNames f)
  | .isNull subject negated => .isNull (subject.mapNames f) negated
  | .inList subject values negated =>
    .inList (subject.mapNames f) (Expr.listMapNames f values) negated
  | .number text => .number text
  | .string value => .string value
  | .null => .null
  | .parameter text => .parameter text

def Expr.listMapNames (f : String → String) : List Expr → List Expr
  | [] => []
  | e :: rest => e.mapNames f :: Expr.listMapNames f rest

end

mutual

def Expr.names : Expr → List String
  | .call _ args _ _ => Expr.listNames args
  | .binary left _ right => left.names ++ right.names
  | .column name => [name]
  | .star qualifier => qualifier.toList
  | .group inner => inner.names
  | .not inner => inner.names
  | .negate inner => inner.names
  | .isNull subject _ => subject.names
  | .inList subject values _ => subject.names ++ Expr.listNames values
  | .number _ | .string _ | .null | .parameter _ => []

def Expr.listNames : List Expr → List String
  | [] => []
  | e :: rest => e.names ++ Expr.listNames rest

end

def TableRef.mapNames (f : String → String) (table : TableRef) : TableRef :=
  { name := f table.name, alias? := table.alias?.map f }

def TableRef.names (table : TableRef) : List String := table.name :: table.alias?.toList

namespace Select

def mapNames (f : String → String) (select : Select) : Select :=
  { select with
    items := select.items.map fun item =>
      { expr := item.expr.mapNames f, alias? := item.alias?.map f }
    tables := select.tables.map (TableRef.mapNames f)
    joins := select.joins.map fun join =>
      { join with table := join.table.mapNames f, on? := join.on?.map (Expr.mapNames f) }
    filter := select.filter.map (Expr.mapNames f)
    groupBy := select.groupBy.map (Expr.mapNames f)
    having := select.having.map (Expr.mapNames f)
    orderBy := select.orderBy.map fun item => { item with expr := item.expr.mapNames f } }

def names (select : Select) : List String :=
  select.items.flatMap (fun item => item.expr.names ++ item.alias?.toList)
    ++ select.tables.flatMap TableRef.names
    ++ select.joins.flatMap (fun join =>
      join.table.names ++ join.on?.toList.flatMap Expr.names)
    ++ select.filter.toList.flatMap Expr.names
    ++ select.groupBy.flatMap Expr.names
    ++ select.having.toList.flatMap Expr.names
    ++ select.orderBy.flatMap (fun item => item.expr.names)

end Select

def requotedName (quote : Char) (name : String) : String :=
  String.ofList (Text.requote '"' quote name.toList).1

def quotedParts (quote : Char) (name : String) : Nat := (Text.requote '"' quote name.toList).2

def Select.requoted (target : Dialect) (select : Select) : Select × List Note :=
  if target.quote = '"' then (select, [])
  else
    let count := (select.names.map (quotedParts target.quote)).foldr Nat.add 0
    (select.mapNames (requotedName target.quote),
      if count = 0 then [] else [.rule (toString count ++ " quoted identifier(s) requoted")])

end SqlDialects
