import SqlDialects.Text.Basic

/-
Expressions of a query and their canonical text.
-/
namespace SqlDialects

inductive BinaryOp where
  | or | and
  | eq | ne | lt | le | gt | ge | like | notLike | ilike
  | plus | minus | concat
  | times | divide | modulo
  deriving DecidableEq, Repr

def BinaryOp.toSql : BinaryOp → String
  | .or => "OR"
  | .and => "AND"
  | .eq => "="
  | .ne => "<>"
  | .lt => "<"
  | .le => "<="
  | .gt => ">"
  | .ge => ">="
  | .like => "LIKE"
  | .notLike => "NOT LIKE"
  | .ilike => "ILIKE"
  | .plus => "+"
  | .minus => "-"
  | .concat => "||"
  | .times => "*"
  | .divide => "/"
  | .modulo => "%"

/-- Names are kept as written. A quoted part of a name keeps its quotes. -/
inductive Expr where
  /-- A function call. A bare call is one written without parentheses. -/
  | call (name : String) (args : List Expr) (distinct bare : Bool)
  | binary (left : Expr) (op : BinaryOp) (right : Expr)
  /-- A column or pseudo-column, possibly dotted. -/
  | column (name : String)
  /-- A number, as written. -/
  | number (text : String)
  /-- A string literal, without its quotes. -/
  | string (value : String)
  | null
  /-- `*`, or `t.*` for a qualifier `t`. -/
  | star (qualifier : Option String)
  /-- A bind parameter, as written. -/
  | parameter (text : String)
  /-- An expression in parentheses. -/
  | group (inner : Expr)
  | not (inner : Expr)
  | negate (inner : Expr)
  | isNull (subject : Expr) (negated : Bool)
  | inList (subject : Expr) (values : List Expr) (negated : Bool)

def niladicFunctions : List String :=
  ["SYSDATE", "SYSTIMESTAMP", "CURRENT_DATE", "CURRENT_TIME", "CURRENT_TIMESTAMP",
    "LOCALTIMESTAMP"]

def isNiladic (name : String) : Bool := niladicFunctions.any (Text.sameIgnoringCase name)

def callSql (name : String) (args : List String) (distinct bare : Bool) : String :=
  if bare && args.isEmpty then name
  else name ++ "(" ++ (if distinct then "DISTINCT " else "") ++ ", ".intercalate args ++ ")"

mutual

def Expr.toSql : Expr → String
  | .call name args distinct bare => callSql name (Expr.listToSql args) distinct bare
  | .binary left op right => left.toSql ++ " " ++ op.toSql ++ " " ++ right.toSql
  | .column name => name
  | .number text => text
  | .string value => Text.enclosed '\x27' value
  | .null => "NULL"
  | .star none => "*"
  | .star (some qualifier) => qualifier ++ ".*"
  | .parameter text => text
  | .group inner => "(" ++ inner.toSql ++ ")"
  | .not inner => "NOT " ++ inner.toSql
  | .negate inner => "-" ++ inner.toSql
  | .isNull subject negated => subject.toSql ++ (if negated then " IS NOT NULL" else " IS NULL")
  | .inList subject values negated =>
    subject.toSql ++ (if negated then " NOT IN (" else " IN (")
      ++ ", ".intercalate (Expr.listToSql values) ++ ")"

def Expr.listToSql : List Expr → List String
  | [] => []
  | e :: rest => e.toSql :: Expr.listToSql rest

end

structure Call where
  name : String
  args : List Expr
  distinct : Bool := false
  bare : Bool := false

namespace Call

def toExpr (call : Call) : Expr := .call call.name call.args call.distinct call.bare

def toSql (call : Call) : String := call.toExpr.toSql

/-- Gives a call another name; it is then bare if it has no arguments and the new name is that of
a function written without parentheses. -/
def rename (call : Call) (name : String) : Call :=
  { call with name, bare := call.args.isEmpty && isNiladic name }

end Call

end SqlDialects
