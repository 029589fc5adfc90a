import SqlDialects.Conversion.Calls

/-
Warnings on parts of a query that mean something else in the target, or nothing at all.
-/
namespace SqlDialects

mutual

/-- Whether an expression uses an operator. The subjects of `IS NULL` and `IN`, and the values of
`IN`, are not looked at. -/
def Expr.usesOperator (op : BinaryOp) : Expr → Bool
  | .binary left used right => used == op || left.usesOperator op || right.usesOperator op
  | .call _ args _ _ => Expr.anyUsesOperator op args
  | .group inner => inner.usesOperator op
  | .not inner => inner.usesOperator op
  | .negate inner => inner.usesOperator op
  | _ => false

def Expr.anyUsesOperator (op : BinaryOp) : List Expr → Bool
  | [] => false
  | e :: rest => e.usesOperator op || Expr.anyUsesOperator op rest

end

namespace Select

def usesOperator (op : BinaryOp) (select : Select) : Bool :=
  select.items.any (fun item => item.expr.usesOperator op)
    || select.filter.any (Expr.usesOperator op)

def quoteNotes (pair : Pair) : List Note :=
  if pair.source.quote = pair.target.quote then []
  else
    [.warn
      { kind := .syntaxDifference
        severity := .info
        message := pair.target.name ++ " quotes identifiers with " ++ pair.target.quote.toString
          ++ " instead of " ++ pair.source.quote.toString
          ++ "; check names that relied on quoting" }]

def mentionsRownum (select : Select) : Bool :=
  select.visited.any fun
    | .column name => Text.sameIgnoringCase name "ROWNUM"
    | _ => false

def rownumNotes (pair : Pair) (select : Select) : List Note :=
  if !pair.source.hasRownum || !select.mentionsRownum then []
  else if pair.target.hasRownum then [.kept "ROWNUM kept"]
  else
    [.warn
      { kind := .unsupportedConstruct
        severity := .warning
        message := "ROWNUM is not available in " ++ pair.target.name
        suggestion := some <|
          if pair.target = .mysql then "use LIMIT n, or ROW_NUMBER() OVER (ORDER BY ...) on MySQL 8"
          else "use LIMIT n, or ROW_NUMBER() OVER (ORDER BY ...)" }]

def dualNotes (pair : Pair) (select : Select) : List Note :=
  if pair.target = .postgresql
      && select.tables.any (fun table => Text.sameIgnoringCase table.name "DUAL") then
    [.warn
      { kind := .partialSupport
        severity := .info
        message := "PostgreSQL has no DUAL table"
        suggestion := some "drop the FROM DUAL clause" }]
  else []

def pipesNotes (pair : Pair) (select : Select) : List Note :=
  if pair.source.hasRownum && pair.target = .mysql && select.usesOperator .concat then
    [.warn
      { kind := .partialSupport
        severity := .info
        message := "|| is logical OR in MySQL unless PIPES_AS_CONCAT is set"
        suggestion := some "CONCAT(a, b)" }]
  else []

def partialNotes (pair : Pair) (select : Select) : List Note :=
  dualNotes pair select ++ pipesNotes pair select

def orNotes (target : Dialect) (select : Select) : List Note :=
  if select.usesOperator .concat then
    [.warn
      { kind := .syntaxDifference
        severity := .warning
        message := "|| means OR in MySQL but string concatenation in " ++ target.name
        suggestion := some "use OR, or CONCAT(a, b) if PIPES_AS_CONCAT was enabled" }]
  else []

def ilikeNotes (target : Dialect) (select : Select) : List Note :=
  if !select.usesOperator .ilike then []
  else if target = .mysql then
    [.warn
      { kind := .partialSupport
        severity := .info
        message := "ILIKE rewritten to LIKE; case-insensitivity depends on the column collation" }]
  else
    [.warn
      { kind := .syntaxDifference
        severity := .warning
        message := "ILIKE is not available in " ++ target.name
        suggestion := some "UPPER(a) LIKE UPPER(b)" }]

end Select

end SqlDialects
