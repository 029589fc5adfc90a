import SqlDialects.Failure
import SqlDialects.Text.Blank
import SqlDialects.Text.Basic

/-
The dialects: how each quotes identifiers, limits rows and which functions it has of its own.
-/
namespace SqlDialects

inductive Dialect where
  | tibero
  | mysql
  | postgresql
  | oracle
  deriving DecidableEq, Repr

inductive RowLimit where
  /-- `LIMIT n OFFSET m` -/
  | limit
  /-- `OFFSET m ROWS FETCH FIRST n ROWS ONLY` -/
  | fetchFirst
  deriving DecidableEq, Repr

namespace Dialect

def all : List Dialect := [.tibero, .mysql, .postgresql, .oracle]

def name : Dialect → String
  | .tibero => "TIBERO"
  | .mysql => "MYSQL"
  | .postgresql => "POSTGRESQL"
  | .oracle => "ORACLE"

def key (d : Dialect) : String := Text.lower d.name

def ofKey? (key : String) : Option Dialect := all.find? fun d => d.key == key

/-- Reads a dialect's name or a common short form, ignoring case and surrounding blanks. -/
def ofName (text : String) : Except Failure Dialect :=
  match Text.lower (String.ofList (Text.trim text.toList)) with
  | "tibero" => .ok .tibero
  | "mysql" | "mariadb" => .ok .mysql
  | "postgresql" | "postgres" | "pg" => .ok .postgresql
  | "oracle" => .ok .oracle
  | other => .error (.unknownDialect other)

def quote : Dialect → Char
  | .mysql => '\x60'
  | .tibero | .postgresql | .oracle => '"'

def quoteName (d : Dialect) (name : String) : String :=
  ".".intercalate ((Text.pieces '.' name.toList).map fun part =>
    String.ofList (Text.enclose d.quote part))

def rowLimit : Dialect → RowLimit
  | .mysql | .postgresql => .limit
  | .tibero | .oracle => .fetchFirst

def hasRownum : Dialect → Bool
  | .tibero | .oracle => true
  | .mysql | .postgresql => false

def functions : Dialect → List String
  | .tibero =>
    ["ABS", "ADD_MONTHS", "AVG", "CEIL", "COALESCE", "CONCAT", "COUNT", "DECODE", "FLOOR",
      "GREATEST", "INITCAP", "INSTR", "LAST_DAY", "LEAST", "LENGTH", "LISTAGG", "LOWER", "LPAD",
      "LTRIM", "MAX", "MIN", "MOD", "MONTHS_BETWEEN", "NVL", "NVL2", "REPLACE", "ROUND", "RPAD",
      "RTRIM", "SUBSTR", "SUM", "SYSDATE", "SYSTIMESTAMP", "TO_CHAR", "TO_DATE", "TO_NUMBER",
      "TRIM", "TRUNC", "UPPER"]
  | .oracle =>
    ["ABS", "ADD_MONTHS", "AVG", "CEIL", "COALESCE", "CONCAT", "COUNT", "DECODE", "FLOOR",
      "GREATEST", "INITCAP", "INSTR", "LAST_DAY", "LEAST", "LENGTH", "LISTAGG", "LOWER", "LPAD",
      "LTRIM", "MAX", "MIN", "MOD", "MONTHS_BETWEEN", "NVL", "NVL2", "REGEXP_LIKE",
      "REGEXP_REPLACE", "REPLACE", "ROUND", "RPAD", "RTRIM", "SUBSTR", "SUM", "SYSDATE",
      "SYSTIMESTAMP", "TO_CHAR", "TO_DATE", "TO_NUMBER", "TRIM", "TRUNC", "UPPER"]
  | .mysql =>
    ["ABS", "AVG", "CEIL", "CHAR_LENGTH", "COALESCE", "CONCAT", "CONCAT_WS", "COUNT", "CURDATE",
      "CURRENT_DATE", "CURRENT_TIMESTAMP", "DATE_ADD", "DATE_FORMAT", "DATE_SUB", "FLOOR",
      "GREATEST", "GROUP_CONCAT", "IF", "IFNULL", "INSTR", "LCASE", "LEAST", "LENGTH", "LOCATE",
      "LOWER", "LPAD", "LTRIM", "MAX", "MIN", "MOD", "NOW", "RAND", "REPLACE", "ROUND", "RPAD",
      "RTRIM", "STR_TO_DATE", "SUBSTR", "SUBSTRING", "SUM", "TRIM", "TRUNCATE", "UCASE", "UPPER"]
  | .postgresql =>
    ["ABS", "AVG", "CEIL", "COALESCE", "CONCAT", "COUNT", "CURRENT_DATE", "CURRENT_TIMESTAMP",
      "DATE_TRUNC", "FLOOR", "GREATEST", "INITCAP", "LEAST", "LENGTH", "LOWER", "LPAD", "LTRIM",
      "MAX", "MIN", "MOD", "NOW", "RANDOM", "REPLACE", "ROUND", "RPAD", "RTRIM", "STRING_AGG",
      "STRPOS", "SUBSTR", "SUBSTRING", "SUM", "TO_CHAR", "TO_DATE", "TO_NUMBER", "TO_TIMESTAMP",
      "TRIM", "TRUNC", "UPPER"]

def supports (d : Dialect) (function : String) : Bool := d.functions.contains (Text.upper function)

end Dialect

structure Pair where
  source : Dialect
  target : Dialect
  deriving DecidableEq, Repr

def Pair.isIdentity (pair : Pair) : Bool := pair.source == pair.target

def Pair.name (pair : Pair) : String := pair.source.name ++ " → " ++ pair.target.name

end SqlDialects
