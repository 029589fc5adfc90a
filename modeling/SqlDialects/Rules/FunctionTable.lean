import SqlDialects.Dialect

/-
What becomes of the built-in functions of one dialect in another.
-/
namespace SqlDialects

inductive FunctionAction where
  /-- The same function under another name. -/
  | rename (target : String)
  /-- A function of another name that differs in a known way. -/
  | approximate (target note : String)
  /-- No single function does the same. -/
  | unsupported (suggestion : String)
  /-- The target has the function under the same name. -/
  | native
  deriving DecidableEq, Repr

def FunctionAction.target? : FunctionAction → Option String
  | .rename target => some target
  | .approximate target _ => some target
  | .unsupported _ | .native => none

structure FunctionMapping where
  /-- The name in the source dialect, in upper case. -/
  source : String
  action : FunctionAction
  deriving DecidableEq, Repr

namespace FunctionMapping

def caseSuggestion : String := "rewrite as CASE WHEN ... THEN ... ELSE ... END"

def oracleToMysql : List FunctionMapping :=
  [⟨"SYSDATE", .rename "NOW"⟩,
    ⟨"SYSTIMESTAMP", .rename "NOW"⟩,
    ⟨"NVL", .approximate "IFNULL" "IFNULL result type follows MySQL coercion rules"⟩,
    ⟨"NVL2", .unsupported "CASE WHEN x IS NOT NULL THEN a ELSE b END"⟩,
    ⟨"DECODE", .unsupported caseSuggestion⟩,
    ⟨"TO_CHAR", .unsupported "DATE_FORMAT(date, format) with MySQL format specifiers"⟩,
    ⟨"TO_DATE", .approximate "STR_TO_DATE"
      "STR_TO_DATE uses MySQL format specifiers; check the format argument"⟩,
    ⟨"TO_NUMBER", .unsupported "CAST(x AS DECIMAL(p,s))"⟩,
    ⟨"LISTAGG", .unsupported "GROUP_CONCAT(expr ORDER BY ... SEPARATOR ',')"⟩,
    ⟨"SUBSTR", .native⟩,
    ⟨"INSTR", .native⟩]

def oracleToPostgresql : List FunctionMapping :=
  [⟨"SYSDATE", .rename "CURRENT_TIMESTAMP"⟩,
    ⟨"SYSTIMESTAMP", .rename "CURRENT_TIMESTAMP"⟩,
    ⟨"NVL", .approximate "COALESCE" "COALESCE requires both arguments to share a type"⟩,
    ⟨"NVL2", .unsupported "CASE WHEN x IS NOT NULL THEN a ELSE b END"⟩,
    ⟨"DECODE", .unsupported caseSuggestion⟩,
    ⟨"TO_CHAR", .native⟩,
    ⟨"TO_DATE", .native⟩,
    ⟨"TO_NUMBER", .native⟩,
    ⟨"SUBSTR", .native⟩,
    ⟨"INSTR", .approximate "STRPOS" "STRPOS takes no start position or occurrence arguments"⟩,
    ⟨"LISTAGG", .approximate "STRING_AGG"
      "WITHIN GROUP ordering becomes ORDER BY inside STRING_AGG"⟩]

def mysqlToPostgresql : List FunctionMapping :=
  [⟨"IFNULL", .rename "COALESCE"⟩,
    ⟨"RAND", .rename "RANDOM"⟩,
    ⟨"LCASE", .rename "LOWER"⟩,
    ⟨"UCASE", .rename "UPPER"⟩,
    ⟨"CHAR_LENGTH", .rename "LENGTH"⟩,
    ⟨"NOW", .native⟩,
    ⟨"IF", .unsupported caseSuggestion⟩,
    ⟨"GROUP_CONCAT", .unsupported "STRING_AGG(expr, ',')"⟩,
    ⟨"DATE_FORMAT", .unsupported "TO_CHAR(date, format) with PostgreSQL format patterns"⟩]

def mysqlToOracle : List FunctionMapping :=
  [⟨"IFNULL", .rename "NVL"⟩,
    ⟨"NOW", .approximate "SYSDATE" "SYSDATE has no fractional seconds"⟩,
    ⟨"LCASE", .rename "LOWER"⟩,
    ⟨"UCASE", .rename "UPPER"⟩,
    ⟨"SUBSTRING", .rename "SUBSTR"⟩,
    ⟨"CHAR_LENGTH", .rename "LENGTH"⟩,
    ⟨"IF", .unsupported caseSuggestion⟩,
    ⟨"GROUP_CONCAT", .unsupported "LISTAGG(expr, ',') WITHIN GROUP (ORDER BY ...)"⟩,
    ⟨"DATE_FORMAT", .unsupported "TO_CHAR(date, format) with Oracle format models"⟩,
    ⟨"RAND", .unsupported "DBMS_RANDOM.VALUE"⟩]

def postgresqlToMysql : List FunctionMapping :=
  [⟨"RANDOM", .rename "RAND"⟩,
    ⟨"STRPOS", .approximate "LOCATE" "LOCATE takes the needle first; swap the arguments"⟩,
    ⟨"STRING_AGG", .unsupported "GROUP_CONCAT(expr SEPARATOR ',')"⟩,
    ⟨"TO_CHAR", .unsupported "DATE_FORMAT(date, format) with MySQL format specifiers"⟩,
    ⟨"DATE_TRUNC", .unsupported "DATE_FORMAT or DATE(x) depending on the unit"⟩,
    ⟨"COALESCE", .native⟩]

def postgresqlToOracle : List FunctionMapping :=
  [⟨"NOW", .approximate "SYSDATE" "SYSDATE has no fractional seconds"⟩,
    ⟨"STRING_AGG", .approximate "LISTAGG" "LISTAGG needs WITHIN GROUP (ORDER BY ...)"⟩,
    ⟨"SUBSTRING", .rename "SUBSTR"⟩,
    ⟨"STRPOS", .rename "INSTR"⟩,
    ⟨"RANDOM", .unsupported "DBMS_RANDOM.VALUE"⟩,
    ⟨"DATE_TRUNC", .unsupported "TRUNC(date, 'unit')"⟩,
    ⟨"TO_CHAR", .native⟩]

/-- The function table of a pair. Tibero and Oracle share theirs and need none between them. -/
def table (pair : Pair) : List FunctionMapping :=
  match pair.source, pair.target with
  | .tibero, .mysql | .oracle, .mysql => oracleToMysql
  | .tibero, .postgresql | .oracle, .postgresql => oracleToPostgresql
  | .mysql, .tibero | .mysql, .oracle => mysqlToOracle
  | .postgresql, .tibero | .postgresql, .oracle => postgresqlToOracle
  | .mysql, .postgresql => mysqlToPostgresql
  | .postgresql, .mysql => postgresqlToMysql
  | _, _ => []

def lookup? (pair : Pair) (name : String) : Option FunctionMapping :=
  (table pair).find? fun mapping => mapping.source == Text.upper name

end FunctionMapping

end SqlDialects
