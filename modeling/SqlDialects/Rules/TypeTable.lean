import SqlDialects.Dialect
import SqlDialects.Sql.Table

/-
Which data type of one dialect stands for a data type of another. A type without an entry stays as
it is.
-/
namespace SqlDialects

inductive TypeParameters where
  /-- Both are kept, also when missing. -/
  | keep
  /-- Both are kept, with a precision for a type that has none. -/
  | keepOr (precision : UInt32)
  /-- The target type takes none. -/
  | drop
  /-- The target type has parameters of its own. -/
  | fixed (precision : UInt32) (scale : Option UInt32)
  deriving DecidableEq, Repr

structure TypeMapping where
  /-- The name in the source dialect, in upper case. -/
  source : String
  target : String
  parameters : TypeParameters
  deriving DecidableEq, Repr

namespace TypeMapping

def apply (mapping : TypeMapping) (type : DataType) : DataType :=
  match mapping.parameters with
  | .keep => { type with name := mapping.target }
  | .keepOr precision =>
    { type with name := mapping.target, precision := some (type.precision.getD precision) }
  | .drop => { name := mapping.target }
  | .fixed precision scale => { name := mapping.target, precision := some precision, scale }

def oracleToMysql : List TypeMapping :=
  [⟨"NUMBER", "DECIMAL", .keep⟩, ⟨"VARCHAR2", "VARCHAR", .keepOr 255⟩,
    ⟨"NVARCHAR2", "VARCHAR", .keepOr 255⟩, ⟨"CHAR", "CHAR", .keepOr 1⟩,
    ⟨"NCHAR", "CHAR", .keepOr 1⟩, ⟨"DATE", "DATETIME", .drop⟩, ⟨"TIMESTAMP", "DATETIME", .keep⟩,
    ⟨"CLOB", "LONGTEXT", .drop⟩, ⟨"NCLOB", "LONGTEXT", .drop⟩, ⟨"LONG", "LONGTEXT", .drop⟩,
    ⟨"BLOB", "LONGBLOB", .drop⟩, ⟨"LONG RAW", "LONGBLOB", .drop⟩,
    ⟨"RAW", "VARBINARY", .keepOr 255⟩, ⟨"FLOAT", "DOUBLE", .drop⟩,
    ⟨"BINARY_FLOAT", "FLOAT", .drop⟩, ⟨"BINARY_DOUBLE", "DOUBLE", .drop⟩,
    ⟨"INTEGER", "INT", .drop⟩]

def oracleToPostgresql : List TypeMapping :=
  [⟨"NUMBER", "NUMERIC", .keep⟩, ⟨"VARCHAR2", "VARCHAR", .keepOr 255⟩,
    ⟨"NVARCHAR2", "VARCHAR", .keepOr 255⟩, ⟨"CHAR", "CHAR", .keepOr 1⟩,
    ⟨"NCHAR", "CHAR", .keepOr 1⟩, ⟨"DATE", "TIMESTAMP", .drop⟩, ⟨"CLOB", "TEXT", .drop⟩,
    ⟨"NCLOB", "TEXT", .drop⟩, ⟨"LONG", "TEXT", .drop⟩, ⟨"BLOB", "BYTEA", .drop⟩,
    ⟨"RAW", "BYTEA", .drop⟩, ⟨"LONG RAW", "BYTEA", .drop⟩, ⟨"FLOAT", "DOUBLE PRECISION", .drop⟩,
    ⟨"BINARY_FLOAT", "REAL", .drop⟩, ⟨"BINARY_DOUBLE", "DOUBLE PRECISION", .drop⟩]

def mysqlToPostgresql : List TypeMapping :=
  [⟨"INT", "INTEGER", .drop⟩, ⟨"INTEGER", "INTEGER", .drop⟩, ⟨"TINYINT", "SMALLINT", .drop⟩,
    ⟨"SMALLINT", "SMALLINT", .drop⟩, ⟨"MEDIUMINT", "INTEGER", .drop⟩, ⟨"BIGINT", "BIGINT", .drop⟩,
    ⟨"DATETIME", "TIMESTAMP", .keep⟩, ⟨"DOUBLE", "DOUBLE PRECISION", .drop⟩,
    ⟨"FLOAT", "REAL", .drop⟩, ⟨"DECIMAL", "NUMERIC", .keep⟩, ⟨"TINYTEXT", "TEXT", .drop⟩,
    ⟨"MEDIUMTEXT", "TEXT", .drop⟩, ⟨"LONGTEXT", "TEXT", .drop⟩, ⟨"BLOB", "BYTEA", .drop⟩,
    ⟨"MEDIUMBLOB", "BYTEA", .drop⟩, ⟨"LONGBLOB", "BYTEA", .drop⟩, ⟨"VARBINARY", "BYTEA", .drop⟩]

def mysqlToOracle : List TypeMapping :=
  [⟨"INT", "NUMBER", .fixed 10 none⟩, ⟨"INTEGER", "NUMBER", .fixed 10 none⟩,
    ⟨"BIGINT", "NUMBER", .fixed 19 none⟩, ⟨"MEDIUMINT", "NUMBER", .fixed 7 none⟩,
    ⟨"SMALLINT", "NUMBER", .fixed 5 none⟩, ⟨"TINYINT", "NUMBER", .fixed 3 none⟩,
    ⟨"DECIMAL", "NUMBER", .keep⟩, ⟨"VARCHAR", "VARCHAR2", .keepOr 255⟩, ⟨"TEXT", "CLOB", .drop⟩,
    ⟨"MEDIUMTEXT", "CLOB", .drop⟩, ⟨"LONGTEXT", "CLOB", .drop⟩, ⟨"BLOB", "BLOB", .drop⟩,
    ⟨"LONGBLOB", "BLOB", .drop⟩, ⟨"DATETIME", "TIMESTAMP", .keep⟩,
    ⟨"DOUBLE", "BINARY_DOUBLE", .drop⟩, ⟨"FLOAT", "BINARY_FLOAT", .drop⟩]

def postgresqlToMysql : List TypeMapping :=
  [⟨"INTEGER", "INT", .drop⟩, ⟨"INT4", "INT", .drop⟩, ⟨"INT8", "BIGINT", .drop⟩,
    ⟨"SERIAL", "INT", .drop⟩, ⟨"BIGSERIAL", "BIGINT", .drop⟩, ⟨"TEXT", "LONGTEXT", .drop⟩,
    ⟨"BYTEA", "LONGBLOB", .drop⟩, ⟨"TIMESTAMP", "DATETIME", .keep⟩,
    ⟨"BOOLEAN", "TINYINT", .fixed 1 none⟩, ⟨"NUMERIC", "DECIMAL", .keep⟩,
    ⟨"DOUBLE PRECISION", "DOUBLE", .drop⟩, ⟨"REAL", "FLOAT", .drop⟩,
    ⟨"CHARACTER VARYING", "VARCHAR", .keepOr 255⟩, ⟨"UUID", "CHAR", .fixed 36 none⟩,
    ⟨"JSONB", "JSON", .drop⟩]

def postgresqlToOracle : List TypeMapping :=
  [⟨"INTEGER", "NUMBER", .fixed 10 none⟩, ⟨"INT4", "NUMBER", .fixed 10 none⟩,
    ⟨"BIGINT", "NUMBER", .fixed 19 none⟩, ⟨"INT8", "NUMBER", .fixed 19 none⟩,
    ⟨"SMALLINT", "NUMBER", .fixed 5 none⟩, ⟨"SERIAL", "NUMBER", .fixed 10 none⟩,
    ⟨"BIGSERIAL", "NUMBER", .fixed 19 none⟩, ⟨"NUMERIC", "NUMBER", .keep⟩,
    ⟨"VARCHAR", "VARCHAR2", .keepOr 255⟩, ⟨"CHARACTER VARYING", "VARCHAR2", .keepOr 255⟩,
    ⟨"TEXT", "CLOB", .drop⟩, ⟨"BYTEA", "BLOB", .drop⟩, ⟨"BOOLEAN", "NUMBER", .fixed 1 none⟩,
    ⟨"DOUBLE PRECISION", "BINARY_DOUBLE", .drop⟩, ⟨"REAL", "BINARY_FLOAT", .drop⟩,
    ⟨"UUID", "VARCHAR2", .fixed 36 none⟩]

/-- The type table of a pair. Tibero and Oracle share theirs and need none between them. -/
def table (pair : Pair) : List TypeMapping :=
  match pair.source, pair.target with
  | .tibero, .mysql | .oracle, .mysql => oracleToMysql
  | .tibero, .postgresql | .oracle, .postgresql => oracleToPostgresql
  | .mysql, .tibero | .mysql, .oracle => mysqlToOracle
  | .postgresql, .tibero | .postgresql, .oracle => postgresqlToOracle
  | .mysql, .postgresql => mysqlToPostgresql
  | .postgresql, .mysql => postgresqlToMysql
  | _, _ => []

end TypeMapping

def DataType.mapped (pair : Pair) (type : DataType) : DataType :=
  match (TypeMapping.table pair).find? fun mapping => mapping.source == Text.upper type.name with
  | some mapping => mapping.apply type
  | none => type

end SqlDialects
