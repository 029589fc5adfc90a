import SqlDialects.Text.Blank
import SqlDialects.Text.Basic

/-
Table definitions: columns with their types and specifications, keys, and table options.
-/
namespace SqlDialects

structure DataType where
  name : String
  precision : Option UInt32 := none
  scale : Option UInt32 := none
  deriving DecidableEq, Repr

def DataType.toSql (type : DataType) : String :=
  match type.precision, type.scale with
  | some p, some s => type.name ++ "(" ++ toString p.toNat ++ "," ++ toString s.toNat ++ ")"
  | some p, none => type.name ++ "(" ++ toString p.toNat ++ ")"
  | none, _ => type.name

structure Column where
  name : String
  type : DataType
  /-- What follows the type, in tokens. `DEFAULT` and its value are one token. -/
  specs : List String := []
  deriving DecidableEq, Repr

structure Index where
  kind : String
  name : Option String := none
  columns : List String := []
  deriving DecidableEq, Repr

def Index.isPrimaryKey (index : Index) : Bool :=
  let kind := Text.upper (" ".intercalate ((Text.words index.kind.toList).map String.ofList))
  Text.occursIn "PRIMARY KEY".toList kind.toList

structure TableDefinition where
  name : String
  columns : List Column
  indexes : List Index
  options : List String := []
  deriving DecidableEq, Repr

end SqlDialects
