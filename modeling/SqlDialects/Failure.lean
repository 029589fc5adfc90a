/-
The ways in which a request can fail. Conversion itself never fails: what it cannot convert it
reports as a warning.
-/
namespace SqlDialects

inductive Failure where
  /-- There is no statement to convert. -/
  | emptyInput
  /-- The name is not that of a dialect. -/
  | unknownDialect (name : String)
  /-- The text is not a data type; reading stopped at the given byte. -/
  | invalidDataType (position : Nat) (text : String)
  /-- The settings file cannot be used. -/
  | settings (reason : String)
  deriving DecidableEq, Repr

def Failure.message : Failure → String
  | .emptyInput => "Empty input: no SQL statement found"
  | .unknownDialect name =>
    "Unknown dialect: '" ++ name ++ "'. Expected: tibero, mysql, postgresql, or oracle"
  | .invalidDataType position text =>
    "Parse error at position " ++ toString position ++ ": Invalid data type: '" ++ text ++ "'"
  | .settings reason => "Configuration error: " ++ reason

end SqlDialects
