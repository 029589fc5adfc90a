import SqlDialects.Failure
import SqlDialects.Reader.Lexeme
import SqlDialects.Sql.Table
import SqlDialects.Text.Blank

/-
Reading data types such as `NUMBER(10,2)` or `DOUBLE PRECISION`.
-/
namespace SqlDialects

namespace Reader

def typeSuffixes : List String := ["PRECISION", "VARYING", "RAW"]

/-- A type parameter: digits behind an optional plus sign that fit 32 bits. -/
def parameterValue? (word : List Char) : Option UInt32 :=
  let ds := match word with
    | '+' :: rest => rest
    | _ => word
  if !ds.isEmpty && ds.all Char.isDigit && digitsValue ds < UInt32.size then
    some (UInt32.ofNat (digitsValue ds))
  else none

/-- One argument of a type. Its first word is the parameter, if that is a number. -/
def typeArgument : Reader (Option UInt32) := do
  gaps
  fun s =>
    match s.takeWhile fun c => c != ',' && c != ')' with
    | [] => .error s
    | text =>
      .ok ((Text.words text).head?.bind parameterValue?,
        s.dropWhile fun c => c != ',' && c != ')')

def typeSuffix : Reader String := do
  gaps
  wordWhere fun word => typeSuffixes.any (Text.sameIgnoringCase word)

def typeArguments : Reader (List (Option UInt32)) := do
  symbol "("
  let args ← separatedBy (symbol ",") typeArgument
  symbol ")"
  pure args

def dataType : Reader DataType := do
  gaps
  let first ← bareWord
  let second ← option typeSuffix
  let args ← option typeArguments
  let args := args.getD []
  pure
    { name := match second with
        | some word => Text.upper first ++ " " ++ Text.upper word
        | none => Text.upper first
      precision := args[0]?.join
      scale := args[1]?.join }

end Reader

namespace DataType

def byteLength (s : List Char) : Nat := (s.map Char.utf8Size).foldr Nat.add 0

/-- Reads a text that holds a data type and nothing else. A failure tells the byte at which reading
stopped. -/
def ofText (text : String) : Except Failure DataType :=
  let trimmed := Text.trim text.toList
  match (do
      let type ← Reader.dataType
      Reader.gaps
      Reader.finish
      pure type : Reader DataType) trimmed with
  | .ok (type, _) => .ok type
  | .error stuck =>
    .error (.invalidDataType (byteLength trimmed - byteLength stuck) (String.ofList trimmed))

end DataType

end SqlDialects
