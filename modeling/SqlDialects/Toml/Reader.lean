import SqlDialects.Reader.Basic
import SqlDialects.Reader.Lexeme
import SqlDialects.Toml.Value

/-
Reading TOML documents.
-/
namespace SqlDialects.Toml

open Reader (exactly option many separatedBy whenRead present finish stop)

/-! Blanks, line ends and comments. -/

def blanks : Reader Unit := fun s => .ok ((), s.dropWhile fun c => c == ' ' || c == '\t')

def newline : Reader Unit := exactly "\n" <|> exactly "\r\n"

def lineEnd : Reader Unit := newline <|> finish

/-- Characters that may stand in a line: no control characters but the tab. -/
def isLineCharacter (c : Char) : Bool := c == '\t' || (' ' ≤ c && c != '\x7f')

def comment : Reader Unit := do
  exactly "#"
  fun s => .ok ((), s.dropWhile isLineCharacter)

def lineRest : Reader Unit := do
  blanks
  let _ ← option comment
  lineEnd

def arrayGaps : Reader Unit := do
  let _ ← many (newline <|> comment <|> exactly " " <|> exactly "\t")

/-! Strings. -/

def character (test : Char → Bool) : Reader Char
  | [] => .error []
  | c :: rest => if test c then .ok (c, rest) else .error (c :: rest)

def isHexDigit (c : Char) : Bool := c.isDigit || ('a' ≤ c && c ≤ 'f') || ('A' ≤ c && c ≤ 'F')

def digitOf (c : Char) : Nat :=
  if c.isDigit then c.toNat - '0'.toNat else c.toLower.toNat - 'a'.toNat + 10

def valueOf (base : Nat) (ds : List Char) : Nat := ds.foldl (fun n c => n * base + digitOf c) 0

def codePoint (length : Nat) : Reader Char := fun s =>
  let ds := s.take length
  let code := valueOf 16 ds
  if ds.length = length && ds.all isHexDigit && code.isValidChar then
    .ok (Char.ofNat code, s.drop length)
  else .error s

def escape : Reader Char
  | 'b' :: rest => .ok ('\x08', rest)
  | 't' :: rest => .ok ('\t', rest)
  | 'n' :: rest => .ok ('\n', rest)
  | 'f' :: rest => .ok ('\x0c', rest)
  | 'r' :: rest => .ok ('\r', rest)
  | '"' :: rest => .ok ('"', rest)
  | '\\' :: rest => .ok ('\\', rest)
  | 'u' :: rest => codePoint 4 rest
  | 'U' :: rest => codePoint 8 rest
  | s => .error s

def basicCharacter : Reader Char :=
  (do exactly "\\"; escape) <|> character fun c => isLineCharacter c && c != '"' && c != '\\'

def basicString : Reader String := do
  exactly "\""
  let body ← many basicCharacter
  exactly "\""
  pure (String.ofList body)

def literalCharacter : Reader Char := character fun c => isLineCharacter c && c != '\x27'

def literalString : Reader String := do
  exactly "'"
  let body ← many literalCharacter
  exactly "'"
  pure (String.ofList body)

/-- The rest of a text in triple quotes. Up to two more quotes may stand before the closing ones. -/
def tripleRestWithin (quote : Char) (piece : Reader (List Char)) : List Char → Reader (List Char)
  | [] => stop
  | _ :: bound => fun s =>
    match (s.takeWhile (· == quote)).length with
    | 0 =>
      (do
        let first ← piece
        let rest ← tripleRestWithin quote piece bound
        pure (first ++ rest) : Reader (List Char)) s
    | run + 1 =>
      if run < 2 then
        (do
          let rest ← tripleRestWithin quote piece bound
          pure (List.replicate (run + 1) quote ++ rest) : Reader (List Char)) (s.drop (run + 1))
      else
        let extra := min (run - 2) 2
        .ok (List.replicate extra quote, s.drop (extra + 3))

def lineFeed : Reader (List Char) := do
  newline
  pure ['\n']

/-- A backslash at the end of a line joins it with what follows the blanks after it. -/
def joinedLines : Reader (List Char) := do
  exactly "\\"
  blanks
  newline
  let _ ← many (newline <|> exactly " " <|> exactly "\t")
  pure []

def tripleQuoted (quotes : String) (quote : Char) (piece : Reader (List Char)) : Reader String := do
  exactly quotes
  let _ ← option newline
  let body ← fun s => tripleRestWithin quote piece s s
  pure (String.ofList body)

def multilineBasic : Reader String :=
  tripleQuoted "\"\"\"" '"'
    (joinedLines <|> lineFeed <|> (do let c ← basicCharacter; pure [c]))

def multilineLiteral : Reader String :=
  tripleQuoted "'''" '\x27' (lineFeed <|> (do let c ← literalCharacter; pure [c]))

def string : Reader String := multilineBasic <|> basicString <|> multilineLiteral <|> literalString

/-! Numbers. -/

def digitRun (test : Char → Bool) : Reader (List Char) := do
  let first ← character test
  let rest ← many (do
    let _ ← option (exactly "_")
    character test)
  pure (first :: rest)

def sign : Reader Bool :=
  (do exactly "-"; pure true) <|> (do exactly "+"; pure false) <|> pure false

def decimalDigits : Reader (List Char) := whenRead (exactly "0") (fun _ => pure ['0'])
  (digitRun Char.isDigit)

def bounded (value : Int) : Reader Value :=
  if -0x8000000000000000 ≤ value ∧ value < 0x8000000000000000 then pure (.integer value) else stop

def integerIn (mark : String) (base : Nat) (test : Char → Bool) : Reader Value := do
  exactly mark
  let ds ← digitRun test
  bounded (valueOf base ds)

def integer : Reader Value :=
  integerIn "0x" 16 isHexDigit
    <|> integerIn "0o" 8 (fun c => '0' ≤ c && c ≤ '7')
    <|> integerIn "0b" 2 (fun c => c == '0' || c == '1')
    <|> (do
      let negative ← sign
      let ds ← decimalDigits
      bounded (if negative then -(valueOf 10 ds : Int) else valueOf 10 ds))

def exponent : Reader Int := do
  let _ ← character fun c => c == 'e' || c == 'E'
  let negative ← sign
  let ds ← digitRun Char.isDigit
  pure (if negative then -(valueOf 10 ds : Int) else valueOf 10 ds)

/-- Whether `digits · 10 ^ power` is beyond the numbers of double precision. -/
def isTooLarge (digits : Nat) (power : Int) : Bool :=
  let bound := Nat.pow 2 1024 - Nat.pow 2 970
  let size : Int := (Nat.toDigits 10 digits).length + power
  if digits = 0 || size < 300 then false
  else if 310 < size then true
  else if 0 ≤ power then bound ≤ digits * Nat.pow 10 power.toNat
  else bound * Nat.pow 10 (-power).toNat ≤ digits

def decimalFloat : Reader Unit := do
  let negative ← sign
  let whole ← decimalDigits
  let fraction ← option (do
    exactly "."
    digitRun Char.isDigit)
  let power ← option exponent
  let places := (fraction.getD []).length
  if fraction.isNone && power.isNone then stop
  else if !negative
      && isTooLarge (valueOf 10 (whole ++ fraction.getD [])) (power.getD 0 - places) then
    stop
  else pure ()

def specialFloat : Reader Unit := do
  let _ ← sign
  exactly "inf" <|> exactly "nan"

def asWritten (part : Reader Unit) : Reader String := fun s =>
  match part s with
  | .ok (_, rest) => .ok (String.ofList (s.take (s.length - rest.length)), rest)
  | .error stuck => .error stuck

/-! Dates and times. -/

def fixedNumber (length low high : Nat) : Reader Nat := fun s =>
  let ds := s.take length
  let value := valueOf 10 ds
  if ds.length = length && ds.all Char.isDigit && low ≤ value && value ≤ high then
    .ok (value, s.drop length)
  else .error s

def daysIn (year month : Nat) : Nat :=
  if month = 2 then
    if year % 4 = 0 ∧ (year % 100 ≠ 0 ∨ year % 400 = 0) then 29 else 28
  else if month = 4 ∨ month = 6 ∨ month = 9 ∨ month = 11 then 30
  else 31

def date : Reader Unit := do
  let year ← fixedNumber 4 0 9999
  exactly "-"
  let month ← fixedNumber 2 1 12
  exactly "-"
  let _ ← fixedNumber 2 1 (daysIn year month)

def time : Reader Unit := do
  let _ ← fixedNumber 2 0 23
  exactly ":"
  let _ ← fixedNumber 2 0 59
  exactly ":"
  let _ ← fixedNumber 2 0 60
  let _ ← option (do
    exactly "."
    Reader.digits)

def zone : Reader Unit :=
  exactly "Z" <|> exactly "z" <|> (do
    let _ ← character fun c => c == '+' || c == '-'
    let _ ← fixedNumber 2 0 23
    exactly ":"
    let _ ← fixedNumber 2 0 59)

def dateTime : Reader Unit :=
  (do
    date
    let _ ← option (do
      exactly "T" <|> exactly "t" <|> exactly " "
      time
      option zone))
    <|> time

/-! Values and keys. -/

def nestingLimit : Nat := 80

def bareKey : Reader String := do
  let cs ← fun s =>
    let test (c : Char) := c.isAlphanum || c == '-' || c == '_'
    match s.takeWhile test with
    | [] => .error s
    | cs => .ok (cs, s.dropWhile test)
  pure (String.ofList cs)

/-- The parts of a key, split into those before the last and the last. -/
def key : Reader (List String × String) := do
  let parts ← separatedBy (exactly ".") (do
    blanks
    let part ← basicString <|> literalString <|> bareKey
    blanks
    pure part)
  match parts.getLast? with
  | some last => if parts.length < nestingLimit then pure (parts.dropLast, last) else stop
  | none => stop

def scalar : Reader Value :=
  (do let text ← string; pure (.string text))
    <|> (do let text ← asWritten dateTime; pure (.dateTime text))
    <|> (do let text ← asWritten (decimalFloat <|> specialFloat); pure (.float text))
    <|> integer
    <|> (do exactly "true"; pure (.boolean true))
    <|> (do exactly "false"; pure (.boolean false))

section Containers

variable (value : Reader Value)

def array : Reader Value := do
  exactly "["
  let items ← option (do
    let items ← separatedBy (exactly ",") (do
      arrayGaps
      let item ← value
      arrayGaps
      pure item)
    let _ ← option (exactly ",")
    pure items)
  arrayGaps
  exactly "]"
  pure (.array (items.getD []))

def pair : Reader (List String × String × Value) := do
  let (path, last) ← key
  exactly "="
  blanks
  let value ← value
  pure (path, last, value)

def inlineTable : Reader Value := do
  exactly "\x7b"
  let pairs ← option (separatedBy (exactly ",") (do
    let entry ← pair value
    blanks
    pure entry))
  blanks
  exactly "\x7d"
  match tableOfPairs (pairs.getD []) with
  | some table => pure table
  | none => stop

end Containers

def valueWithin : Nat → Reader Value
  | 0 => scalar
  | depth + 1 => scalar <|> array (valueWithin depth) <|> inlineTable (valueWithin depth)

def value : Reader Value := valueWithin (nestingLimit - 1)

/-! Documents. -/

def line : Reader Line := do
  blanks
  (do newline; pure .blank)
    <|> (do comment; lineEnd; pure .blank)
    <|> (do
      exactly "[["
      let (path, last) ← key
      exactly "]]"
      lineRest
      pure (.elementHeader path last))
    <|> (do
      exactly "["
      let (path, last) ← key
      exactly "]"
      lineRest
      pure (.header path last))
    <|> (do
      let (path, last, value) ← pair value
      lineRest
      pure (.pair path last value))

def lines : Reader (List Line) := do
  let _ ← option (exactly "\ufeff")
  let lines ← many line
  blanks
  finish
  pure lines

/-- The table of values that a document holds; `none` if the text is not a document. -/
def ofText? (text : String) : Option Value :=
  match lines text.toList with
  | .error _ => none
  | .ok (found, _) =>
    (found.foldlM Document.add {}).map fun document => (Item.table .header document.entries).toValue

end SqlDialects.Toml
