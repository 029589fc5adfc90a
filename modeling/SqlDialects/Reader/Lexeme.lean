import SqlDialects.Reader.Basic
import SqlDialects.Text.Alphabetic
import SqlDialects.Text.Basic
import SqlDialects.Text.Numeric

/-
The smallest parts of a statement: gaps, keywords, symbols, names, numbers.
-/
namespace SqlDialects.Reader

/-! Gaps are blanks, tabs, line ends and comments. -/

/-- What follows a line comment, which ends before a line feed, alone or behind a carriage return.
A carriage return without a line feed cannot stand in a line comment. -/
def afterLineComment (s : List Char) : Option (List Char) :=
  match s.dropWhile fun c => c != '\r' && c != '\n' with
  | '\r' :: '\n' :: rest => some ('\r' :: '\n' :: rest)
  | '\r' :: _ => none
  | rest => some rest

def afterBlockComment : List Char → Option (List Char)
  | '*' :: '/' :: rest => some rest
  | _ :: rest => afterBlockComment rest
  | [] => none

def afterGap : List Char → Option (List Char)
  | ' ' :: rest => some rest
  | '\t' :: rest => some rest
  | '\r' :: rest => some rest
  | '\n' :: rest => some rest
  | '-' :: '-' :: rest => afterLineComment rest
  | '/' :: '*' :: rest => afterBlockComment rest
  | _ => none

def skipGapsWithin : List Char → List Char → List Char
  | [], s => s
  | _ :: bound, s =>
    match afterGap s with
    | some rest => skipGapsWithin bound rest
    | none => s

def skipGaps (s : List Char) : List Char := skipGapsWithin s s

def gaps : Reader Unit := fun s => .ok ((), skipGaps s)

/-! Symbols and keywords may have gaps in front of them. -/

def dropText : List Char → List Char → Option (List Char)
  | [], s => some s
  | _ :: _, [] => none
  | t :: ts, c :: s => if c = t then dropText ts s else none

def dropWord : List Char → List Char → Option (List Char)
  | [], s => some s
  | _ :: _, [] => none
  | w :: ws, c :: s => if c.toUpper = w.toUpper then dropWord ws s else none

def exactly (text : String) : Reader Unit := fun s =>
  match dropText text.toList s with
  | some rest => .ok ((), rest)
  | none => .error s

def symbol (text : String) : Reader Unit := do
  gaps
  exactly text

def isNameCharacter (c : Char) : Bool :=
  Text.isAlphabetic c || Text.isNumeric c || c == '_' || c == '$' || c == '#'

def isNameStart (c : Char) : Bool := Text.isAlphabetic c || c == '_'

def wordEnd : Reader Unit
  | [] => .ok ((), [])
  | c :: rest => if isNameCharacter c then .error (c :: rest) else .ok ((), c :: rest)

def keyword (word : String) : Reader Unit := do
  gaps
  (fun s =>
    match dropWord word.toList s with
    | some rest => .ok ((), rest)
    | none => .error s)
  wordEnd

/-! Names. -/

def bareWord : Reader String
  | [] => .error []
  | c :: rest =>
    if isNameStart c then
      .ok (String.ofList (c :: rest.takeWhile isNameCharacter), rest.dropWhile isNameCharacter)
    else .error (c :: rest)

/-- The text up to the closing quote, where a doubled quote stands for one. -/
def quotedRest (quote : Char) : Reader (List Char)
  | [] => .error []
  | c :: rest =>
    if c = quote then
      match rest with
      | [] => .ok ([], [])
      | d :: more =>
        if d = quote then
          match quotedRest quote more with
          | .ok (body, after) => .ok (quote :: body, after)
          | .error stuck => .error stuck
        else .ok ([], d :: more)
    else
      match quotedRest quote rest with
      | .ok (body, after) => .ok (c :: body, after)
      | .error stuck => .error stuck

def quoted (quote : Char) : Reader String
  | [] => .error []
  | c :: rest =>
    if c = quote then
      match quotedRest quote rest with
      | .ok (body, after) => .ok (String.ofList body, after)
      | .error stuck => .error stuck
    else .error (c :: rest)

def reservedWords : List String :=
  ["ALL", "AND", "AS", "ASC", "BETWEEN", "BY", "CASE", "CROSS", "DESC", "DISTINCT", "ELSE",
    "END", "EXCEPT", "EXISTS", "FETCH", "FROM", "FULL", "GROUP", "HAVING", "ILIKE", "IN",
    "INNER", "INTERSECT", "IS", "JOIN", "LEFT", "LIKE", "LIMIT", "MINUS", "NOT", "NULL",
    "OFFSET", "ON", "OR", "ORDER", "OUTER", "RIGHT", "SELECT", "THEN", "UNION", "WHEN",
    "WHERE", "WITH"]

def isReserved (word : String) : Bool := reservedWords.any (Text.sameIgnoringCase word)

/-- A word that passes a test; reading stops in front of one that does not. -/
def wordWhere (test : String → Bool) : Reader String := fun s =>
  match bareWord s with
  | .ok (word, rest) => if test word then .ok (word, rest) else .error s
  | .error stuck => .error stuck

def plainName : Reader String := wordWhere fun word => !isReserved word

def namePart : Reader String := quoted '"' <|> quoted '\x60' <|> plainName

/-- One part of a name, where a quoted part is put between double quotes. -/
def quotedNamePart : Reader String :=
  (do let name ← quoted '"'; pure (Text.enclosed '"' name))
    <|> (do let name ← quoted '\x60'; pure (Text.enclosed '"' name))
    <|> plainName

def identifier : Reader String := do
  gaps
  namePart

/-- Parts with a dot between them. Gaps may stand in front of the first part only. -/
def dotted (part : Reader String) : Reader (List String) := do
  gaps
  let first ← part
  let rest ← many (do
    exactly "."
    part)
  pure (first :: rest)

def path : Reader (List String) := dotted namePart

def quotedPath : Reader (List String) := dotted quotedNamePart

/-! Numbers. -/

def digits : Reader (List Char) := fun s =>
  match s.takeWhile Char.isDigit with
  | [] => .error s
  | ds => .ok (ds, s.dropWhile Char.isDigit)

def digitsValue (ds : List Char) : Nat := Nat.ofDigitChars 10 ds 0

/-- A count of rows; a number that takes more than 64 bits is not one. -/
def rowCount : Reader UInt64 := do
  gaps
  fun s =>
    match digits s with
    | .ok (ds, rest) =>
      if digitsValue ds < UInt64.size then .ok (UInt64.ofNat (digitsValue ds), rest) else .error s
    | .error stuck => .error stuck

end SqlDialects.Reader
