/-
JSON values and their text on several lines, indented by two blanks a level. An empty array or
object stays on one line.
-/
namespace SqlDialects.CommandLine

inductive Json where
  | null
  | string (text : String)
  | array (items : List Json)
  | object (fields : List (String × Json))

namespace Json

def hexDigit (n : Nat) : Char := if n < 10 then Char.ofNat (48 + n) else Char.ofNat (87 + n)

/-- Quotes, backslashes and control characters are escaped; all others stand for themselves. -/
def escapeCharacter (c : Char) : List Char :=
  if c = '"' then ['\\', '"']
  else if c = '\\' then ['\\', '\\']
  else if c = '\x08' then ['\\', 'b']
  else if c = '\x0c' then ['\\', 'f']
  else if c = '\n' then ['\\', 'n']
  else if c = '\r' then ['\\', 'r']
  else if c = '\t' then ['\\', 't']
  else if c.toNat < 32 then
    ['\\', 'u', '0', '0', hexDigit (c.toNat / 16), hexDigit (c.toNat % 16)]
  else [c]

def quote (text : String) : String :=
  "\"" ++ String.ofList (text.toList.flatMap escapeCharacter) ++ "\""

def newLine (level : Nat) : String := "\n" ++ String.ofList (List.replicate (2 * level) ' ')

def bracketed (opening closing : String) (level : Nat) (parts : List String) : String :=
  if parts.isEmpty then opening ++ closing
  else
    opening ++ newLine (level + 1) ++ ("," ++ newLine (level + 1)).intercalate parts
      ++ newLine level ++ closing

mutual

def toText (level : Nat) : Json → String
  | .null => "null"
  | .string text => quote text
  | .array items => bracketed "[" "]" level (itemTexts (level + 1) items)
  | .object fields => bracketed "\x7b" "\x7d" level (fieldTexts (level + 1) fields)

def itemTexts (level : Nat) : List Json → List String
  | [] => []
  | item :: rest => item.toText level :: itemTexts level rest

def fieldTexts (level : Nat) : List (String × Json) → List String
  | [] => []
  | (name, value) :: rest => (quote name ++ ": " ++ value.toText level) :: fieldTexts level rest

end

end Json

end SqlDialects.CommandLine
