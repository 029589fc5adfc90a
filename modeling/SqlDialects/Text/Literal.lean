/-
SQL text as an alternation of code and string literals. A literal runs from an apostrophe to the
next one, or to the end of the text when none follows; a doubled apostrophe therefore ends one
literal and opens another, with an empty piece of code between them.
-/
namespace SqlDialects.Text

inductive Segment where
  | code (text : List Char)
  | literal (text : List Char)
  deriving DecidableEq, Repr

def Segment.text : Segment → List Char
  | .code text => text
  | .literal text => text

namespace Segment

def prepend (c : Char) : List Segment → List Segment
  | [] => []
  | .code text :: rest => .code (c :: text) :: rest
  | .literal text :: rest => .literal (c :: text) :: rest

def scan : Bool → List Char → List Segment
  | false, [] => [.code []]
  | true, [] => [.literal []]
  | false, c :: rest =>
    if c = '\x27' then .code [] :: prepend c (scan true rest) else prepend c (scan false rest)
  | true, c :: rest =>
    if c = '\x27' then .literal [c] :: scan false rest else prepend c (scan true rest)

def changed (f : List Char → List Char) : Segment → List Char
  | .code text => f text
  | .literal text => text

end Segment

/-- The segments of a text: code first, then literals and code in turn. -/
def segments (s : List Char) : List Segment := Segment.scan false s

def outsideLiterals (f : List Char → List Char) (s : List Char) : List Char :=
  (segments s).flatMap (Segment.changed f)

end SqlDialects.Text
