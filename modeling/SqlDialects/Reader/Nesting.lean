import SqlDialects.Text.Blank
import SqlDialects.Text.Basic

/-
Scanning a text for what stands outside parentheses and quotes.
-/
namespace SqlDialects

/-- How many parentheses are open, and the quote that is open, if any. -/
structure Nesting where
  depth : Nat := 0
  quote : Option Char := none
  deriving DecidableEq, Repr

namespace Nesting

def isQuote (c : Char) : Bool := c == '\x27' || c == '"' || c == '\x60'

/-- A quote is closed by the same character. A closing parenthesis without an opening one changes
nothing. -/
def step (nesting : Nesting) (c : Char) : Nesting :=
  match nesting.quote with
  | some q => if c = q then { nesting with quote := none } else nesting
  | none =>
    if isQuote c then { nesting with quote := some c }
    else if c = '(' then { nesting with depth := nesting.depth + 1 }
    else if c = ')' then { nesting with depth := nesting.depth - 1 }
    else nesting

def isTop (nesting : Nesting) : Bool := nesting.depth == 0 && nesting.quote.isNone

end Nesting

open Nesting

/-- The texts before and after the parenthesis that brings the nesting to the top. -/
def untilTop : Nesting → List Char → Option (List Char × List Char)
  | _, [] => none
  | nesting, c :: rest =>
    if (nesting.step c).isTop then some ([], rest)
    else (untilTop (nesting.step c) rest).map fun (inside, after) => (c :: inside, after)

def cutAtClosing (s : List Char) : Option (List Char × List Char) := untilTop { depth := 1 } s

def topLevelFrom (sep : Char) : Nesting → List Char → List (List Char)
  | _, [] => [[]]
  | nesting, c :: rest =>
    if c = sep && nesting.isTop then [] :: topLevelFrom sep nesting rest
    else Text.prepend c (topLevelFrom sep (nesting.step c) rest)

/-- The pieces between separators that stand outside parentheses and quotes. -/
def topLevelPieces (sep : Char) (s : List Char) : List (List Char) := topLevelFrom sep {} s

/-- The tokens of a text: runs of characters without a blank outside parentheses and quotes. The
second argument is the token read so far. -/
def tokensFrom : Nesting → List Char → List Char → List (List Char)
  | _, token, [] => if token.isEmpty then [] else [token]
  | nesting, token, c :: rest =>
    if Text.isBlank c && nesting.isTop then
      if token.isEmpty then tokensFrom nesting [] rest else token :: tokensFrom nesting [] rest
    else tokensFrom (nesting.step c) (token ++ [c]) rest

def tokens (s : List Char) : List (List Char) := tokensFrom {} [] s

end SqlDialects
