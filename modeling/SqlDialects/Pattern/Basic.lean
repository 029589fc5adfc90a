import SqlDialects.Text.Blank
import SqlDialects.Text.WordCharacter

/-
Text patterns and what they match. A pattern gives the ends of its matches in order of preference:
earlier alternatives first, and more repetitions before fewer. The first of them is the match.
-/
namespace SqlDialects

inductive Pattern where
  /-- Matches everywhere and takes nothing. -/
  | empty
  | char (c : Char)
  /-- A character in upper or lower case. -/
  | letter (c : Char)
  | digit
  | blank
  | word
  /-- The place between a word character and another one, or an end of the text. -/
  | boundary
  /-- A numbered part whose text is remembered. -/
  | group (number : Nat) (inner : Pattern)
  | seq (first second : Pattern)
  | either (first second : Pattern)
  /-- Any number of repetitions, as many as possible. -/
  | star (inner : Pattern)
  deriving DecidableEq, Repr

namespace Pattern

def plus (inner : Pattern) : Pattern := .seq inner (.star inner)

def optional (inner : Pattern) : Pattern := .either inner .empty

def sequence (parts : List Pattern) : Pattern := parts.foldr .seq .empty

def anyCase (word : String) : Pattern := sequence (word.toList.map .letter)

/-- A position in a text: the character before it, the text after it, and the parts remembered on
the way, the latest first. -/
structure Cursor where
  before : Option Char := none
  rest : List Char
  groups : List (Nat × List Char) := []
  deriving DecidableEq, Repr

/-- Brings both cases of a letter together. The long s and the kelvin sign are cases of s and k. -/
def foldCase (c : Char) : Char :=
  if c = '\u017f' then 's' else if c = '\u212a' then 'k' else c.toLower

def takeOne (test : Char → Bool) (cursor : Cursor) : List Cursor :=
  match cursor.rest with
  | [] => []
  | c :: rest => if test c then [{ cursor with before := some c, rest }] else []

def atBoundary (cursor : Cursor) : Bool :=
  cursor.before.any Text.isWordCharacter != cursor.rest.head?.any Text.isWordCharacter

def between (start stop : List Char) : List Char := start.take (start.length - stop.length)

/-- Repeats a step as often as it moves on, at most once for each character of the bound. -/
def repeatWithin (step : Cursor → List Cursor) : List Char → Cursor → List Cursor
  | [], cursor => [cursor]
  | _ :: bound, cursor =>
    ((step cursor).filter fun next => next.rest.length < cursor.rest.length).flatMap
      (repeatWithin step bound) ++ [cursor]

/-- The positions at which a match from the given position can end, the preferred one first. -/
def ends : Pattern → Cursor → List Cursor
  | .empty, cursor => [cursor]
  | .char c, cursor => takeOne (· == c) cursor
  | .letter c, cursor => takeOne (fun d => foldCase d == foldCase c) cursor
  | .digit, cursor => takeOne Text.isPatternDigit cursor
  | .blank, cursor => takeOne Text.isBlank cursor
  | .word, cursor => takeOne Text.isWordCharacter cursor
  | .boundary, cursor => if atBoundary cursor then [cursor] else []
  | .group number inner, cursor =>
    (inner.ends cursor).map fun stop =>
      { stop with groups := (number, between cursor.rest stop.rest) :: stop.groups }
  | .seq first second, cursor => (first.ends cursor).flatMap second.ends
  | .either first second, cursor => first.ends cursor ++ second.ends cursor
  | .star inner, cursor => repeatWithin inner.ends cursor.rest cursor

structure Match where
  text : List Char
  groups : List (Nat × List Char)
  deriving DecidableEq, Repr

def Match.group? (found : Match) (number : Nat) : Option (List Char) :=
  (found.groups.find? fun entry => entry.1 == number).map (·.2)

def Match.group (found : Match) (number : Nat) : List Char := (found.group? number).getD []

def matchAt? (pattern : Pattern) (before : Option Char) (s : List Char) : Option Match :=
  (pattern.ends { before, rest := s }).head?.map fun stop =>
    { text := between s stop.rest, groups := stop.groups }

/-- Replaces matches from left to right. `skip` characters still belong to the last match, and
`closed` says that no empty match may start here because a match has just ended. -/
def replaceFrom (pattern : Pattern) (write : Match → List Char) :
    Option Char → Nat → Bool → List Char → List Char
  | before, _, closed, [] =>
    match pattern.matchAt? before [] with
    | some found => if closed then [] else write found
    | none => []
  | _, skip + 1, _, c :: rest => replaceFrom pattern write (some c) skip true rest
  | before, 0, closed, c :: rest =>
    match pattern.matchAt? before (c :: rest) with
    | none => c :: replaceFrom pattern write (some c) 0 false rest
    | some found =>
      match found.text with
      | [] =>
        (if closed then [] else write found) ++ c :: replaceFrom pattern write (some c) 0 false rest
      | _ :: tail => write found ++ replaceFrom pattern write (some c) tail.length true rest

def replaceAll (pattern : Pattern) (write : Match → List Char) (s : List Char) : List Char :=
  replaceFrom pattern write none 0 false s

end Pattern

end SqlDialects
