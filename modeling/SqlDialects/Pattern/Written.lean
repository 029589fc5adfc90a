import SqlDialects.Pattern.Basic
import SqlDialects.Reader.Lexeme

/-
The written form of patterns. A character stands for itself; `\d`, `\s` and `\w` stand for a digit,
a blank and a word character, and `\b` for a word boundary. Parentheses number and remember a part,
a bar separates alternatives, and `*`, `+` and `?` repeat what stands before them. `(?i)` at the
front ignores case.
-/
namespace SqlDialects.Pattern

def specialCharacters : List Char :=
  ['\\', '.', '+', '*', '?', '(', ')', '|', '[', ']', '\x7b', '\x7d', '^', '$']

section Written

variable (ignoreCase : Bool)

def itself (c : Char) : Pattern := if ignoreCase then .letter c else .char c

def escaped? (c : Char) : Option Pattern :=
  match c with
  | 'd' => some .digit
  | 's' => some .blank
  | 'w' => some .word
  | 'b' => some .boundary
  | _ => if specialCharacters.contains c then some (itself ignoreCase c) else none

variable (nested : Nat → Reader (Pattern × Nat))

/-- One unit with the number of parts up to its end, given the number before it. -/
def unit (count : Nat) : Reader (Pattern × Nat)
  | '\\' :: c :: rest =>
    match escaped? ignoreCase c with
    | some pattern => .ok ((pattern, count), rest)
    | none => .error (c :: rest)
  | '(' :: '?' :: ':' :: rest => (nested count).followedBy (Reader.exactly ")") rest
  | '(' :: rest =>
    (do
      let (inner, last) ← (nested (count + 1)).followedBy (Reader.exactly ")")
      pure (.group (count + 1) inner, last) : Reader (Pattern × Nat)) rest
  | c :: rest =>
    if specialCharacters.contains c then .error (c :: rest)
    else .ok ((itself ignoreCase c, count), rest)
  | [] => .error []

def repeated (count : Nat) : Reader (Pattern × Nat) := do
  let (pattern, last) ← unit ignoreCase nested count
  fun s =>
    match s with
    | '*' :: rest => .ok ((.star pattern, last), rest)
    | '+' :: rest => .ok ((plus pattern, last), rest)
    | '?' :: rest => .ok ((optional pattern, last), rest)
    | _ => .ok ((pattern, last), s)

/-- Units one after the other, up to a bar, a closing parenthesis or the end. -/
def unitsWithin : List Char → Nat → Reader (Pattern × Nat)
  | [], count => pure (.empty, count)
  | _ :: bound, count => fun s =>
    match s with
    | [] | '|' :: _ | ')' :: _ => .ok ((.empty, count), s)
    | _ =>
      (do
        let (first, middle) ← repeated ignoreCase nested count
        let (rest, last) ← unitsWithin bound middle
        pure (.seq first rest, last) : Reader (Pattern × Nat)) s

def alternativesWithin : List Char → Nat → Reader (Pattern × Nat)
  | [], count => pure (.empty, count)
  | _ :: bound, count => do
    let (first, middle) ← fun s => unitsWithin ignoreCase nested s count s
    Reader.whenRead (Reader.exactly "|") (fun _ => do
      let (second, last) ← alternativesWithin bound middle
      pure (.either first second, last)) (pure (first, middle))

end Written

def writtenWithin (ignoreCase : Bool) : Nat → Nat → Reader (Pattern × Nat)
  | 0, _ => Reader.stop
  | depth + 1, count => fun s =>
    alternativesWithin ignoreCase (writtenWithin ignoreCase depth) (' ' :: s) count s

/-- Reads a written pattern; `none` if the text is not one. -/
def ofText? (text : String) : Option Pattern :=
  let (ignoreCase, body) := match text.toList with
    | '(' :: '?' :: 'i' :: ')' :: rest => (true, rest)
    | s => (false, s)
  match writtenWithin ignoreCase (body.length + 1) 0 body with
  | .ok ((pattern, _), []) => some pattern
  | _ => none

end SqlDialects.Pattern
