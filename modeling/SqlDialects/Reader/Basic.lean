/-
Readers: functions that read a value off the front of a text.

A reader either gives the value and the text after it, or the text at which it stopped. Choices
and repetitions go back to where they began when a part of them fails. Every repetition is bounded
by the characters of the text it reads, since each round reads at least one of them.
-/
namespace SqlDialects

def Reader (α : Type) : Type := List Char → Except (List Char) (α × List Char)

namespace Reader

variable {α β : Type}

def stop : Reader α := fun s => .error s

def stopAt (s : List Char) : Reader α := fun _ => .error s

protected def pure (a : α) : Reader α := fun s => .ok (a, s)

protected def bind (first : Reader α) (next : α → Reader β) : Reader β := fun s =>
  match first s with
  | .ok (a, rest) => next a rest
  | .error stuck => .error stuck

instance : Monad Reader where
  pure := Reader.pure
  bind := Reader.bind

/-- Reads with the first reader, or with the second where the first fails. -/
protected def orElse (first second : Reader α) : Reader α := fun s =>
  match first s with
  | .ok result => .ok result
  | .error _ => second s

instance : OrElse (Reader α) where
  orElse first second := first.orElse (second ())

def option (part : Reader α) : Reader (Option α) := fun s =>
  match part s with
  | .ok (a, rest) => .ok (some a, rest)
  | .error _ => .ok (none, s)

def present (part : Reader α) : Reader Bool := fun s =>
  match part s with
  | .ok (_, rest) => .ok (true, rest)
  | .error _ => .ok (false, s)

/-- Goes on with `yes` after the mark and with `no` where the mark is missing. What fails after the
mark fails altogether. -/
def whenRead (mark : Reader α) (yes : α → Reader β) (no : Reader β) : Reader β := fun s =>
  match mark s with
  | .ok (a, rest) => yes a rest
  | .error _ => no s

/-- Reads a part and then one that follows it, for the value of the first. -/
def followedBy (part : Reader α) (after : Reader β) : Reader α := do
  let a ← part
  let _ ← after
  pure a

/-- Reads items while there are any, at most one for each character of the bound. -/
def manyWithin (item : Reader α) : List Char → Reader (List α)
  | [] => pure []
  | _ :: bound => whenRead item (fun a => do
      let rest ← manyWithin item bound
      pure (a :: rest)) (pure [])

def many (item : Reader α) : Reader (List α) := fun s => manyWithin item s s

/-- Reads one or more items with a separator between them. A separator that no item follows is not
read. -/
def separatedBy (separator : Reader β) (item : Reader α) : Reader (List α) := do
  let first ← item
  let rest ← many (do
    let _ ← separator
    item)
  pure (first :: rest)

/-- Extends `left` by operators and operands while there are operators. -/
def chainWithin (combine : α → β → α → α) (operand : Reader α) (operator : Reader β) :
    List Char → α → Reader α
  | [], left => pure left
  | _ :: bound, left => whenRead operator (fun op => do
      let right ← operand
      chainWithin combine operand operator bound (combine left op right)) (pure left)

/-- Reads operands with operators between them and combines them from the left. -/
def chain (combine : α → β → α → α) (operand : Reader α) (operator : Reader β) : Reader α := do
  let left ← operand
  fun s => chainWithin combine operand operator s left s

def markedWithin (mark : Reader β) (wrap : α → α) (operand : Reader α) : List Char → Reader α
  | [] => operand
  | _ :: bound => whenRead mark (fun _ => do
      let inner ← markedWithin mark wrap operand bound
      pure (wrap inner)) operand

/-- Reads an operand behind any number of marks, each of which wraps what follows it. -/
def marked (mark : Reader β) (wrap : α → α) (operand : Reader α) : Reader α := fun s =>
  markedWithin mark wrap operand s s

def finish : Reader Unit
  | [] => .ok ((), [])
  | s => .error s

end Reader

end SqlDialects
