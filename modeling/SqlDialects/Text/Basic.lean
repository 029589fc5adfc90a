/-
Texts as lists of characters: sets of characters given by ascending ranges of code points, letter case,
quotes, cutting a text at a character, and looking for one text inside another. Names and keywords are
compared ignoring the case of the letters A to Z only; every other character stands for itself.
-/
namespace SqlDialects.Text

abbrev Ranges := List (Nat × Nat)

/-- Membership; a range that starts above the code point ends the search. -/
def Ranges.has : Ranges → Nat → Bool
  | [], _ => false
  | (lo, hi) :: rest, code => lo ≤ code && (code ≤ hi || has rest code)

def upper (s : String) : String := String.ofList (s.toList.map Char.toUpper)

def lower (s : String) : String := String.ofList (s.toList.map Char.toLower)

def sameIgnoringCase (a b : String) : Bool := upper a == upper b

/-! A quote character inside quoted text is written twice. -/

def double (quote : Char) : List Char → List Char
  | [] => []
  | c :: rest => if c = quote then quote :: quote :: double quote rest else c :: double quote rest

def enclose (quote : Char) (s : List Char) : List Char := quote :: (double quote s ++ [quote])

theorem enclose_append (quote : Char) (s rest : List Char) :
    enclose quote s ++ rest = quote :: (double quote s ++ quote :: rest) := by
  simp [enclose]

def enclosed (quote : Char) (s : String) : String := String.ofList (enclose quote s.toList)

def prepend (c : Char) : List (List Char) → List (List Char)
  | [] => [[c]]
  | piece :: pieces => (c :: piece) :: pieces

/-- The pieces between occurrences of a separator. There is always at least one. -/
def pieces (sep : Char) : List Char → List (List Char)
  | [] => [[]]
  | c :: rest => if c = sep then [] :: pieces sep rest else prepend c (pieces sep rest)

def occursIn (part : List Char) : List Char → Bool
  | [] => part.isEmpty
  | c :: rest => part.isPrefixOf (c :: rest) || occursIn part rest

end SqlDialects.Text
