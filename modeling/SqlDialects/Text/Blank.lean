import SqlDialects.Text.Basic

/-
White space: the characters with the White_Space property, trimming, and words between blanks.
-/
namespace SqlDialects.Text

def blanks : Ranges :=
  [(0x9, 0xd), (0x20, 0x20), (0x85, 0x85), (0xa0, 0xa0), (0x1680, 0x1680), (0x2000, 0x200a),
    (0x2028, 0x2029), (0x202f, 0x202f), (0x205f, 0x205f), (0x3000, 0x3000)]

def isBlank (c : Char) : Bool := blanks.has c.toNat

def trimStart (s : List Char) : List Char := s.dropWhile isBlank

/-- Drops the longest end of a text whose characters all satisfy the test. -/
def dropEndWhile (test : Char → Bool) (s : List Char) : List Char :=
  (s.reverse.dropWhile test).reverse

def trim (s : List Char) : List Char := dropEndWhile isBlank (trimStart s)

/-- The maximal runs of non-blank characters, in order. The first argument is the run read so
far. -/
def wordsFrom : List Char → List Char → List (List Char)
  | run, [] => if run.isEmpty then [] else [run]
  | run, c :: rest =>
    if isBlank c then
      if run.isEmpty then wordsFrom [] rest else run :: wordsFrom [] rest
    else wordsFrom (run ++ [c]) rest

def words (s : List Char) : List (List Char) := wordsFrom [] s

end SqlDialects.Text
