import Mathlib
import SqlDialects.Reader.Lexeme
import SqlDialects.Text.Blank

/-
How the classes of characters lie to each other: letters, digits, the characters of names, and
blanks. Below code point 128 the tables are plain intervals; the blanks are few enough to be gone
through one by one.
-/
namespace SqlDialects.Text

theorem not_mem_of_all {test : Char → Bool} {c : Char} {marks : List Char} (found : test c = true)
    (outside : marks.all (fun d => !test d) = true) : c ∉ marks := by
  intro member
  have other := List.all_eq_true.mp outside c member
  rw [found] at other
  cases other

theorem has_cons (lo hi : Nat) (rest : Ranges) (code : Nat) :
    Ranges.has ((lo, hi) :: rest) code
      = (decide (lo ≤ code) && (decide (code ≤ hi) || rest.has code)) := rfl

theorem alphabetic_ascii (code : Nat) (ascii : code < 0x80) :
    alphabetic.has code = true
      ↔ (0x41 ≤ code ∧ code ≤ 0x5a) ∨ (0x61 ≤ code ∧ code ≤ 0x7a) := by
  have table : alphabetic
      = (0x41, 0x5a) :: (0x61, 0x7a) :: (0xaa, 0xaa) :: alphabetic.drop 3 := rfl
  rw [table]
  simp only [has_cons, Bool.and_eq_true, Bool.or_eq_true, decide_eq_true_eq]
  omega

theorem alphabetic_of_isAlpha (c : Char) (letter : c.isAlpha = true) : isAlphabetic c = true := by
  have range : (0x41 ≤ c.toNat ∧ c.toNat ≤ 0x5a) ∨ (0x61 ≤ c.toNat ∧ c.toNat ≤ 0x7a) := by
    simpa [Char.isAlpha, Char.isUpper, Char.isLower, UInt32.le_iff_toNat_le] using letter
  exact (alphabetic_ascii c.toNat (by omega)).mpr range

theorem not_alphabetic_of_isDigit (c : Char) (digit : c.isDigit = true) :
    isAlphabetic c = false := by
  have range : 0x30 ≤ c.toNat ∧ c.toNat ≤ 0x39 := by
    simpa [Char.isDigit, UInt32.le_iff_toNat_le] using digit
  by_cases found : isAlphabetic c = true
  · have := (alphabetic_ascii c.toNat (by omega)).mp found
    omega
  · simpa using found

theorem not_isDigit_of_isAlpha (c : Char) (letter : c.isAlpha = true) : c.isDigit = false := by
  cases digit : c.isDigit with
  | false => rfl
  | true =>
    have other := not_alphabetic_of_isDigit c digit
    rw [alphabetic_of_isAlpha c letter] at other
    cases other

theorem numeric_of_isDigit (c : Char) (digit : c.isDigit = true) : isNumeric c = true := by
  have range : 0x30 ≤ c.toNat ∧ c.toNat ≤ 0x39 := by
    simpa [Char.isDigit, UInt32.le_iff_toNat_le] using digit
  have table : decimalDigits = (0x30, 0x39) :: decimalDigits.drop 1 := rfl
  have found : decimalDigits.has c.toNat = true := by
    rw [table]
    simp only [has_cons, Bool.and_eq_true, Bool.or_eq_true, decide_eq_true_eq]
    exact ⟨range.1, .inl range.2⟩
  simp [isNumeric, isDecimalDigit, found]

def blankCodes : List Nat :=
  [0x9, 0xa, 0xb, 0xc, 0xd, 0x20, 0x85, 0xa0, 0x1680, 0x2000, 0x2001, 0x2002, 0x2003, 0x2004,
    0x2005, 0x2006, 0x2007, 0x2008, 0x2009, 0x200a, 0x2028, 0x2029, 0x202f, 0x205f, 0x3000]

theorem blank_codes (c : Char) (blank : isBlank c = true) : c.toNat ∈ blankCodes := by
  simp only [isBlank, blanks, Ranges.has, Bool.and_eq_true, Bool.or_eq_true, decide_eq_true_eq,
    Bool.false_eq_true, or_false] at blank
  simp only [blankCodes, List.mem_cons, List.not_mem_nil]
  omega

theorem blank_cases {P : Char → Prop} (each : ∀ code ∈ blankCodes, P (Char.ofNat code))
    (c : Char) (blank : isBlank c = true) : P c := by
  have h := each c.toNat (blank_codes c blank)
  simpa using h

end SqlDialects.Text

namespace SqlDialects.Reader

theorem nameCharacter_of_isAlpha (c : Char) (letter : c.isAlpha = true) :
    isNameCharacter c = true := by
  simp [isNameCharacter, Text.alphabetic_of_isAlpha c letter]

theorem nameStart_of_isAlpha (c : Char) (letter : c.isAlpha = true) : isNameStart c = true := by
  simp [isNameStart, Text.alphabetic_of_isAlpha c letter]

theorem nameCharacter_of_isDigit (c : Char) (digit : c.isDigit = true) :
    isNameCharacter c = true := by
  simp [isNameCharacter, Text.numeric_of_isDigit c digit]

theorem nameCharacter_of_nameStart (c : Char) (start : isNameStart c = true) :
    isNameCharacter c = true := by
  simp only [isNameStart, Bool.or_eq_true] at start
  rcases start with letter | underscore
  · simp [isNameCharacter, letter]
  · simp [isNameCharacter, underscore]

theorem not_nameStart_of_isDigit (c : Char) (digit : c.isDigit = true) : isNameStart c = false := by
  have other : c ≠ '_' := by rintro rfl; simp at digit
  simp [isNameStart, Text.not_alphabetic_of_isDigit c digit, other]

theorem not_nameCharacter_of_blank (c : Char) (blank : Text.isBlank c = true) :
    isNameCharacter c = false :=
  Text.blank_cases (P := fun c => isNameCharacter c = false) (by decide +kernel) c blank

theorem not_blank_of_nameCharacter {c : Char} (inside : isNameCharacter c = true) :
    Text.isBlank c = false := by
  cases blank : Text.isBlank c with
  | false => rfl
  | true =>
    rw [not_nameCharacter_of_blank c blank] at inside
    cases inside

end SqlDialects.Reader
