import SqlDialects.Pattern.Basic
import SqlDialects.Proofs.Text.Characters

/-
The classes of characters in patterns, on plain words: those of ASCII letters, digits and
underscores.
-/
namespace SqlDialects.Text

def isPlain (c : Char) : Bool := c.isAlphanum || c == '_'

theorem plain_of_isAlpha {c : Char} (letter : c.isAlpha = true) : isPlain c = true := by
  simp [isPlain, Char.isAlphanum, letter]

theorem plain_of_isDigit {c : Char} (digit : c.isDigit = true) : isPlain c = true := by
  simp [isPlain, Char.isAlphanum, digit]

theorem plain_cases {c : Char} (plain : isPlain c = true) :
    c.isAlpha = true ∨ c.isDigit = true ∨ c = '_' := by
  simpa [isPlain, Char.isAlphanum, or_assoc] using plain

theorem isAlpha_codes (c : Char) :
    c.isAlpha = true ↔ (0x41 ≤ c.toNat ∧ c.toNat ≤ 0x5a) ∨ (0x61 ≤ c.toNat ∧ c.toNat ≤ 0x7a) := by
  simp [Char.isAlpha, Char.isUpper, Char.isLower, UInt32.le_iff_toNat_le]

theorem isDigit_codes (c : Char) : c.isDigit = true ↔ 0x30 ≤ c.toNat ∧ c.toNat ≤ 0x39 := by
  simp [Char.isDigit, UInt32.le_iff_toNat_le]

theorem plain_ascii {c : Char} (plain : isPlain c = true) : c.toNat < 0x80 := by
  rcases plain_cases plain with letter | digit | rfl
  · rw [isAlpha_codes] at letter
    omega
  · rw [isDigit_codes] at digit
    omega
  · decide

theorem not_recent_ascii {c : Char} (ascii : c.toNat < 0x80) : isRecent c = false := by
  have table : addedLast = (0x88f, 0x88f) :: addedLast.drop 1 := rfl
  have small : ¬ 0x88f ≤ c.toNat := by omega
  rw [isRecent, table, has_cons, decide_eq_false small, Bool.false_and]

theorem decimalDigit_of_isDigit {c : Char} (digit : c.isDigit = true) :
    isDecimalDigit c = true := by
  rw [isDigit_codes] at digit
  have table : decimalDigits = (0x30, 0x39) :: decimalDigits.drop 1 := rfl
  rw [isDecimalDigit, table, has_cons]
  simp [digit]

theorem patternDigit_of_isDigit {c : Char} (digit : c.isDigit = true) : isPatternDigit c = true := by
  rw [isPatternDigit, decimalDigit_of_isDigit digit,
    not_recent_ascii (plain_ascii (plain_of_isDigit digit))]
  rfl

theorem wordCharacter_of_plain {c : Char} (plain : isPlain c = true) : isWordCharacter c = true := by
  have known := not_recent_ascii (plain_ascii plain)
  rcases plain_cases plain with letter | digit | rfl
  · simp [isWordCharacter, alphabetic_of_isAlpha c letter, known]
  · simp [isWordCharacter, decimalDigit_of_isDigit digit, known]
  · rfl

theorem not_wordCharacter_of_blank {c : Char} (blank : isBlank c = true) :
    isWordCharacter c = false := by
  have each : blankCodes.all (fun code => !isWordCharacter (Char.ofNat code)) = true := by
    decide +kernel
  refine blank_cases (P := fun c => isWordCharacter c = false) (fun code member => ?_) c blank
  simpa using List.all_eq_true.mp each code member

theorem plain_of_nameCharacter {c : Char} (name : Reader.isNameCharacter c = true)
    (ascii : c.toNat < 0x80) (others : c ≠ '$' ∧ c ≠ '#') : isPlain c = true := by
  have letters : isAlphabetic c = true → c.isAlpha = true := fun found =>
    (isAlpha_codes c).mpr ((alphabetic_ascii c.toNat ascii).mp found)
  have digits : isNumeric c = true → c.isDigit = true := by
    have decimal : decimalDigits = (0x30, 0x39) :: (0x660, 0x669) :: decimalDigits.drop 2 := rfl
    have letter : letterNumbers = (0x16ee, 0x16f0) :: letterNumbers.drop 1 := rfl
    have other : otherNumbers = (0xb2, 0xb3) :: otherNumbers.drop 1 := rfl
    intro found
    rw [isNumeric, isDecimalDigit, decimal, letter, other] at found
    simp only [has_cons, Bool.or_eq_true, Bool.and_eq_true, decide_eq_true_eq] at found
    rw [isDigit_codes]
    omega
  simp only [Reader.isNameCharacter, Bool.or_eq_true, beq_iff_eq] at name
  rcases name with (((found | found) | rfl) | dollar) | hash
  · exact plain_of_isAlpha (letters found)
  · exact plain_of_isDigit (digits found)
  · rfl
  · exact absurd dollar others.1
  · exact absurd hash others.2

/-! Sets of characters that have nothing in common. -/

/-- No code point is in both sets. The ranges are gone over as in a merge, in so many steps. -/
def Ranges.areApart : Nat → Ranges → Ranges → Bool
  | _, [], _ | _, _, [] => true
  | 0, _, _ => false
  | steps + 1, (low, high) :: first, (bottom, top) :: second =>
    if high < bottom then areApart steps first ((bottom, top) :: second)
    else if top < low then areApart steps ((low, high) :: first) second
    else false

theorem Ranges.areApart_has {steps : Nat} {first second : Ranges} {code : Nat}
    (apart : areApart steps first second = true) (inside : first.has code = true) :
    second.has code = false := by
  fun_induction areApart steps first second with
  | case1 => cases inside
  | case2 => rfl
  | case3 => cases apart
  | case4 steps low high first bottom top second before ih =>
    cases found : Ranges.has ((bottom, top) :: second) code with
    | false => rfl
    | true =>
      -- the code point is above the first range, so it is in one of the others
      simp only [Ranges.has, Bool.and_eq_true, Bool.or_eq_true, decide_eq_true_eq] at inside
      have above : bottom ≤ code := by simp_all [Ranges.has]
      have later : Ranges.has first code = true := inside.2.resolve_left (by omega)
      exact found.symm.trans (ih apart later)
  | case5 steps low high first bottom top second _ before ih =>
    have none := ih apart inside
    simp only [Ranges.has, Bool.and_eq_true, Bool.or_eq_true, decide_eq_true_eq] at inside
    have beyond : ¬ code ≤ top := by omega
    simp [Ranges.has, none, beyond]
  | case6 => cases apart

theorem not_alphabetic_of_decimalDigit {c : Char} (digit : isDecimalDigit c = true) :
    isAlphabetic c = false := by
  have apart : Ranges.areApart 900 decimalDigits alphabetic = true := by decide +kernel
  exact Ranges.areApart_has apart digit

end SqlDialects.Text

namespace SqlDialects.Pattern

open Text

def isCapital (c : Char) : Bool := c.isUpper || c == '_'

theorem plain_of_capital {c : Char} (capital : isCapital c = true) : isPlain c = true := by
  rcases (Bool.or_eq_true ..).mp capital with upper | low
  · exact plain_of_isAlpha (by simp [Char.isAlpha, upper])
  · simp [isPlain, low]

theorem foldCase_plain {c : Char} (plain : isPlain c = true) : foldCase c = c.toLower := by
  have ascii := plain_ascii plain
  have others : c ≠ '\u017f' ∧ c ≠ '\u212a' := by
    constructor <;> rintro rfl <;> exact absurd ascii (by decide)
  simp [foldCase, others]

/-- A pattern takes letters for letters, and the long s and the kelvin sign with them. -/
theorem fold_capital {c d : Char} (same : foldCase c = foldCase d) (capital : isCapital d = true) :
    c = '\u017f' ∨ c = '\u212a' ∨ c.isAlpha = true ∨ c = '_' := by
  rw [foldCase_plain (plain_of_capital capital), foldCase] at same
  split at same
  · next long => exact .inl long
  · split at same
    · next kelvin => exact .inr (.inl kelvin)
    · refine .inr (.inr ?_)
      rcases (Bool.or_eq_true ..).mp capital with upper | low
      · left
        rw [← Char.isAlpha_toLower_eq_isAlpha, same, Char.isAlpha_toLower_eq_isAlpha]
        simp [Char.isAlpha, upper]
      · obtain rfl : d = '_' := by simpa using low
        have letter : c.isAlpha = false := by
          rw [← Char.isLower_toLower_eq_isAlpha, same]
          rfl
        have unchanged : c.toLower = c := by
          apply Char.toLower_eq_of_not_isUpper
          simp only [Char.isAlpha, Bool.or_eq_false_iff] at letter
          simp [letter]
        right
        rw [← unchanged, same]
        rfl

theorem wordCharacter_of_fold {c d : Char} (same : foldCase c = foldCase d)
    (capital : isCapital d = true) : isWordCharacter c = true := by
  rcases fold_capital same capital with rfl | rfl | letter | rfl
  · decide
  · decide +kernel
  · exact wordCharacter_of_plain (plain_of_isAlpha letter)
  · rfl

end SqlDialects.Pattern
