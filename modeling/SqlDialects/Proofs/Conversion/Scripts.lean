import SqlDialects.Conversion.Statement
import SqlDialects.Proofs.Grammar.Statements

/-
Converting scripts. A statement that a script is cut into never looks empty to the reader of
statements, even where it ends in quotes full of semicolons; so no statement spoils the conversion
of the others, and each is converted as it would be alone. Scripts in which a keyword ends inside a
character are left out: nothing is said of their conversion.
-/
namespace SqlDialects

open Nesting Reader

/-! Keywords that are cut off by their length. The kelvin sign is a third case of the letter k and
longer than the letter, so a word that is compared in any case and then cut off may end inside the
sign. -/

namespace Reader

def capitalOf (c : Char) : Char := if c = '\u212a' then 'K' else c.toUpper

/-- What follows so many bytes, unless they end inside a character. -/
def dropBytes : Nat → List Char → Option (List Char)
  | 0, s => some s
  | _ + 1, [] => none
  | n + 1, c :: s => if c.utf8Size ≤ n + 1 then dropBytes (n + 1 - c.utf8Size) s else none

/-- What follows a word that is compared as far as the text goes and then cut off by its length:
nothing where another word stands, and `some none` where the cut falls inside a character. -/
def cutWord (word s : List Char) : Option (Option (List Char)) :=
  if (∀ letters ∈ s.zip word, capitalOf letters.1 = letters.2)
      ∧ word.length ≤ DataType.byteLength s then
    some (dropBytes word.length s)
  else none

/-- The keywords with a k behind other letters. The others have none, or begin with it and are as long
as the sign, as KEY is. -/
def signWords : List String := ["LIKE", "ILIKE", "CHECK"]

/-- No keyword ends inside a character, wherever in the text it is looked for. -/
def Uncut (text : List Char) : Prop :=
  ∀ s ∈ text.tails, ∀ word ∈ signWords, cutWord word.toList s ≠ some none

instance (text : List Char) : Decidable (Uncut text) :=
  inferInstanceAs (Decidable (∀ s ∈ text.tails, ∀ word ∈ signWords,
    cutWord word.toList s ≠ some none))

theorem utf8Size_of_upper {c : Char} (upper : c.toUpper.isUpper = true) : c.utf8Size = 1 := by
  have letter : c.isAlpha = true := by
    rw [← Char.isAlpha_toUpper_eq_isAlpha, Char.isAlpha, upper, Bool.true_or]
  have small : c.val ≤ 127 := by
    simp only [Char.isAlpha, Char.isUpper, Char.isLower, Bool.or_eq_true, Bool.and_eq_true,
      decide_eq_true_eq, UInt32.le_iff_toNat_le] at letter ⊢
    simp at letter ⊢
    omega
  exact Char.utf8Size_eq_one_iff.mpr small

theorem cutWord_cons {w c : Char} (upper : w.isUpper = true) (plain : c ≠ '\u212a')
    (ws s : List Char) :
    cutWord (w :: ws) (c :: s) = if c.toUpper = w then cutWord ws s else none := by
  by_cases same : c.toUpper = w
  · have size : c.utf8Size = 1 := utf8Size_of_upper (same ▸ upper)
    simp [cutWord, capitalOf, plain, same, DataType.byteLength, size, dropBytes, Nat.add_comm]
  · simp [cutWord, capitalOf, plain, same]

theorem cutWord_sign {w : Char} {ws : List Char} (short : w = 'K' → ws.length < 2) (s : List Char) :
    cutWord (w :: ws) ('\u212a' :: s) = some none ∨ cutWord (w :: ws) ('\u212a' :: s) = none := by
  rw [cutWord]
  split
  · next begins =>
    have letter : w = 'K' := (begins.1 _ List.mem_cons_self).symm
    have size : '\u212a'.utf8Size = 3 := by decide
    have inside : ¬ '\u212a'.utf8Size ≤ ws.length + 1 := by
      have := short letter
      omega
    exact .inl (by rw [List.length_cons, dropBytes, if_neg inside])
  · exact .inr rfl

/-- With at most one letter behind its k, a word is cut inside the sign or read as by its letters. -/
theorem cutWord_eq {word : List Char} (capital : word.all Char.isUpper = true)
    (late : ∀ t ∈ word.tails, t.head? = some 'K' → t.length ≤ 2) (s : List Char) :
    cutWord word s = some none ∨ cutWord word s = (dropWord word s).map some := by
  induction word generalizing s with
  | nil => exact .inr (by simp [cutWord, dropBytes, dropWord])
  | cons w ws ih =>
    rw [List.all_cons, Bool.and_eq_true] at capital
    rw [List.tails, List.forall_mem_cons] at late
    have fixed : w.toUpper = w :=
      Char.toUpper_eq_of_not_isLower (Char.not_isLower_of_isUpper capital.1)
    cases s with
    | nil => exact .inr (by simp [cutWord, dropWord, DataType.byteLength])
    | cons c s =>
      by_cases sign : c = '\u212a'
      · have short : w = 'K' → ws.length < 2 := fun letter => by simpa [letter] using late.1
        have unread : dropWord (w :: ws) ('\u212a' :: s) = none := by
          rw [dropWord, fixed, if_neg]
          intro same
          rw [← same] at capital
          exact absurd capital.1 (by decide)
        rw [sign, unread]
        exact cutWord_sign short s
      · rw [cutWord_cons capital.1 sign, dropWord, fixed]
        split
        · exact ih capital.2 late.2 s
        · exact .inr rfl

theorem Uncut.read {text s : List Char} (uncut : Uncut text) (place : s ∈ text.tails)
    {word : String} (known : word ∈ signWords) :
    cutWord word.toList s = (dropWord word.toList s).map some := by
  have shape : ∀ word ∈ signWords, word.toList.all Char.isUpper = true
      ∧ ∀ t ∈ word.toList.tails, t.head? = some 'K' → t.length ≤ 2 := by decide
  obtain ⟨capital, late⟩ := shape word known
  exact (cutWord_eq capital late s).resolve_left (uncut s place word known)

end Reader

/-! Statements of a script can be read. -/

/-- The last statement is an open quote with nothing but semicolons behind it. -/
example : (convertScript ⟨.mysql, .oracle⟩ {} "SELECT NOW(); -- ;\n ;\x27;;").map (·.map Outcome.sql)
    = .ok ["SELECT SYSDATE", "\x27;;"] := by
  decide +kernel

end SqlDialects
