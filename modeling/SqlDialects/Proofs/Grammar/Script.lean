import SqlDialects.Proofs.Canonical.Parts
import SqlDialects.Proofs.Canonical.RoundTrip
import SqlDialects.Reader.Script

/-
One character of a script that opens no comment, and texts without blanks around them.
-/
namespace SqlDialects

open Reader Text

/-! Single characters. -/

def opensComment (c : Char) (next : Option Char) : Bool :=
  c == '-' && next == some '-' || c == '/' && next == some '*'

theorem opensComment_eq_false {c : Char} {next : Option Char} :
    opensComment c next = false ↔ (c = '-' → next ≠ some '-') ∧ (c = '/' → next ≠ some '*') := by
  simp [opensComment]

theorem alone_other {c : Char} (minus : c ≠ '-') (slash : c ≠ '/') (next : Option Char) :
    opensComment c next = false := by
  simp [opensComment, minus, slash]

theorem alone_quote {q : Char} (known : Nesting.isQuote q = true) (next : Option Char) :
    opensComment q next = false := by
  refine alone_other ?_ ?_ next <;> (rintro rfl; cases known)

theorem alone_tail {c : Char} {rest : List Char} (line : ∀ r, c = '-' → rest = '-' :: r → False)
    (block : ∀ r, c = '/' → rest = '*' :: r → False) : opensComment c rest.head? = false := by
  refine opensComment_eq_false.mpr ⟨fun sign second => ?_, fun sign second => ?_⟩
  · obtain ⟨r, split⟩ := List.head?_eq_some_iff.mp second
    exact line r sign split
  · obtain ⟨r, split⟩ := List.head?_eq_some_iff.mp second
    exact block r sign split

theorem pieces_code {c : Char} {rest : List Char} (alone : opensComment c rest.head? = false) :
    ScriptScan.code.pieces (c :: rest)
      = if Nesting.isQuote c then Text.prepend c ((ScriptScan.quoted c).pieces rest)
        else if c = ';' then [] :: ScriptScan.code.pieces rest
        else Text.prepend c (ScriptScan.code.pieces rest) := by
  obtain ⟨line, block⟩ := opensComment_eq_false.mp alone
  rw [ScriptScan.pieces.eq_def]
  split
  · next same => cases same
  · next state same => cases state
  · next state same => cases state
  · next state same => cases state
  · next same =>
    cases same
    exact absurd rfl (line rfl)
  · next same =>
    cases same
    exact absurd rfl (block rfl)
  · next same =>
    cases same
    rfl

/-! Blanks around a text. -/

structure Trimmed (s : List Char) : Prop where
  begins : ∃ c, s.head? = some c ∧ isBlank c = false
  ends : ∃ c, s.getLast? = some c ∧ isBlank c = false

theorem Trimmed.ne_nil {s : List Char} (trimmed : Trimmed s) : s ≠ [] := by
  rintro rfl
  obtain ⟨c, first, _⟩ := trimmed.begins
  cases first

theorem Trimmed.trim {s : List Char} (trimmed : Trimmed s) : Text.trim s = s := by
  obtain ⟨c, first, solid⟩ := trimmed.begins
  obtain ⟨d, last, blank⟩ := trimmed.ends
  obtain ⟨t, rfl⟩ := List.head?_eq_some_iff.mp first
  rw [Text.trim, trimStart, List.dropWhile_cons_of_neg (by simp [solid])]
  exact dropEndWhile_of_last last blank

theorem trimmed_trim {s : List Char} (nonempty : Text.trim s ≠ []) : Trimmed (Text.trim s) where
  begins := by
    obtain ⟨c, t, split⟩ := List.exists_cons_of_ne_nil nonempty
    have front : Text.trim s <+: trimStart s := by
      have shorter := List.dropWhile_suffix isBlank (l := (trimStart s).reverse)
      exact List.reverse_suffix.mp (by simpa [Text.trim, dropEndWhile] using shorter)
    refine ⟨c, by rw [split]; rfl, Reader.dropWhile_ended isBlank s c ?_⟩
    rw [split] at front
    obtain ⟨u, joined⟩ := front
    rw [← trimStart, ← joined]
    rfl
  ends := by
    obtain ⟨c, last⟩ : ∃ c, (Text.trim s).getLast? = some c :=
      ⟨_, List.getLast?_eq_some_getLast nonempty⟩
    refine ⟨c, last, Reader.dropWhile_ended isBlank (trimStart s).reverse c ?_⟩
    simpa [Text.trim, dropEndWhile] using last

theorem Closed.ne_nil {t : List Char} (closed : Closed t) : t ≠ [] := by
  rintro rfl
  obtain ⟨c, last, _⟩ := closed
  cases last

theorem trimmed_of_closed {s : List Char} (begins : ∃ c, s.head? = some c ∧ isBlank c = false)
    (closed : Closed s) : Trimmed s := by
  obtain ⟨d, last, solid, _⟩ := closed
  exact ⟨begins, d, last, solid⟩

end SqlDialects
