import SqlDialects.Proofs.Grammar.Basic
import SqlDialects.Proofs.Text.Characters

/-
Gaps, and what stands behind them. A gap is the longest run of blanks and comments at the front of a
text. What a text goes on with is told by the first character behind the gap and by the word that
this character begins; both decide which keywords and symbols can be read.
-/
namespace SqlDialects.Reader

theorem afterBlockComment_shorter (s r : List Char) (h : afterBlockComment s = some r) :
    ∃ g, s = g ++ r := by
  fun_induction afterBlockComment s with
  | case1 rest => exact ⟨['*', '/'], by simpa using h⟩
  | case2 c rest _ ih =>
    obtain ⟨g, rfl⟩ := ih h
    exact ⟨c :: g, rfl⟩
  | case3 => cases h

theorem afterLineComment_shorter (s r : List Char) (h : afterLineComment s = some r) :
    ∃ g, s = g ++ r := by
  have split := List.takeWhile_append_dropWhile (p := fun c => c != '\r' && c != '\n') (l := s)
  simp only [afterLineComment] at h
  split at h
  · next rest found => cases h; exact ⟨_, (found ▸ split).symm⟩
  · cases h
  · next rest _ _ => cases h; exact ⟨_, split.symm⟩

theorem afterGap_shorter (s r : List Char) (h : afterGap s = some r) :
    ∃ g, g ≠ [] ∧ s = g ++ r := by
  unfold afterGap at h
  split at h
  · cases h; exact ⟨[' '], by simp⟩
  · cases h; exact ⟨['\t'], by simp⟩
  · cases h; exact ⟨['\r'], by simp⟩
  · cases h; exact ⟨['\n'], by simp⟩
  · next rest =>
    obtain ⟨g, rfl⟩ := afterLineComment_shorter rest r h
    exact ⟨'-' :: '-' :: g, by simp⟩
  · next rest =>
    obtain ⟨g, rfl⟩ := afterBlockComment_shorter rest r h
    exact ⟨'/' :: '*' :: g, by simp⟩
  · cases h

theorem skipGapsWithin_enough (bound s : List Char) (enough : s.length ≤ bound.length) :
    afterGap (skipGapsWithin bound s) = none := by
  induction bound generalizing s with
  | nil =>
    have empty : s = [] := List.eq_nil_of_length_eq_zero (by simpa using enough)
    subst empty
    rfl
  | cons c bound ih =>
    rw [skipGapsWithin]
    split
    · next r found =>
      obtain ⟨g, nonempty, rfl⟩ := afterGap_shorter s r found
      have long : 0 < g.length := List.length_pos_iff.mpr nonempty
      rw [List.length_append, List.length_cons] at enough
      exact ih r (by omega)
    · next found => exact found

theorem afterGap_skipGaps (s : List Char) : afterGap (skipGaps s) = none :=
  skipGapsWithin_enough s s (Nat.le_refl _)

theorem skipGapsWithin_of_none (bound s : List Char) (solid : afterGap s = none) :
    skipGapsWithin bound s = s := by
  cases bound with
  | nil => rfl
  | cons c bound => rw [skipGapsWithin, solid]

theorem skipGaps_of_none (s : List Char) (solid : afterGap s = none) : skipGaps s = s :=
  skipGapsWithin_of_none s s solid

theorem skipGapsWithin_bound (bound more s : List Char) (enough : s.length ≤ bound.length)
    (also : s.length ≤ more.length) : skipGapsWithin bound s = skipGapsWithin more s := by
  induction bound generalizing more s with
  | nil =>
    have empty : s = [] := List.eq_nil_of_length_eq_zero (by simpa using enough)
    subst empty
    rw [skipGapsWithin_of_none more [] rfl, skipGapsWithin_of_none [] [] rfl]
  | cons c bound ih =>
    cases found : afterGap s with
    | none => rw [skipGapsWithin_of_none _ s found, skipGapsWithin_of_none _ s found]
    | some r =>
      obtain ⟨g, nonempty, rfl⟩ := afterGap_shorter s r found
      have long : 0 < g.length := List.length_pos_iff.mpr nonempty
      rw [List.length_append] at also enough
      cases more with
      | nil => simp only [List.length_nil] at also; omega
      | cons d more =>
        rw [List.length_cons] at also enough
        rw [skipGapsWithin, skipGapsWithin, found]
        exact ih more r (by omega) (by omega)

theorem skipGaps_of_some (s r : List Char) (found : afterGap s = some r) :
    skipGaps s = skipGaps r := by
  obtain ⟨g, nonempty, rfl⟩ := afterGap_shorter s r found
  have long : 0 < g.length := List.length_pos_iff.mpr nonempty
  cases g with
  | nil => exact absurd rfl nonempty
  | cons c g =>
    rw [skipGaps, List.cons_append, skipGapsWithin, ← List.cons_append, found]
    exact skipGapsWithin_bound _ _ r (by simp) (Nat.le_refl _)

theorem skipGaps_skipGaps (s : List Char) : skipGaps (skipGaps s) = skipGaps s :=
  skipGaps_of_none _ (afterGap_skipGaps s)

theorem skipGapsWithin_split (bound s : List Char) : ∃ g, s = g ++ skipGapsWithin bound s := by
  induction bound generalizing s with
  | nil => exact ⟨[], rfl⟩
  | cons c bound ih =>
    rw [skipGapsWithin]
    split
    · next r found =>
      obtain ⟨g, _, rfl⟩ := afterGap_shorter s r found
      obtain ⟨more, split⟩ := ih r
      exact ⟨g ++ more, by rw [List.append_assoc, ← split]⟩
    · exact ⟨[], rfl⟩

end SqlDialects.Reader

namespace SqlDialects

def Gap (g rest : List Char) : Prop := Reader.skipGaps (g ++ rest) = rest

namespace Reader

theorem gap_solid {g rest : List Char} (gap : Gap g rest) : afterGap rest = none := by
  have h := afterGap_skipGaps (g ++ rest)
  rwa [gap] at h

theorem gap_none {rest : List Char} (solid : afterGap rest = none) : Gap [] rest :=
  skipGaps_of_none rest solid

theorem gap_blank {rest : List Char} (solid : afterGap rest = none) : Gap [' '] rest :=
  (skipGaps_of_some (' ' :: rest) rest rfl).trans (skipGaps_of_none rest solid)

theorem skipGaps_split (s : List Char) : ∃ g, s = g ++ skipGaps s ∧ Gap g (skipGaps s) := by
  obtain ⟨g, split⟩ : ∃ g, s = g ++ skipGaps s := skipGapsWithin_split s s
  exact ⟨g, split, by rw [Gap, ← split]⟩

theorem solid_of_head {c : Char} (s : List Char)
    (other : c ∉ [' ', '\t', '\r', '\n', '-', '/']) : afterGap (c :: s) = none := by
  unfold afterGap
  split <;> simp_all

theorem solid_minus {s : List Char} (single : s.head? ≠ some '-') :
    afterGap ('-' :: s) = none := by
  unfold afterGap
  split <;> simp_all

theorem solid_nil : afterGap [] = none := rfl

end Reader

end SqlDialects
