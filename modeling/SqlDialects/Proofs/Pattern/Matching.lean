import SqlDialects.Proofs.Text.WordCharacters

/-
How patterns match: what the end of a match says about the text before it, and which match is the
preferred one. A sequence prefers the first end of each of its parts if the rest matches there.
-/
namespace SqlDialects.Pattern

open Text

def Same (k : List Char) (word : String) : Prop := k.map foldCase = word.toList.map foldCase

theorem getLast_cons_or (c : Char) (u : List Char) (before : Option Char) :
    (c :: u).getLast?.or before = u.getLast?.or (some c) := by
  rw [List.getLast?_cons]
  cases u.getLast? <;> rfl

namespace Cursor

def past (cursor : Cursor) (k rest : List Char) : Cursor :=
  { cursor with before := k.getLast?.or cursor.before, rest }

theorem past_cons (cursor : Cursor) (c : Char) (k rest : List Char) :
    { cursor with before := some c, rest := k ++ rest }.past k rest = cursor.past (c :: k) rest := by
  rw [past, past, getLast_cons_or]

end Cursor

theorem between_append (m s : List Char) : between (m ++ s) s = m := by
  simp [between]

/-! The ends, by the form of the pattern. -/

theorem ends_char (c : Char) (cursor : Cursor) : (char c).ends cursor = takeOne (· == c) cursor :=
  rfl

theorem ends_letter (c : Char) (cursor : Cursor) :
    (letter c).ends cursor = takeOne (fun d => foldCase d == foldCase c) cursor := rfl

theorem ends_boundary (cursor : Cursor) :
    boundary.ends cursor = if atBoundary cursor then [cursor] else [] := rfl

theorem ends_group (number : Nat) (inner : Pattern) (cursor : Cursor) :
    (group number inner).ends cursor = (inner.ends cursor).map fun stop =>
      { stop with groups := (number, between cursor.rest stop.rest) :: stop.groups } := rfl

theorem ends_seq (p q : Pattern) (cursor : Cursor) :
    (seq p q).ends cursor = (p.ends cursor).flatMap q.ends := rfl

theorem ends_either (p q : Pattern) (cursor : Cursor) :
    (either p q).ends cursor = p.ends cursor ++ q.ends cursor := rfl

theorem ends_star (inner : Pattern) (cursor : Cursor) :
    (star inner).ends cursor = repeatWithin inner.ends cursor.rest cursor := rfl

/-! What an end says. -/

theorem mem_takeOne {test : Char → Bool} {cursor x : Cursor} (found : x ∈ takeOne test cursor) :
    ∃ c, test c = true ∧ cursor.rest = c :: x.rest ∧ x = cursor.past [c] x.rest := by
  rw [takeOne] at found
  split at found
  · cases found
  · next c rest split =>
    split at found
    · next accepted =>
      obtain rfl := List.mem_singleton.mp found
      exact ⟨c, accepted, split, rfl⟩
    · cases found

theorem mem_seq {p q : Pattern} {cursor x : Cursor} (found : x ∈ (seq p q).ends cursor) :
    ∃ y ∈ p.ends cursor, x ∈ q.ends y :=
  List.mem_flatMap.mp found

theorem mem_boundary {cursor x : Cursor} (found : x ∈ boundary.ends cursor) :
    atBoundary cursor = true ∧ x = cursor := by
  rw [ends_boundary] at found
  split at found
  · next accepted => exact ⟨accepted, List.mem_singleton.mp found⟩
  · cases found

theorem mem_letters {cs : List Char} {cursor x : Cursor}
    (found : x ∈ (sequence (cs.map .letter)).ends cursor) :
    ∃ k, cursor.rest = k ++ x.rest ∧ k.map foldCase = cs.map foldCase
      ∧ x = cursor.past k x.rest := by
  induction cs generalizing cursor with
  | nil =>
    obtain rfl := List.mem_singleton.mp found
    exact ⟨[], rfl, rfl, rfl⟩
  | cons c cs ih =>
    obtain ⟨y, first, later⟩ := mem_seq found
    obtain ⟨d, same, split, moved⟩ := mem_takeOne first
    obtain ⟨k, splitLater, sameLater, movedLater⟩ := ih later
    refine ⟨d :: k, by rw [split, splitLater]; rfl, ?_, ?_⟩
    · simpa [sameLater] using same
    · rw [movedLater, moved, splitLater]
      exact Cursor.past_cons cursor d k x.rest

theorem mem_anyCase {word : String} {cursor x : Cursor} (found : x ∈ (anyCase word).ends cursor) :
    ∃ k, cursor.rest = k ++ x.rest ∧ Same k word ∧ x = cursor.past k x.rest :=
  mem_letters found

theorem mem_repeatWithin {test : Char → Bool} {bound : List Char} {cursor x : Cursor}
    (found : x ∈ repeatWithin (takeOne test) bound cursor) :
    ∃ g, (∀ c ∈ g, test c = true) ∧ cursor.rest = g ++ x.rest ∧ x = cursor.past g x.rest := by
  induction bound generalizing cursor with
  | nil =>
    obtain rfl := List.mem_singleton.mp found
    exact ⟨[], by simp, rfl, rfl⟩
  | cons b bound ih =>
    rw [repeatWithin, List.mem_append] at found
    rcases found with found | found
    · obtain ⟨y, moved, later⟩ := List.mem_flatMap.mp found
      obtain ⟨c, accepted, split, same⟩ := mem_takeOne (List.mem_filter.mp moved).1
      obtain ⟨g, inside, splitLater, sameLater⟩ := ih later
      refine ⟨c :: g, by simpa [accepted] using inside, by rw [split, splitLater]; rfl, ?_⟩
      rw [sameLater, same, splitLater]
      exact Cursor.past_cons cursor c g x.rest
    · obtain rfl := List.mem_singleton.mp found
      exact ⟨[], by simp, rfl, rfl⟩

section Classes

variable {p : Pattern} {test : Char → Bool} (same : p.ends = takeOne test)
include same

theorem mem_star {cursor x : Cursor} (found : x ∈ (star p).ends cursor) :
    ∃ g, (∀ c ∈ g, test c = true) ∧ cursor.rest = g ++ x.rest ∧ x = cursor.past g x.rest := by
  rw [ends_star, same] at found
  exact mem_repeatWithin found

theorem mem_plus {cursor x : Cursor} (found : x ∈ (plus p).ends cursor) :
    ∃ c g, (∀ d ∈ c :: g, test d = true) ∧ cursor.rest = c :: g ++ x.rest
      ∧ x = cursor.past (c :: g) x.rest := by
  obtain ⟨y, first, later⟩ := mem_seq found
  rw [same] at first
  obtain ⟨c, accepted, split, moved⟩ := mem_takeOne first
  obtain ⟨g, inside, splitLater, movedLater⟩ := mem_star same later
  refine ⟨c, g, by simpa [accepted] using inside, by rw [split, splitLater]; rfl, ?_⟩
  rw [movedLater, moved, splitLater]
  exact Cursor.past_cons cursor c g x.rest

end Classes

theorem mem_group {number : Nat} {p : Pattern} {cursor x : Cursor}
    (found : x ∈ (group number p).ends cursor) : ∃ y ∈ p.ends cursor, x.rest = y.rest := by
  obtain ⟨y, inside, rfl⟩ := List.mem_map.mp found
  exact ⟨y, inside, rfl⟩

/-! The preferred end. -/

def first (p : Pattern) (cursor : Cursor) : Option Cursor := (p.ends cursor).head?

theorem first_seq {p q : Pattern} {cursor middle stop : Cursor}
    (before : p.first cursor = some middle) (after : q.first middle = some stop) :
    (seq p q).first cursor = some stop := by
  obtain ⟨others, split⟩ := List.head?_eq_some_iff.mp before
  obtain ⟨later, more⟩ := List.head?_eq_some_iff.mp after
  rw [first, ends_seq, split, List.flatMap_cons, more]
  rfl

theorem first_boundary {cursor : Cursor} (accepted : atBoundary cursor = true) :
    boundary.first cursor = some cursor := by
  rw [first, ends_boundary, if_pos accepted]
  rfl

theorem first_takeOne {test : Char → Bool} {cursor : Cursor} {c : Char} {rest : List Char}
    (split : cursor.rest = c :: rest) (accepted : test c = true) :
    takeOne test cursor = [cursor.past [c] rest] := by
  rw [takeOne, split]
  simp [accepted, Cursor.past]

theorem first_letters {cs k : List Char} (same : k.map foldCase = cs.map foldCase)
    {cursor : Cursor} {rest : List Char} (split : cursor.rest = k ++ rest) :
    (sequence (cs.map .letter)).first cursor = some (cursor.past k rest) := by
  induction cs generalizing k cursor with
  | nil =>
    obtain rfl : k = [] := by simpa using same
    obtain rfl : rest = cursor.rest := by rw [split]; rfl
    rfl
  | cons c cs ih =>
    cases k with
    | nil => simp at same
    | cons d k =>
      simp only [List.map_cons, List.cons.injEq] at same
      have one : (letter c).first cursor
          = some { cursor with before := some d, rest := k ++ rest } := by
        rw [first, ends_letter, first_takeOne split (by simpa using same.1)]
        rfl
      rw [← Cursor.past_cons]
      exact first_seq one (ih same.2 rfl)

theorem first_anyCase {word : String} {k : List Char} (same : Same k word) {cursor : Cursor}
    {rest : List Char} (split : cursor.rest = k ++ rest) :
    (anyCase word).first cursor = some (cursor.past k rest) :=
  first_letters same split

theorem first_char {c : Char} {cursor : Cursor} {rest : List Char}
    (split : cursor.rest = c :: rest) : (char c).first cursor = some (cursor.past [c] rest) := by
  rw [first, ends_char, first_takeOne split (by simp)]
  rfl

theorem first_repeatWithin {test : Char → Bool} {g rest bound : List Char}
    (inside : ∀ c ∈ g, test c = true) (stop : ∀ c, rest.head? = some c → test c = false)
    (enough : g.length ≤ bound.length) {cursor : Cursor} (split : cursor.rest = g ++ rest) :
    (repeatWithin (takeOne test) bound cursor).head? = some (cursor.past g rest) := by
  induction g generalizing bound cursor with
  | nil =>
    obtain rfl : rest = cursor.rest := by rw [split]; rfl
    cases bound with
    | nil => rfl
    | cons b bound =>
      have stuck : takeOne test cursor = [] := by
        rw [takeOne]
        split
        · rfl
        · next c rest found => rw [if_neg (by simp [stop c (by rw [found]; rfl)])]
      rw [repeatWithin, stuck]
      rfl
  | cons c g ih =>
    cases bound with
    | nil => simp at enough
    | cons b bound =>
      have later := @ih bound (fun d member => inside d (by simp [member])) (by simpa using enough)
        { cursor with before := some c, rest := g ++ rest } rfl
      rw [Cursor.past_cons] at later
      have moved : (takeOne test cursor).filter (fun next =>
          next.rest.length < cursor.rest.length)
          = [{ cursor with before := some c, rest := g ++ rest }] := by
        rw [first_takeOne split (inside c (by simp)), split]
        simp [Cursor.past]
      rw [repeatWithin, moved, List.flatMap_singleton, List.head?_append, later]
      rfl

section Classes

variable {p : Pattern} {test : Char → Bool} (same : p.ends = takeOne test)
include same

theorem first_star {g rest : List Char} (inside : ∀ c ∈ g, test c = true)
    (stop : ∀ c, rest.head? = some c → test c = false) {cursor : Cursor}
    (split : cursor.rest = g ++ rest) : (star p).first cursor = some (cursor.past g rest) := by
  rw [first, ends_star, same]
  exact first_repeatWithin inside stop (by simp [split]) split

theorem first_plus {c : Char} {g rest : List Char} (inside : ∀ d ∈ c :: g, test d = true)
    (stop : ∀ d, rest.head? = some d → test d = false) {cursor : Cursor}
    (split : cursor.rest = c :: g ++ rest) :
    (plus p).first cursor = some (cursor.past (c :: g) rest) := by
  have one : p.first cursor = some { cursor with before := some c, rest := g ++ rest } := by
    rw [first, same, first_takeOne split (inside c (by simp))]
    rfl
  rw [← Cursor.past_cons]
  exact first_seq one (first_star same (fun d member => inside d (by simp [member])) stop rfl)

end Classes

theorem first_group {number : Nat} {p : Pattern} {cursor stop : Cursor}
    (found : p.first cursor = some stop) :
    (group number p).first cursor
      = some { stop with groups := (number, between cursor.rest stop.rest) :: stop.groups } := by
  rw [first, ends_group, List.head?_map]
  exact congrArg (Option.map _) found

/-! Matches. -/

theorem matchAt_of_first {p : Pattern} {before : Option Char} {m s : List Char} {stop : Cursor}
    (found : p.first { before, rest := m ++ s } = some stop) (rest : stop.rest = s) :
    p.matchAt? before (m ++ s) = some ⟨m, stop.groups⟩ := by
  rw [matchAt?]
  rw [first] at found
  rw [found, ← rest]
  simp [between_append]

theorem matchAt_ends {p : Pattern} {before : Option Char} {s : List Char} {m : Match}
    (found : p.matchAt? before s = some m) :
    ∃ x ∈ p.ends { before, rest := s }, m.text = between s x.rest := by
  rw [matchAt?] at found
  obtain ⟨x, first, rfl⟩ := Option.map_eq_some_iff.mp found
  exact ⟨x, List.mem_of_head? first, rfl⟩

theorem matchAt_none {p : Pattern} {before : Option Char} {s : List Char}
    (fails : ∀ x, x ∉ p.ends { before, rest := s }) : p.matchAt? before s = none := by
  rw [matchAt?, List.eq_nil_iff_forall_not_mem.mpr fails]
  rfl

end SqlDialects.Pattern
