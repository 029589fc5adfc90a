import SqlDialects.Proofs.Pattern.Matching

/-
The parts that a match remembers. Where every part of a pattern is a run of digits, so is every part
of a match, and a part that no match can avoid is there.
-/
namespace SqlDialects.Pattern

open Text

def remembersDigits : Pattern → Bool
  | .group _ inner => inner == plus .digit
  | .seq first second | .either first second => first.remembersDigits && second.remembersDigits
  | .star inner => inner.remembersDigits
  | _ => true

def remembers (number : Nat) : Pattern → Bool
  | .group other _ => other == number
  | .seq first second => first.remembers number || second.remembers number
  | .either first second => first.remembers number && second.remembers number
  | _ => false

def DigitRun (t : List Char) : Prop := t ≠ [] ∧ ∀ c ∈ t, isPatternDigit c = true

structure Adds (p : Pattern) (new : List (Nat × List Char)) : Prop where
  digits : p.remembersDigits = true → ∀ entry ∈ new, DigitRun entry.2
  present : ∀ number, p.remembers number = true → ∃ entry ∈ new, entry.1 = number

theorem adds_nothing {p : Pattern} (absent : ∀ number, p.remembers number = false) :
    p.Adds [] where
  digits _ _ member := by cases member
  present number found := by
    rw [absent number] at found
    cases found

theorem Adds.seq {p q : Pattern} {before after : List (Nat × List Char)} (first : p.Adds before)
    (second : q.Adds after) : (Pattern.seq p q).Adds (after ++ before) where
  digits known entry member := by
    simp only [remembersDigits, Bool.and_eq_true] at known
    rcases List.mem_append.mp member with later | earlier
    · exact second.digits known.2 entry later
    · exact first.digits known.1 entry earlier
  present number found := by
    simp only [remembers, Bool.or_eq_true] at found
    rcases found with found | found
    · obtain ⟨entry, member, same⟩ := first.present number found
      exact ⟨entry, List.mem_append_right _ member, same⟩
    · obtain ⟨entry, member, same⟩ := second.present number found
      exact ⟨entry, List.mem_append_left _ member, same⟩

theorem Adds.group {p : Pattern} {new : List (Nat × List Char)} (inside : p.Adds new) (number : Nat)
    {text : List Char} (run : p = plus .digit → DigitRun text) :
    (Pattern.group number p).Adds ((number, text) :: new) where
  digits known entry member := by
    have same : p = plus .digit := by simpa [remembersDigits] using known
    rcases List.mem_cons.mp member with rfl | later
    · exact run same
    · exact inside.digits (by rw [same]; rfl) entry later
  present other found := ⟨_, List.mem_cons_self, by simpa [remembers] using found⟩

theorem repeatWithin_adds {p : Pattern}
    (step : ∀ cursor, ∀ x ∈ p.ends cursor, ∃ new, x.groups = new ++ cursor.groups ∧ p.Adds new)
    {bound : List Char} {cursor x : Cursor} (found : x ∈ repeatWithin p.ends bound cursor) :
    ∃ new, x.groups = new ++ cursor.groups ∧ (star p).Adds new := by
  induction bound generalizing cursor with
  | nil =>
    obtain rfl := List.mem_singleton.mp found
    exact ⟨[], rfl, adds_nothing fun _ => rfl⟩
  | cons b bound ih =>
    rw [repeatWithin, List.mem_append] at found
    rcases found with found | found
    · obtain ⟨y, moved, later⟩ := List.mem_flatMap.mp found
      obtain ⟨before, joined, first⟩ := step cursor y (List.mem_filter.mp moved).1
      obtain ⟨after, joinedLater, second⟩ := ih later
      refine ⟨after ++ before, by rw [joinedLater, joined, List.append_assoc], ?_, fun _ found => ?_⟩
      swap
      · cases found
      intro known entry member
      rcases List.mem_append.mp member with member | member
      · exact second.digits known entry member
      · exact first.digits known entry member
    · obtain rfl := List.mem_singleton.mp found
      exact ⟨[], rfl, adds_nothing fun _ => rfl⟩

theorem takeOne_adds {p : Pattern} {test : Char → Bool} {cursor x : Cursor}
    (absent : ∀ number, p.remembers number = false) (found : x ∈ takeOne test cursor) :
    ∃ new, x.groups = new ++ cursor.groups ∧ p.Adds new := by
  obtain ⟨c, _, _, moved⟩ := mem_takeOne found
  exact ⟨[], by rw [moved]; rfl, adds_nothing absent⟩

theorem ends_adds (p : Pattern) {cursor x : Cursor} (found : x ∈ p.ends cursor) :
    ∃ new, x.groups = new ++ cursor.groups ∧ p.Adds new := by
  induction p generalizing cursor x with
  | empty =>
    obtain rfl := List.mem_singleton.mp found
    exact ⟨[], rfl, adds_nothing fun _ => rfl⟩
  | char c => exact takeOne_adds (fun _ => rfl) found
  | letter c => exact takeOne_adds (fun _ => rfl) found
  | digit => exact takeOne_adds (fun _ => rfl) found
  | blank => exact takeOne_adds (fun _ => rfl) found
  | word => exact takeOne_adds (fun _ => rfl) found
  | boundary =>
    obtain ⟨_, rfl⟩ := mem_boundary found
    exact ⟨[], rfl, adds_nothing fun _ => rfl⟩
  | group number inner ih =>
    obtain ⟨y, inside, rfl⟩ := List.mem_map.mp found
    obtain ⟨new, joined, adds⟩ := ih inside
    refine ⟨(number, between cursor.rest y.rest) :: new, by rw [joined]; rfl, adds.group number ?_⟩
    rintro rfl
    obtain ⟨c, g, digits, split, _⟩ := @mem_plus .digit isPatternDigit rfl _ _ inside
    rw [split, between_append]
    exact ⟨List.cons_ne_nil c g, digits⟩
  | seq first second ihf ihs =>
    obtain ⟨y, earlier, later⟩ := mem_seq found
    obtain ⟨before, joined, adds⟩ := ihf earlier
    obtain ⟨after, joinedLater, addsLater⟩ := ihs later
    exact ⟨after ++ before, by rw [joinedLater, joined, List.append_assoc], adds.seq addsLater⟩
  | either first second ihf ihs =>
    rcases List.mem_append.mp found with found | found
    · obtain ⟨new, joined, adds⟩ := ihf found
      refine ⟨new, joined, fun known => adds.digits ?_, fun number known => adds.present number ?_⟩
      · exact (Bool.and_eq_true_iff.mp known).1
      · exact (Bool.and_eq_true_iff.mp known).1
    · obtain ⟨new, joined, adds⟩ := ihs found
      refine ⟨new, joined, fun known => adds.digits ?_, fun number known => adds.present number ?_⟩
      · exact (Bool.and_eq_true_iff.mp known).2
      · exact (Bool.and_eq_true_iff.mp known).2
  | star inner ih => exact repeatWithin_adds (fun cursor x => ih) found

section Matches

variable {p : Pattern} {before : Option Char} {s : List Char} {m : Match}
  (found : p.matchAt? before s = some m) (digits : p.remembersDigits = true)
include found digits

theorem group_digits {number : Nat} {t : List Char} (part : m.group? number = some t) :
    DigitRun t := by
  rw [matchAt?] at found
  obtain ⟨x, first, rfl⟩ := Option.map_eq_some_iff.mp found
  obtain ⟨new, joined, adds⟩ := ends_adds p (List.mem_of_head? first)
  obtain ⟨entry, listed, rfl⟩ := Option.map_eq_some_iff.mp part
  refine adds.digits digits entry ?_
  have member := List.mem_of_find?_eq_some listed
  rwa [joined, List.append_nil] at member

theorem group_present {number : Nat} (present : p.remembers number = true) :
    DigitRun (m.group number) := by
  have part : ∃ t, m.group? number = some t := by
    rw [matchAt?] at found
    obtain ⟨x, first, rfl⟩ := Option.map_eq_some_iff.mp found
    obtain ⟨new, joined, adds⟩ := ends_adds p (List.mem_of_head? first)
    obtain ⟨entry, member, same⟩ := adds.present number present
    have listed : (x.groups.find? fun entry => entry.1 == number).isSome = true :=
      List.find?_isSome.mpr ⟨entry, by rw [joined]; exact List.mem_append_left _ member, by simp [same]⟩
    obtain ⟨other, same⟩ := Option.isSome_iff_exists.mp listed
    exact ⟨other.2, by rw [Match.group?, same]; rfl⟩
  obtain ⟨t, part⟩ := part
  rw [Match.group, part]
  exact group_digits found digits part

end Matches

end SqlDialects.Pattern
