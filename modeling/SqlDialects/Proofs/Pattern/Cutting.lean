import SqlDialects.Proofs.Rules.Patterns

/-
Matches in the front part of a text. Where a text is cut in front of something that is no part of a
word, a match that does not reach beyond the cut is found in the front part as well, and is preferred
there over the same others. So what a pattern does not take may follow without a difference: a
character that none of its parts accepts, or blanks and semicolons behind a pattern that ends with
neither.
-/
namespace SqlDialects

open Text

namespace Pattern

def Cursor.extended (cursor : Cursor) (v : List Char) : Cursor :=
  { cursor with rest := cursor.rest ++ v }

def within (v : List Char) (cursor : Cursor) : Bool := v.length ≤ cursor.rest.length

theorem within_extended (v : List Char) (cursor : Cursor) :
    within v (cursor.extended v) = true := by
  simp [within, Cursor.extended]

theorem beyond_of_suffix {v : List Char} {cursor x : Cursor} (later : x.rest <:+ cursor.rest)
    (beyond : within v cursor = false) : within v x = false := by
  have shorter := later.length_le
  simp only [within, decide_eq_false_iff_not] at beyond ⊢
  omega

/-! Repetitions. -/

theorem repeatWithin_bound (step : Cursor → List Cursor) {bound other : List Char} {cursor : Cursor}
    (enough : cursor.rest.length ≤ bound.length) (also : cursor.rest.length ≤ other.length) :
    repeatWithin step bound cursor = repeatWithin step other cursor := by
  induction bound generalizing other cursor with
  | nil =>
    have empty : cursor.rest.length = 0 := by simpa using enough
    cases other with
    | nil => rfl
    | cons b other => simp [repeatWithin, empty]
  | cons b bound ih =>
    cases other with
    | nil =>
      have empty : cursor.rest.length = 0 := by simpa using also
      simp [repeatWithin, empty]
    | cons c other =>
      have same : ∀ next ∈ (step cursor).filter
          (fun next => next.rest.length < cursor.rest.length),
          repeatWithin step bound next = repeatWithin step other next := by
        intro next member
        have shorter : next.rest.length < cursor.rest.length := by
          simpa using (List.mem_filter.mp member).2
        simp only [List.length_cons] at enough also
        exact ih (by omega) (by omega)
      rw [repeatWithin, repeatWithin, List.flatMap_congr same]

section Cut

variable {v : List Char} {step : Cursor → List Cursor}
  (moves : ∀ cursor, ∀ x ∈ step cursor, x.rest <:+ cursor.rest)
include moves

theorem filter_flatMap_within (xs : List Cursor) :
    (xs.flatMap step).filter (within v)
      = (xs.filter (within v)).flatMap fun x => (step x).filter (within v) := by
  induction xs with
  | nil => rfl
  | cons x xs ih =>
    rw [List.flatMap_cons, List.filter_append, ih]
    cases inside : within v x with
    | true => rw [List.filter_cons_of_pos inside, List.flatMap_cons]
    | false =>
      have none : (step x).filter (within v) = [] :=
        List.filter_eq_nil_iff.mpr fun y member => by
          simp [beyond_of_suffix (moves x y member) inside]
      rw [none, List.filter_cons_of_neg (by simp [inside]), List.nil_append]

theorem repeatWithin_cut
    (cut : ∀ cursor, (step (cursor.extended v)).filter (within v)
      = (step cursor).map (·.extended v)) (bound : List Char) (cursor : Cursor) :
    (repeatWithin step bound (cursor.extended v)).filter (within v)
      = (repeatWithin step bound cursor).map (·.extended v) := by
  induction bound generalizing cursor with
  | nil => simp [repeatWithin, within_extended]
  | cons b bound ih =>
    have steps : ((step (cursor.extended v)).filter
          (fun next => next.rest.length < (cursor.extended v).rest.length)).filter (within v)
        = ((step cursor).filter (fun next => next.rest.length < cursor.rest.length)).map
          (·.extended v) := by
      have shorter : (fun next : Cursor => decide (next.rest.length < (cursor.extended v).rest.length))
          ∘ (Cursor.extended · v) = fun next => decide (next.rest.length < cursor.rest.length) := by
        funext next
        simp [Cursor.extended]
      rw [List.filter_comm, cut, List.filter_map, shorter]
    have again : ∀ cursor, ∀ x ∈ repeatWithin step bound cursor, x.rest <:+ cursor.rest :=
      fun cursor x found => repeatWithin_suffix moves found
    rw [repeatWithin, repeatWithin, List.filter_append, filter_flatMap_within again, steps,
      List.flatMap_map, funext ih, List.map_append, List.map_flatMap]
    simp [within_extended]

end Cut

/-! The ends of a match in the front part. -/

theorem takeOne_cut (test : Char → Bool) (v : List Char) (cursor : Cursor) :
    (takeOne test (cursor.extended v)).filter (within v)
      = (takeOne test cursor).map (·.extended v) := by
  obtain ⟨before, rest, groups⟩ := cursor
  cases rest with
  | nil =>
    cases v with
    | nil => rfl
    | cons c v =>
      simp only [takeOne, Cursor.extended, List.nil_append]
      split <;> simp [within]
  | cons c rest =>
    simp only [takeOne, Cursor.extended, List.cons_append]
    split <;> simp [within]

theorem between_extended (s r v : List Char) : between (s ++ v) (r ++ v) = between s r := by
  rw [between, between, List.length_append, List.length_append, Nat.add_sub_add_right,
    List.take_append_of_le_length (by omega)]

/-- In front of the end of a word, a pattern finds the same ends in a part of the text. -/
theorem ends_cut (p : Pattern) {v : List Char} (stop : EndsRun v) (cursor : Cursor) :
    (p.ends (cursor.extended v)).filter (within v) = (p.ends cursor).map (·.extended v) := by
  induction p generalizing cursor with
  | empty => simp [ends, within_extended]
  | char c => exact takeOne_cut _ v cursor
  | letter c => exact takeOne_cut _ v cursor
  | digit => exact takeOne_cut _ v cursor
  | blank => exact takeOne_cut _ v cursor
  | word => exact takeOne_cut _ v cursor
  | boundary =>
    have side : atBoundary (cursor.extended v) = atBoundary cursor := by
      obtain ⟨before, rest, groups⟩ := cursor
      cases rest with
      | cons c rest => rfl
      | nil =>
        have ended : v.head?.any isWordCharacter = false := by
          cases first : v.head? with
          | none => rfl
          | some c => exact stop c first
        simp [atBoundary, Cursor.extended, ended]
    rw [ends_boundary, ends_boundary, side]
    split <;> simp [within_extended]
  | group number inner ih =>
    have kept : (fun stop : Cursor => within v { stop with
        groups := (number, between (cursor.extended v).rest stop.rest) :: stop.groups }) = within v :=
      rfl
    rw [ends_group, ends_group, List.filter_map, Function.comp_def, kept, ih, List.map_map, List.map_map]
    exact congrArg (List.map · _) (funext fun stop => by
      simp [Cursor.extended, between_extended])
  | seq first second ihf ihs =>
    rw [ends_seq, ends_seq, filter_flatMap_within fun cursor x found => ends_suffix second found, ihf,
      List.flatMap_map, funext ihs, List.map_flatMap]
  | either first second ihf ihs =>
    rw [ends_either, ends_either, List.filter_append, ihf, ihs, List.map_append]
  | star inner ih =>
    have enough := @repeatWithin_bound inner.ends (cursor.extended v).rest cursor.rest cursor
      (by simp [Cursor.extended]) (Nat.le_refl _)
    rw [ends_star, ends_star, repeatWithin_cut (fun cursor x found => ends_suffix inner found) ih, enough]

theorem matchAt_cut {p : Pattern} {before : Option Char} {u v : List Char} (stop : EndsRun v)
    (inside : ∀ x ∈ p.ends { before, rest := u ++ v }, within v x = true) :
    p.matchAt? before (u ++ v) = p.matchAt? before u := by
  have same := ends_cut p stop { before, rest := u }
  rw [Cursor.extended, List.filter_eq_self.mpr inside] at same
  rw [matchAt?, matchAt?, same, List.head?_map, Option.map_map]
  exact congrArg (Option.map · _) (funext fun stop => by
    simp [Cursor.extended, between_extended])

/-! Characters that no part of a pattern takes. -/

def avoids (q : Char) : Pattern → Bool
  | .empty | .boundary => true
  | .char c => q != c
  | .letter c => foldCase q != foldCase c
  | .digit => !isPatternDigit q
  | .blank => !isBlank q
  | .word => !isWordCharacter q
  | .group _ inner | .star inner => inner.avoids q
  | .seq first second | .either first second => first.avoids q && second.avoids q

def Over (q : Char) (cursor x : Cursor) : Prop :=
  ∃ k, cursor.rest = k ++ x.rest ∧ q ∉ k

theorem over_refl (q : Char) (cursor : Cursor) : Over q cursor cursor :=
  ⟨[], rfl, List.not_mem_nil⟩

theorem Over.trans {q : Char} {x y z : Cursor} (first : Over q x y) (second : Over q y z) :
    Over q x z := by
  obtain ⟨k, split, absent⟩ := first
  obtain ⟨l, more, missing⟩ := second
  exact ⟨k ++ l, by rw [split, more, List.append_assoc], by simp [absent, missing]⟩

theorem over_takeOne {q : Char} {test : Char → Bool} (other : test q = false) {cursor x : Cursor}
    (found : x ∈ takeOne test cursor) : Over q cursor x := by
  obtain ⟨c, accepted, split, _⟩ := mem_takeOne found
  refine ⟨[c], split, fun same => ?_⟩
  rw [← List.mem_singleton.mp same, other] at accepted
  cases accepted

theorem ends_over {q : Char} {p : Pattern} (avoided : p.avoids q = true) {cursor x : Cursor}
    (found : x ∈ p.ends cursor) : Over q cursor x := by
  induction p generalizing cursor x with
  | empty =>
    obtain rfl := List.mem_singleton.mp found
    exact over_refl q _
  | char c => exact over_takeOne (by simpa [avoids] using avoided) found
  | letter c => exact over_takeOne (by simpa [avoids] using avoided) found
  | digit => exact over_takeOne (by simpa [avoids] using avoided) found
  | blank => exact over_takeOne (by simpa [avoids] using avoided) found
  | word => exact over_takeOne (by simpa [avoids] using avoided) found
  | boundary =>
    obtain ⟨_, rfl⟩ := mem_boundary found
    exact over_refl q _
  | group number inner ih =>
    obtain ⟨y, inside, rest⟩ := mem_group found
    obtain ⟨k, split, absent⟩ := ih avoided inside
    exact ⟨k, by rw [split, rest], absent⟩
  | seq first second ihf ihs =>
    obtain ⟨one, other⟩ := (Bool.and_eq_true ..).mp avoided
    obtain ⟨y, before, after⟩ := mem_seq found
    exact (ihf one before).trans (ihs other after)
  | either first second ihf ihs =>
    obtain ⟨one, other⟩ := (Bool.and_eq_true ..).mp avoided
    rcases List.mem_append.mp found with found | found
    · exact ihf one found
    · exact ihs other found
  | star inner ih =>
    exact repeatWithin_related (over_refl q) Over.trans (fun cursor y moved => ih avoided moved) found

theorem Over.suffix {q : Char} {cursor x : Cursor} (passed : Over q cursor x) {a r : List Char}
    (split : cursor.rest = a ++ q :: r) : q :: r <:+ x.rest := by
  obtain ⟨k, whole, absent⟩ := passed
  rcases List.append_eq_append_iff.mp (whole.symm.trans split) with
    ⟨more, _, joined⟩ | ⟨more, longer, joined⟩
  · exact ⟨more, joined.symm⟩
  · cases more with
    | nil => exact ⟨[], joined⟩
    | cons d more =>
      obtain rfl : q = d := (List.cons.inj joined).1
      exact absurd (by rw [longer]; simp) absent

theorem matchAt_avoided {q : Char} {p : Pattern} (avoided : p.avoids q = true)
    (mark : isWordCharacter q = false) (before : Option Char) (u t : List Char) :
    p.matchAt? before (u ++ q :: t) = p.matchAt? before u := by
  refine matchAt_cut (endsRun_cons mark t) fun x found => ?_
  have later := (Over.suffix (ends_over avoided found) rfl).length_le
  simpa [within] using later

/-! Blanks and semicolons behind a text. -/

def isLoose (c : Char) : Bool := isBlank c || c == ';'

theorem not_wordCharacter_of_loose {c : Char} (loose : isLoose c = true) :
    isWordCharacter c = false := by
  rcases (Bool.or_eq_true ..).mp loose with blank | mark
  · exact not_wordCharacter_of_blank blank
  · rw [beq_iff_eq.mp mark]
    rfl

theorem endsRun_of_loose {n : List Char} (loose : ∀ c ∈ n, isLoose c = true) : EndsRun n :=
  fun c first => not_wordCharacter_of_loose (loose c (List.mem_of_head? first))

def EndsTight (p : Pattern) : Prop :=
  ∀ cursor, ∀ x ∈ p.ends cursor, ∃ k c, cursor.rest = k ++ c :: x.rest ∧ isLoose c = false

theorem tight_takeOne {p : Pattern} {test : Char → Bool} (same : p.ends = takeOne test)
    (apart : ∀ c, test c = true → isLoose c = false) : p.EndsTight := by
  intro cursor x found
  rw [same] at found
  obtain ⟨c, accepted, split, _⟩ := mem_takeOne found
  exact ⟨[], c, split, apart c accepted⟩

theorem tight_seq {q : Pattern} (tight : q.EndsTight) (p : Pattern) : (Pattern.seq p q).EndsTight := by
  intro cursor x found
  obtain ⟨y, before, after⟩ := mem_seq found
  obtain ⟨k, c, split, solid⟩ := tight y x after
  obtain ⟨l, joined⟩ := ends_suffix p before
  exact ⟨l ++ k, c, by rw [← joined, split, List.append_assoc], solid⟩

theorem tight_sequence {p : Pattern} (tight : p.EndsTight) (parts : List Pattern) :
    (sequence (parts ++ [p])).EndsTight := by
  induction parts with
  | nil =>
    intro cursor x found
    obtain ⟨y, before, after⟩ := mem_seq found
    obtain rfl := List.mem_singleton.mp after
    exact tight cursor x before
  | cons q parts ih => exact tight_seq ih q

theorem tight_boundary {p : Pattern} (tight : p.EndsTight) :
    (Pattern.seq p (.seq .boundary .empty)).EndsTight := by
  intro cursor x found
  obtain ⟨y, before, after⟩ := mem_seq found
  obtain ⟨z, accepted, last⟩ := mem_seq after
  obtain ⟨_, rfl⟩ := mem_boundary accepted
  obtain rfl := List.mem_singleton.mp last
  exact tight cursor x before

/-- Blanks and semicolons behind a text do not matter to a pattern that ends with neither. -/
theorem matchAt_loose {p : Pattern} (tight : p.EndsTight) {n : List Char}
    (loose : ∀ c ∈ n, isLoose c = true) (before : Option Char) (u : List Char) :
    p.matchAt? before (u ++ n) = p.matchAt? before u := by
  refine matchAt_cut (endsRun_of_loose loose) fun x found => ?_
  obtain ⟨k, c, split, solid⟩ := tight _ x found
  by_contra beyond
  have short : x.rest.length < n.length := by simpa [within] using beyond
  have member : c ∈ n := by
    rcases List.append_eq_append_iff.mp split with ⟨more, longer, joined⟩ | ⟨more, longer, joined⟩
    · rw [joined]
      simp
    · cases more with
      | nil =>
        rw [show n = c :: x.rest from joined.symm]
        exact List.mem_cons_self
      | cons d more =>
        have length := congrArg List.length joined
        simp only [List.length_append, List.length_cons] at length
        omega
  rw [loose c member] at solid
  cases solid

end Pattern

end SqlDialects
