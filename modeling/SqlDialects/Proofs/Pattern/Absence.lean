import SqlDialects.Proofs.Pattern.Cutting

/-
Texts in which a pattern does not match, and what a rule for another pattern may do to them. A match
that ends in front of what a rule has written was there before, so a new match begins in the written
text or goes on into it. What is written begins with a word; a pattern that takes no such word within a
match cannot go on into it.
-/
namespace SqlDialects

open Text

namespace Pattern

/-! Matches in front of another text. -/

structure Swapped (v t : List Char) (cursor other : Cursor) : Prop where
  before : other.before = cursor.before
  rest : ∃ a, cursor.rest = a ++ v ∧ other.rest = a ++ t

theorem swapped_takeOne {v t : List Char} {test : Char → Bool} {cursor other x : Cursor}
    (swapped : Swapped v t cursor other) (found : x ∈ takeOne test cursor) (short : v <:+ x.rest) :
    ∃ y ∈ takeOne test other, Swapped v t x y := by
  obtain ⟨same, a, split, splitOther⟩ := swapped
  obtain ⟨c, accepted, first, moved⟩ := mem_takeOne found
  obtain ⟨k, rest⟩ := short
  have front : a = c :: k := by
    refine (List.append_left_inj v).mp ?_
    rw [← split, first, ← rest]
    rfl
  subst front
  refine ⟨other.past [c] (k ++ t), ?_, ?_, k, rest.symm, rfl⟩
  · rw [first_takeOne splitOther accepted]
    exact List.mem_singleton_self _
  · rw [moved]
    rfl

theorem mem_repeatWithin_self (step : Cursor → List Cursor) (bound : List Char) (cursor : Cursor) :
    cursor ∈ repeatWithin step bound cursor := by
  cases bound <;> simp [repeatWithin]

theorem swapped_repeatWithin {v t : List Char} {step : Cursor → List Cursor}
    (moves : ∀ cursor, ∀ x ∈ step cursor, x.rest <:+ cursor.rest)
    (each : ∀ {cursor other x}, Swapped v t cursor other → x ∈ step cursor → v <:+ x.rest →
      ∃ y ∈ step other, Swapped v t x y)
    {bound more : List Char} {cursor other x : Cursor} (swapped : Swapped v t cursor other)
    (enough : other.rest.length ≤ more.length) (found : x ∈ repeatWithin step bound cursor)
    (short : v <:+ x.rest) : ∃ y ∈ repeatWithin step more other, Swapped v t x y := by
  induction bound generalizing cursor other more with
  | nil =>
    obtain rfl := List.mem_singleton.mp found
    exact ⟨other, mem_repeatWithin_self step more other, swapped⟩
  | cons b bound ih =>
    rw [repeatWithin, List.mem_append] at found
    rcases found with found | found
    · obtain ⟨y, moved, later⟩ := List.mem_flatMap.mp found
      obtain ⟨inside, shorter⟩ := List.mem_filter.mp moved
      obtain ⟨z, step, next⟩ := each swapped inside (short.trans (repeatWithin_suffix moves later))
      -- both steps take the same text, so the other one moves on as well
      have less : z.rest.length < other.rest.length := by
        obtain ⟨_, a, split, splitOther⟩ := swapped
        obtain ⟨_, b, rest, restOther⟩ := next
        simp only [split, rest, List.length_append, decide_eq_true_eq] at shorter
        simp only [splitOther, restOther, List.length_append]
        omega
      cases more with
      | nil =>
        rw [List.length_nil] at enough
        omega
      | cons d more =>
        rw [List.length_cons] at enough
        obtain ⟨w, last, same⟩ := @ih more _ _ next (by omega) later
        refine ⟨w, ?_, same⟩
        rw [repeatWithin]
        exact List.mem_append_left _ (List.mem_flatMap.mpr
          ⟨z, List.mem_filter.mpr ⟨step, by simpa using less⟩, last⟩)
    · obtain rfl := List.mem_singleton.mp found
      exact ⟨other, mem_repeatWithin_self step more other, swapped⟩

/-- A match that ends in front of a text is found in front of every text that goes on with a word just
when that one does. -/
theorem ends_swapped (p : Pattern) {v t : List Char}
    (side : v.head?.any isWordCharacter = t.head?.any isWordCharacter) {cursor other x : Cursor}
    (swapped : Swapped v t cursor other) (found : x ∈ p.ends cursor) (short : v <:+ x.rest) :
    ∃ y ∈ p.ends other, Swapped v t x y := by
  induction p generalizing cursor other x with
  | empty =>
    obtain rfl := List.mem_singleton.mp found
    exact ⟨other, List.mem_singleton_self _, swapped⟩
  | char c => exact swapped_takeOne swapped found short
  | letter c => exact swapped_takeOne swapped found short
  | digit => exact swapped_takeOne swapped found short
  | blank => exact swapped_takeOne swapped found short
  | word => exact swapped_takeOne swapped found short
  | boundary =>
    obtain ⟨accepted, rfl⟩ := mem_boundary found
    refine ⟨other, ?_, swapped⟩
    obtain ⟨same, a, split, splitOther⟩ := swapped
    have sides : atBoundary other = atBoundary x := by
      rw [atBoundary, atBoundary, same, split, splitOther]
      cases a with
      | nil => simp [side]
      | cons c a => rfl
    rw [ends_boundary, sides, accepted]
    exact List.mem_singleton_self _
  | group number inner ih =>
    obtain ⟨y, inside, rfl⟩ := List.mem_map.mp found
    obtain ⟨z, moved, same⟩ := ih swapped inside short
    exact ⟨_, List.mem_map_of_mem moved, same.before, same.rest⟩
  | seq first second ihf ihs =>
    obtain ⟨y, earlier, later⟩ := mem_seq found
    obtain ⟨z, moved, next⟩ := ihf swapped earlier (short.trans (ends_suffix second later))
    obtain ⟨w, last, same⟩ := ihs next later short
    exact ⟨w, List.mem_flatMap.mpr ⟨z, moved, last⟩, same⟩
  | either first second ihf ihs =>
    rcases List.mem_append.mp found with found | found
    · obtain ⟨y, moved, same⟩ := ihf swapped found short
      exact ⟨y, List.mem_append_left _ moved, same⟩
    · obtain ⟨y, moved, same⟩ := ihs swapped found short
      exact ⟨y, List.mem_append_right _ moved, same⟩
  | star inner ih =>
    exact swapped_repeatWithin (fun cursor x found => ends_suffix inner found) ih swapped
      (Nat.le_refl _) found short

/-! Texts without a match. -/

def AbsentIn (p : Pattern) (rest : List Char) : Option Char → List Char → Prop
  | _, [] => True
  | before, c :: w => p.matchAt? before (c :: (w ++ rest)) = none ∧ AbsentIn p rest (some c) w

def Absent (p : Pattern) (before : Option Char) (s : List Char) : Prop := AbsentIn p [] before s

theorem absentIn_append {p : Pattern} {rest u v : List Char} {before : Option Char} :
    AbsentIn p rest before (u ++ v)
      ↔ AbsentIn p (v ++ rest) before u ∧ AbsentIn p rest (u.getLast?.or before) v := by
  induction u generalizing before with
  | nil => simp [AbsentIn]
  | cons c u ih =>
    rw [List.cons_append, AbsentIn, AbsentIn, ih, List.append_assoc, getLast_cons_or, and_assoc]

theorem absent_append {p : Pattern} {u v : List Char} {before : Option Char} :
    Absent p before (u ++ v) ↔ AbsentIn p v before u ∧ Absent p (u.getLast?.or before) v := by
  rw [Absent, absentIn_append, List.append_nil]
  rfl

theorem Absent.imp {p q : Pattern}
    (weaker : ∀ before s, p.matchAt? before s = none → q.matchAt? before s = none)
    {before : Option Char} {s : List Char} (absent : Absent p before s) : Absent q before s := by
  induction s generalizing before with
  | nil => trivial
  | cons c s ih => exact ⟨weaker _ _ absent.1, ih absent.2⟩

theorem matchAt_eq_none {p : Pattern} {before : Option Char} {s : List Char} :
    p.matchAt? before s = none ↔ ∀ x, x ∉ p.ends { before, rest := s } := by
  rw [matchAt?, Option.map_eq_none_iff, List.head?_eq_none_iff, List.eq_nil_iff_forall_not_mem]

theorem sequence_front {parts others : List Pattern} {before : Option Char} {s : List Char}
    (fails : (sequence parts).matchAt? before s = none) :
    (sequence (parts ++ others)).matchAt? before s = none := by
  have front : ∀ cursor, ∀ x ∈ (sequence (parts ++ others)).ends cursor,
      ∃ y, y ∈ (sequence parts).ends cursor := by
    clear fails
    induction parts with
    | nil => exact fun cursor _ _ => ⟨cursor, List.mem_singleton_self _⟩
    | cons p parts ih =>
      intro cursor x found
      obtain ⟨y, first, later⟩ := mem_seq found
      obtain ⟨z, last⟩ := ih y x later
      exact ⟨z, List.mem_flatMap.mpr ⟨y, first, last⟩⟩
  refine matchAt_none fun x found => ?_
  obtain ⟨y, inside⟩ := front _ x found
  exact matchAt_eq_none.mp fails y inside

section BeginsWith

variable {p : Pattern} {starts : List String} (begins : BeginsWith p starts)
include begins

theorem AbsentIn.insensitive {rest w : List Char} {before other : Option Char}
    (aside : other.any isWordCharacter = false → before.any isWordCharacter = false)
    (absent : AbsentIn p rest before w) : AbsentIn p rest other w := by
  cases w with
  | nil => trivial
  | cons c w =>
    refine ⟨?_, absent.2⟩
    cases inside : other.any isWordCharacter with
    | true => exact no_match_inside begins inside _
    | false =>
      rw [begins.insensitive other before _ (by rw [inside, aside inside])]
      exact absent.1

theorem Absent.start {before : Option Char} {s : List Char} (absent : Absent p before s) :
    p.matchAt? before s = none := by
  cases s with
  | nil => exact no_match_ended begins endsRun_nil before
  | cons c s =>
    have first := absent.1
    rwa [List.append_nil] at first

omit begins in
theorem replaceFrom_absentIn {write : Match → List Char} {rest w : List Char} {before : Option Char}
    (absent : AbsentIn p rest before w) :
    replaceFrom p write before 0 false (w ++ rest)
      = w ++ replaceFrom p write (w.getLast?.or before) 0 false rest := by
  induction w generalizing before with
  | nil => rfl
  | cons c w ih =>
    rw [List.cons_append, replaceFrom_step absent.1, ih absent.2, getLast_cons_or]
    rfl

theorem replaceFrom_absent {write : Match → List Char} {before : Option Char} {s : List Char}
    (absent : Absent p before s) : replaceFrom p write before 0 false s = s := by
  have copied := @replaceFrom_absentIn p write [] s before absent
  rw [replaceFrom_nil, no_match_ended begins endsRun_nil] at copied
  simpa using copied

theorem replaceAll_absent {write : Match → List Char} {s : List Char} (absent : Absent p none s) :
    p.replaceAll write s = s :=
  replaceFrom_absent begins absent

end BeginsWith

theorem matchAt_split {p : Pattern} {before : Option Char} {s : List Char} {found : Match}
    (matched : p.matchAt? before s = some found) :
    ∃ x ∈ p.ends { before, rest := s }, s = found.text ++ x.rest := by
  obtain ⟨x, inside, text⟩ := matchAt_ends matched
  obtain ⟨k, rfl⟩ : ∃ k, k ++ x.rest = s := ends_suffix p inside
  exact ⟨x, inside, by rw [text, between_append]⟩

theorem first_match (p : Pattern) (before : Option Char) (s : List Char) :
    Absent p before s ∨ ∃ a b found, s = a ++ (found.text ++ b)
      ∧ AbsentIn p (found.text ++ b) before a
      ∧ p.matchAt? (a.getLast?.or before) (found.text ++ b) = some found := by
  induction s generalizing before with
  | nil => exact .inl trivial
  | cons c s ih =>
    cases matched : p.matchAt? before (c :: s) with
    | some found =>
      obtain ⟨x, _, split⟩ := matchAt_split matched
      exact .inr ⟨[], x.rest, found, split, trivial, by rw [← split]; exact matched⟩
    | none =>
      rcases ih (some c) with absent | ⟨a, b, found, split, absent, later⟩
      · exact .inl ⟨by rw [List.append_nil]; exact matched, absent⟩
      · refine .inr ⟨c :: a, b, found, by rw [split]; rfl, ⟨by rw [← split]; exact matched, absent⟩, ?_⟩
        rwa [getLast_cons_or]

/-! Where a match stops. -/

def Stops (p : Pattern) (c : Char) : Prop :=
  ∀ cursor, ∀ x ∈ p.ends cursor, ∀ a r, cursor.rest = a ++ c :: r →
    a.getLast?.any isWordCharacter = false → c :: r <:+ x.rest

def Apart (p : Pattern) (c : Char) : Prop :=
  ∀ cursor, ∀ x ∈ p.ends cursor, ∀ a r, cursor.rest = a ++ c :: r → a ≠ [] →
    a.getLast?.any isWordCharacter = false → c :: r <:+ x.rest

theorem Stops.apart {p : Pattern} {c : Char} (stops : p.Stops c) : p.Apart c :=
  fun cursor x found a r split _ aside => stops cursor x found a r split aside

theorem stops_of_avoids {p : Pattern} {c : Char} (avoided : p.avoids c = true) : p.Stops c :=
  fun _ _ found _ _ split _ => Over.suffix (ends_over avoided found) split

theorem aside_rest {c : Char} {k a s r : List Char} (split : k ++ s = a ++ c :: r)
    (later : c :: r <:+ s) (aside : a.getLast?.any isWordCharacter = false) :
    ∃ b, s = b ++ c :: r ∧ b.getLast?.any isWordCharacter = false := by
  obtain ⟨b, rfl⟩ := later
  refine ⟨b, rfl, ?_⟩
  rw [← List.append_assoc] at split
  rw [← List.append_cancel_right split, List.getLast?_append] at aside
  cases last : b.getLast? with
  | none => rfl
  | some d => rwa [last] at aside

theorem Stops.seq {p q : Pattern} {c : Char} (first : p.Stops c) (second : q.Stops c) :
    (Pattern.seq p q).Stops c := by
  intro cursor x found a r split aside
  obtain ⟨y, before, after⟩ := mem_seq found
  obtain ⟨k, joined⟩ := ends_suffix p before
  obtain ⟨b, rest, still⟩ := aside_rest (joined.trans split) (first cursor y before a r split aside) aside
  exact second y x after b r rest still

theorem Stops.either {p q : Pattern} {c : Char} (first : p.Stops c) (second : q.Stops c) :
    (Pattern.either p q).Stops c := fun cursor x found =>
  (List.mem_append.mp found).elim (first cursor x) (second cursor x)

theorem stops_sequence {parts : List Pattern} {c : Char} (each : ∀ p ∈ parts, p.Stops c) :
    (sequence parts).Stops c := by
  induction parts with
  | nil => exact stops_of_avoids rfl
  | cons p parts ih =>
    exact (each p List.mem_cons_self).seq (ih fun q listed => each q (.tail p listed))

theorem anyCase_suffix {word : String} (capital : IsCapitalWord word) {c : Char} {cursor x : Cursor}
    (found : x ∈ (anyCase word).ends cursor) {a r : List Char} (split : cursor.rest = a ++ c :: r)
    (other : a = [] → ∀ d, word.toList.head? = some d → foldCase c ≠ foldCase d)
    (aside : a.getLast?.any isWordCharacter = false) : c :: r <:+ x.rest := by
  obtain ⟨k, whole, same, _⟩ := mem_anyCase found
  rcases List.append_eq_append_iff.mp (whole.symm.trans split) with
    ⟨more, _, joined⟩ | ⟨more, longer, joined⟩
  · exact ⟨more, joined.symm⟩
  · cases more with
    | nil => exact ⟨[], joined⟩
    | cons d more =>
      obtain rfl : c = d := (List.cons.inj joined).1
      subst longer
      exfalso
      cases last : a.getLast? with
      | none =>
        obtain rfl := List.getLast?_eq_none_iff.mp last
        have head := congrArg List.head? same
        simp only [List.nil_append, List.map_cons, List.head?_cons, List.head?_map] at head
        obtain ⟨d, first, equal⟩ := Option.map_eq_some_iff.mp head.symm
        exact other rfl d first equal.symm
      | some d =>
        have letter := (same_word capital same).2 d
          (List.mem_append_left _ (List.mem_of_getLast? last))
        rw [last, Option.any_some, letter] at aside
        cases aside

theorem stops_anyCase {word : String} (capital : IsCapitalWord word) {c : Char}
    (other : ∀ d, word.toList.head? = some d → foldCase c ≠ foldCase d) : (anyCase word).Stops c :=
  fun _ _ found _ _ split aside => anyCase_suffix capital found split (fun _ => other) aside

theorem apart_wordThen {word : String} (capital : IsCapitalWord word) {parts : List Pattern} {c : Char}
    (stops : (sequence parts).Stops c) : (wordThen word parts).Apart c := by
  intro cursor x found a r split nonempty aside
  obtain ⟨y, first, later⟩ := mem_seq found
  obtain ⟨_, rfl⟩ := mem_boundary first
  obtain ⟨z, letters, last⟩ := mem_seq later
  obtain ⟨k, joined⟩ := ends_suffix _ letters
  obtain ⟨b, rest, still⟩ := aside_rest (joined.trans split)
    (anyCase_suffix capital letters split (fun none => absurd none nonempty) aside) aside
  exact stops z x last b r rest still

/-! Parts of a text without a match. -/

section BeginsWith

variable {p : Pattern} {starts : List String} (begins : BeginsWith p starts)
include begins

theorem absentIn_mark {c : Char} (mark : isWordCharacter c = false) (before : Option Char)
    (rest : List Char) : AbsentIn p rest before [c] :=
  ⟨no_match_ended begins (endsRun_cons mark _) before, trivial⟩

theorem absentIn_inside {w : List Char} (letters : ∀ c ∈ w, isWordCharacter c = true)
    {before : Option Char} (inside : before.any isWordCharacter = true) (rest : List Char) :
    AbsentIn p rest before w := by
  induction w generalizing before with
  | nil => trivial
  | cons c w ih =>
    exact ⟨no_match_inside begins inside _,
      ih (fun d member => letters d (.tail c member)) (letters c List.mem_cons_self)⟩

theorem absentIn_word {w rest : List Char} (letters : ∀ c ∈ w, isWordCharacter c = true)
    {before : Option Char} (fails : p.matchAt? before (w ++ rest) = none) :
    AbsentIn p rest before w := by
  cases w with
  | nil => trivial
  | cons c w =>
    have word : (some c).any isWordCharacter = true := letters c List.mem_cons_self
    exact ⟨fails, absentIn_inside begins (fun d member => letters d (.tail c member)) word rest⟩

/-- No match begins with a word that does not begin one of the words that the pattern looks for, however
the word goes on. -/
theorem no_match_unlike {w : List Char} (letters : ∀ c ∈ w, isWordCharacter c = true)
    (other : ∀ word ∈ starts, ¬ w.map foldCase <+: word.toList.map foldCase) (before : Option Char)
    (rest : List Char) : p.matchAt? before (w ++ rest) = none := by
  cases found : p.matchAt? before (w ++ rest) with
  | none => rfl
  | some m =>
    obtain ⟨_, _, word, listed, k, r, split, same, stop⟩ := begins.begun before _ m found
    refine absurd ?_ (other word listed)
    rw [← same]
    rcases List.append_eq_append_iff.mp split with ⟨more, longer, _⟩ | ⟨more, longer, joined⟩
    · rw [longer, List.map_append]
      exact List.prefix_append _ _
    · cases more with
      | nil => rw [longer, List.append_nil]
      | cons d more =>
        have mark := stop d (by rw [joined]; rfl)
        rw [letters d (by rw [longer]; simp)] at mark
        cases mark

end BeginsWith

/-! Rules that bring about no match. -/

structure Fits (p : Pattern) (m w : List Char) : Prop where
  begins : ∃ c rest, w = c :: rest ∧ isWordCharacter c = true ∧ p.Apart c
  inside : ∀ before t, Absent p w.getLast? t → AbsentIn p t before w
  ends : w.getLast?.any isWordCharacter = false → m.getLast?.any isWordCharacter = false

def Spares (p q : Pattern) (write : Match → List Char) : Prop :=
  ∀ before s found, q.matchAt? before s = some found → Fits p found.text (write found)

theorem AbsentIn.swapped {p : Pattern} {c : Char} (apart : p.Apart c) (word : isWordCharacter c = true)
    {v : List Char} (begins : v.head?.any isWordCharacter = true) {a : List Char}
    (aside : a.getLast?.any isWordCharacter = false) {before : Option Char}
    (absent : AbsentIn p v before a) (r : List Char) : AbsentIn p (c :: r) before a := by
  induction a generalizing before with
  | nil => trivial
  | cons d a ih =>
    refine ⟨matchAt_none fun x found => ?_, ih ?_ absent.2⟩
    · have short := apart _ x found (d :: a) r rfl (List.cons_ne_nil d a) aside
      have side : (c :: r).head?.any isWordCharacter = v.head?.any isWordCharacter := by
        rw [begins]
        exact word
      have same : Swapped (c :: r) v { before, rest := d :: (a ++ c :: r) }
          { before, rest := d :: (a ++ v) } := ⟨rfl, d :: a, rfl, rfl⟩
      obtain ⟨y, inside, _⟩ := ends_swapped p side same found short
      exact matchAt_eq_none.mp absent.1 y inside
    · cases a with
      | nil => rfl
      | cons e a => rwa [List.getLast?_cons_cons] at aside

/-- A rule that brings about no match of a pattern leaves none, where there was none or it is the rule for
that pattern. -/
theorem absent_replaceFrom {p q : Pattern} {starts others : List String}
    (begins : BeginsWith p starts) (seeks : BeginsWith q others) {write : Match → List Char}
    (spares : Spares p q write) {before side : Option Char} {s : List Char}
    (aside : side.any isWordCharacter = false → before.any isWordCharacter = false)
    (known : p = q ∨ Absent p before s) : Absent p side (replaceFrom q write before 0 false s) := by
  induction length : s.length using Nat.strong_induction_on generalizing s before side with
  | _ n ih =>
    rcases first_match q before s with absent | ⟨a, b, found, rfl, front, matched⟩
    · rw [replaceFrom_absent seeks absent]
      exact AbsentIn.insensitive begins aside (known.elim (fun same => same ▸ absent) id)
    · obtain ⟨edge, nonempty, start, listed, k, rest, split, same, _⟩ := seeks.begun _ _ _ matched
      have fits := spares _ _ _ matched
      obtain ⟨c, w, text, word, apart⟩ := fits.begins
      have last : ∀ {u : List Char} (before : Option Char), u ≠ [] → u.getLast?.or before = u.getLast? := by
        intro u before nonempty
        rw [List.getLast?_eq_some_getLast nonempty]
        rfl
      have parts : AbsentIn p (found.text ++ b) before a ∧ (p = q ∨ Absent p found.text.getLast? b) := by
        rcases known with rfl | absent
        · exact ⟨front, .inl rfl⟩
        · obtain ⟨first, later⟩ := absent_append.mp absent
          have behind := (absent_append.mp later).2
          rw [last _ nonempty] at behind
          exact ⟨first, .inr behind⟩
      have later := ih b.length (by
        have some := List.length_pos_of_ne_nil nonempty
        simp only [List.length_append] at length
        omega) fits.ends parts.2 rfl
      rw [replaceFrom_absentIn front, replaceFrom_found seeks matched rfl]
      refine absent_append.mpr ⟨?_, absent_append.mpr ⟨fits.inside _ _ later, ?_⟩⟩
      · have letters : (found.text ++ b).head?.any isWordCharacter = true := by
          obtain ⟨some, inside⟩ := same_start seeks listed same
          rw [split, List.head?_append_of_ne_nil _ some, List.head?_eq_some_head some]
          exact inside _ (List.head_mem some)
        have apartFrom : a.getLast?.any isWordCharacter = false := by
          cases last : a.getLast? with
          | none => rfl
          | some d => rwa [last] at edge
        rw [text, List.cons_append]
        exact AbsentIn.insensitive begins aside (parts.1.swapped apart word letters apartFrom _)
      · rw [last _ (by rw [text]; exact List.cons_ne_nil c w)]
        exact later

end Pattern

end SqlDialects
