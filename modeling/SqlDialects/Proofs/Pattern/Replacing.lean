import SqlDialects.Proofs.Grammar.Words
import SqlDialects.Proofs.Pattern.Matching
import SqlDialects.Text.Literal

/-
Replacing matches, one lexeme after the other. The matches of the patterns here begin with one of
some words and end the word there; so other words, marks and string literals are passed over, and
what stands before them makes no difference.
-/
namespace SqlDialects

open Text

structure IsRun (w : List Char) : Prop where
  nonempty : w ≠ []
  inside : ∀ c ∈ w, isPlain c = true

structure IsPatternWord (w : List Char) : Prop where
  nonempty : w ≠ []
  inside : ∀ c ∈ w, isWordCharacter c = true

theorem IsRun.word {w : List Char} (run : IsRun w) : IsPatternWord w :=
  ⟨run.nonempty, fun c member => wordCharacter_of_plain (run.inside c member)⟩

def EndsRun (s : List Char) : Prop := ∀ c, s.head? = some c → isWordCharacter c = false

theorem endsRun_nil : EndsRun [] := nofun

theorem endsRun_cons {c : Char} (mark : isWordCharacter c = false) (s : List Char) :
    EndsRun (c :: s) := by
  intro d first
  cases first
  exact mark

namespace Pattern

/-! One character of the text at a time. -/

theorem replaceFrom_nil (p : Pattern) (write : Match → List Char) (before : Option Char)
    (skip : Nat) (closed : Bool) :
    replaceFrom p write before skip closed [] =
      match p.matchAt? before [] with
      | some found => if closed then [] else write found
      | none => [] := rfl

theorem replaceFrom_succ (p : Pattern) (write : Match → List Char) (before : Option Char)
    (skip : Nat) (closed : Bool) (c : Char) (s : List Char) :
    replaceFrom p write before (skip + 1) closed (c :: s)
      = replaceFrom p write (some c) skip true s := rfl

theorem replaceFrom_cons (p : Pattern) (write : Match → List Char) (before : Option Char)
    (closed : Bool) (c : Char) (s : List Char) :
    replaceFrom p write before 0 closed (c :: s) =
      match p.matchAt? before (c :: s) with
      | none => c :: replaceFrom p write (some c) 0 false s
      | some found =>
        match found.text with
        | [] => (if closed then [] else write found) ++ c :: replaceFrom p write (some c) 0 false s
        | _ :: tail => write found ++ replaceFrom p write (some c) tail.length true s := rfl

structure IsCapitalWord (word : String) : Prop where
  nonempty : word.toList ≠ []
  inside : ∀ c ∈ word.toList, isCapital c = true

/-- Every match begins with one of some words in capital letters, at the start of that word and
whatever stands before it. -/
structure BeginsWith (p : Pattern) (starts : List String) : Prop where
  capital : ∀ word ∈ starts, IsCapitalWord word
  insensitive : ∀ before other s, before.any isWordCharacter = other.any isWordCharacter →
    p.matchAt? before s = p.matchAt? other s
  begun : ∀ before s m, p.matchAt? before s = some m →
    before.any isWordCharacter = false ∧ m.text ≠ []
      ∧ ∃ word ∈ starts, ∃ k rest, s = k ++ rest ∧ Same k word ∧ EndsRun rest

theorem same_word {word : String} (capital : IsCapitalWord word) {k : List Char}
    (same : Same k word) : k ≠ [] ∧ ∀ c ∈ k, isWordCharacter c = true := by
  constructor
  · rintro rfl
    exact capital.nonempty (by simpa [Same] using same.symm)
  · intro c member
    have folded : foldCase c ∈ word.toList.map foldCase := by
      rw [← same]
      exact List.mem_map_of_mem member
    obtain ⟨d, letter, equal⟩ := List.mem_map.mp folded
    exact wordCharacter_of_fold equal.symm (capital.inside d letter)

section BeginsWith

variable {p : Pattern} {starts : List String} (begins : BeginsWith p starts)
include begins

theorem same_start {word : String} (listed : word ∈ starts) {k : List Char} (same : Same k word) :
    k ≠ [] ∧ ∀ c ∈ k, isWordCharacter c = true :=
  same_word (begins.capital word listed) same

theorem no_match_inside {before : Option Char} (inside : before.any isWordCharacter = true)
    (s : List Char) : p.matchAt? before s = none := by
  cases found : p.matchAt? before s with
  | none => rfl
  | some m =>
    rw [(begins.begun before s m found).1] at inside
    cases inside

theorem no_match_ended {s : List Char} (ended : EndsRun s) (before : Option Char) :
    p.matchAt? before s = none := by
  cases found : p.matchAt? before s with
  | none => rfl
  | some m =>
    obtain ⟨_, _, word, listed, k, rest, split, same, _⟩ := begins.begun before s m found
    obtain ⟨nonempty, inside⟩ := same_start begins listed same
    cases k with
    | nil => exact absurd rfl nonempty
    | cons c k =>
      have mark := ended c (by rw [split]; rfl)
      rw [inside c (by simp)] at mark
      cases mark

theorem no_match_word {w s : List Char} (letters : IsPatternWord w) (ended : EndsRun s)
    (other : ∀ word ∈ starts, ¬ Same w word) (before : Option Char) :
    p.matchAt? before (w ++ s) = none := by
  cases found : p.matchAt? before (w ++ s) with
  | none => rfl
  | some m =>
    obtain ⟨_, _, word, listed, k, rest, split, same, stop⟩ := begins.begun before _ m found
    have first : (w ++ s).takeWhile isWordCharacter = w :=
      Reader.takeWhile_upTo letters.inside ended
    have second : (k ++ rest).takeWhile isWordCharacter = k :=
      Reader.takeWhile_upTo (same_start begins listed same).2 stop
    rw [split, second] at first
    subst first
    exact absurd same (other word listed)

/-! One step. -/

variable {write : Match → List Char}

theorem replaceFrom_closed (before : Option Char) (s : List Char) :
    replaceFrom p write before 0 true s = replaceFrom p write before 0 false s := by
  cases s with
  | nil => simp [replaceFrom_nil, no_match_ended begins endsRun_nil before]
  | cons c s =>
    simp only [replaceFrom_cons]
    cases found : p.matchAt? before (c :: s) with
    | none => rfl
    | some m =>
      cases text : m.text with
      | nil => exact absurd text (begins.begun before _ m found).2.1
      | cons d tail => simp [text]

omit begins in
theorem replaceFrom_step {before : Option Char} {c : Char} {s : List Char}
    (fails : p.matchAt? before (c :: s) = none) :
    replaceFrom p write before 0 false (c :: s) = c :: replaceFrom p write (some c) 0 false s := by
  simp [replaceFrom_cons, fails]

omit begins in
theorem replaceFrom_skip (before : Option Char) (m s : List Char) :
    replaceFrom p write before m.length true (m ++ s)
      = replaceFrom p write (m.getLast?.or before) 0 true s := by
  induction m generalizing before with
  | nil => rfl
  | cons c m ih =>
    rw [List.length_cons, List.cons_append, replaceFrom_succ, ih, getLast_cons_or]

theorem replaceFrom_found {before : Option Char} {m s : List Char} {found : Match}
    (matched : p.matchAt? before (m ++ s) = some found) (text : found.text = m) :
    replaceFrom p write before 0 false (m ++ s)
      = write found ++ replaceFrom p write m.getLast? 0 false s := by
  cases m with
  | nil => exact absurd text (begins.begun before _ found matched).2.1
  | cons c m =>
    rw [List.cons_append] at matched ⊢
    simp only [replaceFrom_cons, matched, text]
    rw [replaceFrom_skip, replaceFrom_closed begins]
    cases m <;> simp [List.getLast?_cons]

theorem replaceFrom_insensitive {before other : Option Char}
    (same : before.any isWordCharacter = other.any isWordCharacter) (s : List Char) :
    replaceFrom p write before 0 false s = replaceFrom p write other 0 false s := by
  cases s with
  | nil => simp only [replaceFrom_nil, begins.insensitive before other [] same]
  | cons c s => simp only [replaceFrom_cons, begins.insensitive before other (c :: s) same]

theorem replaceFrom_ended {s : List Char} (ended : EndsRun s) (before : Option Char) :
    replaceFrom p write before 0 false s = replaceFrom p write none 0 false s := by
  cases s with
  | nil => simp [replaceFrom_nil, no_match_ended begins endsRun_nil]
  | cons c s =>
    rw [replaceFrom_step (no_match_ended begins ended before),
      replaceFrom_step (no_match_ended begins ended none)]

theorem replaceFrom_inside {w s : List Char} (inside : ∀ c ∈ w, isWordCharacter c = true)
    (ended : EndsRun s) {before : Option Char} (word : before.any isWordCharacter = true) :
    replaceFrom p write before 0 false (w ++ s) = w ++ replaceFrom p write none 0 false s := by
  induction w generalizing before with
  | nil => exact replaceFrom_ended begins ended before
  | cons c w ih =>
    rw [List.cons_append, replaceFrom_step (no_match_inside begins word _),
      ih (fun d member => inside d (by simp [member]))
        (by simpa using inside c (by simp))]
    rfl

/-! Whole texts. -/

theorem replaceAll_nil : p.replaceAll write [] = [] := by
  simp [replaceAll, replaceFrom_nil, no_match_ended begins endsRun_nil]

theorem replaceAll_mark {c : Char} (mark : isWordCharacter c = false) (s : List Char) :
    p.replaceAll write (c :: s) = c :: p.replaceAll write s := by
  rw [replaceAll, replaceFrom_step (no_match_ended begins (endsRun_cons mark s) none),
    @replaceFrom_insensitive _ _ begins _ _ none (by simpa using mark)]
  rfl

theorem replaceAll_word {w s : List Char} (letters : IsPatternWord w) (ended : EndsRun s)
    (fails : p.matchAt? none (w ++ s) = none) :
    p.replaceAll write (w ++ s) = w ++ p.replaceAll write s := by
  cases w with
  | nil => rfl
  | cons c w =>
    rw [List.cons_append] at fails ⊢
    rw [replaceAll, replaceFrom_step fails,
      replaceFrom_inside begins (fun d member => letters.inside d (by simp [member])) ended
        (by simpa using letters.inside c (by simp))]
    rfl

theorem replaceAll_found {m s : List Char} {found : Match}
    (matched : p.matchAt? none (m ++ s) = some found) (text : found.text = m)
    (apart : m.getLast?.any isWordCharacter = false ∨ EndsRun s) :
    p.replaceAll write (m ++ s) = write found ++ p.replaceAll write s := by
  rw [replaceAll, replaceFrom_found begins matched text]
  rcases apart with mark | ended
  · rw [@replaceFrom_insensitive _ _ begins _ _ none mark]
    rfl
  · rw [replaceFrom_ended begins ended]
    rfl

end BeginsWith

end Pattern

/-! Code and literals. -/

namespace Text

def leadingCode (s : List Char) : List Char := s.takeWhile fun c => !(c == '\x27')

theorem leadingCode_ended {s : List Char} (ended : EndsRun s) : EndsRun (leadingCode s) := by
  intro c first
  cases s with
  | nil => cases first
  | cons d s =>
    by_cases quote : d = '\x27'
    · simp [leadingCode, quote] at first
    · exact ended c (by simpa [leadingCode, quote] using first)

theorem scan_code (s : List Char) :
    ∃ more, Segment.scan false s = .code (leadingCode s) :: more := by
  induction s with
  | nil => exact ⟨[], rfl⟩
  | cons c s ih =>
    obtain ⟨more, split⟩ := ih
    by_cases quote : c = '\x27'
    · refine ⟨Segment.prepend c (Segment.scan true s), ?_⟩
      rw [Segment.scan, if_pos quote]
      simp [leadingCode, quote]
    · refine ⟨more, ?_⟩
      rw [Segment.scan, if_neg quote, split]
      simp [leadingCode, quote, Segment.prepend]

theorem scan_literal (s : List Char) :
    ∃ text more, Segment.scan true s = .literal text :: more := by
  induction s with
  | nil => exact ⟨[], [], rfl⟩
  | cons c s ih =>
    obtain ⟨text, more, split⟩ := ih
    by_cases quote : c = '\x27'
    · exact ⟨_, _, by rw [Segment.scan, if_pos quote]⟩
    · exact ⟨_, _, by rw [Segment.scan, if_neg quote, split]; rfl⟩

theorem scan_unquoted {u : List Char} (code : '\x27' ∉ u) : Segment.scan false u = [.code u] := by
  induction u with
  | nil => rfl
  | cons c u ih =>
    have plain : c ≠ '\x27' := fun same => code (by rw [same]; exact List.mem_cons_self)
    rw [Segment.scan, if_neg plain, ih fun member => code (.tail c member)]
    rfl

theorem scan_opened {u : List Char} (code : '\x27' ∉ u) (t : List Char) :
    Segment.scan false (u ++ '\x27' :: t)
      = .code u :: Segment.prepend '\x27' (Segment.scan true t) := by
  induction u with
  | nil => rw [List.nil_append, Segment.scan, if_pos rfl]
  | cons c u ih =>
    have plain : c ≠ '\x27' := fun same => code (by rw [same]; exact List.mem_cons_self)
    rw [List.cons_append, Segment.scan, if_neg plain, ih fun member => code (.tail c member)]
    rfl

theorem outsideLiterals_lift {f : List Char → List Char} {w changed s : List Char}
    (code : ∀ c ∈ w, c ≠ '\x27')
    (step : f (w ++ leadingCode s) = changed ++ f (leadingCode s)) :
    outsideLiterals f (w ++ s) = changed ++ outsideLiterals f s := by
  obtain ⟨more, split⟩ := scan_code s
  have joined : Segment.scan false (w ++ s) = .code (w ++ leadingCode s) :: more := by
    clear step
    induction w with
    | nil => exact split
    | cons c w ih =>
      rw [List.cons_append, Segment.scan, if_neg (code c (by simp)),
        ih fun d member => code d (by simp [member])]
      rfl
  rw [outsideLiterals, outsideLiterals, segments, segments, split, joined]
  simp [Segment.changed, step]

theorem outsideLiterals_literal {f : List Char → List Char} (nothing : f [] = [])
    (body s : List Char) :
    outsideLiterals f (enclose '\x27' body ++ s) = enclose '\x27' body ++ outsideLiterals f s := by
  -- A scan inside a literal gives a literal first, so a character in front of it is copied.
  have prepended : ∀ (c : Char) (t : List Char),
      (Segment.prepend c (Segment.scan true t)).flatMap (Segment.changed f)
      = c :: (Segment.scan true t).flatMap (Segment.changed f) := by
    intro c t
    obtain ⟨text, more, split⟩ := scan_literal t
    rw [split]
    simp [Segment.prepend, Segment.changed]
  have inside : (Segment.scan true (double '\x27' body ++ '\x27' :: s)).flatMap (Segment.changed f)
      = double '\x27' body ++ '\x27' :: (Segment.scan false s).flatMap (Segment.changed f) := by
    induction body with
    | nil => simp [double, Segment.scan, Segment.changed]
    | cons c body ih =>
      by_cases quote : c = '\x27'
      · simp only [double, quote, ↓reduceIte, List.cons_append, Segment.scan, List.flatMap_cons,
          prepended, ih]
        simp [Segment.changed, nothing]
      · simp only [double, quote, ↓reduceIte, List.cons_append, Segment.scan, prepended, ih]
  change (Segment.scan false _).flatMap (Segment.changed f)
    = _ ++ (Segment.scan false s).flatMap (Segment.changed f)
  simp only [enclose, List.cons_append, List.append_assoc, List.nil_append, Segment.scan,
    ↓reduceIte, List.flatMap_cons, prepended, inside]
  simp [Segment.changed, nothing]

/-- Induction over a text by its string literals: `P` is about texts that start in code, `Q` about
texts that start inside a literal. -/
theorem literal_induction {P Q : List Char → Prop} (code : ∀ u, '\x27' ∉ u → P u)
    (opened : ∀ u t, '\x27' ∉ u → Q t → P (u ++ '\x27' :: t)) (ended : Q [])
    (closed : ∀ t, P t → Q ('\x27' :: t)) (inside : ∀ c t, c ≠ '\x27' → Q t → Q (c :: t))
    (s : List Char) : P s ∧ Q s := by
  induction length : s.length using Nat.strong_induction_on generalizing s with
  | _ n ih =>
    have shorter : ∀ t : List Char, t.length < s.length → P t ∧ Q t := fun t less =>
      ih t.length (by omega) t rfl
    constructor
    · by_cases quote : '\x27' ∈ s
      · obtain ⟨u, t, rfl, outside⟩ := List.eq_append_cons_of_mem quote
        exact opened u t outside (shorter t (by simp; omega)).2
      · exact code s quote
    · cases s with
      | nil => exact ended
      | cons c t =>
        have both := shorter t (by simp)
        by_cases quote : c = '\x27'
        · subst quote
          exact closed t both.1
        · exact inside c t quote both.2

def fromLiteral (f : List Char → List Char) (s : List Char) : List Char :=
  (Segment.scan true s).flatMap (Segment.changed f)

section Literals

variable (f : List Char → List Char)

theorem fromLiteral_closed (t : List Char) :
    fromLiteral f ('\x27' :: t) = '\x27' :: outsideLiterals f t := by
  rw [fromLiteral, Segment.scan, if_pos rfl]
  rfl

theorem prepend_literal (c : Char) (t : List Char) :
    (Segment.prepend c (Segment.scan true t)).flatMap (Segment.changed f)
      = c :: fromLiteral f t := by
  obtain ⟨text, more, split⟩ := scan_literal t
  rw [fromLiteral, split]
  rfl

theorem fromLiteral_inside {c : Char} (code : c ≠ '\x27') (t : List Char) :
    fromLiteral f (c :: t) = c :: fromLiteral f t := by
  rw [← prepend_literal, fromLiteral, Segment.scan, if_neg code]

theorem outsideLiterals_code {u : List Char} (code : '\x27' ∉ u) : outsideLiterals f u = f u := by
  rw [outsideLiterals, segments, scan_unquoted code, List.flatMap_singleton]
  rfl

theorem outsideLiterals_opened {u : List Char} (code : '\x27' ∉ u) (t : List Char) :
    outsideLiterals f (u ++ '\x27' :: t) = f u ++ '\x27' :: fromLiteral f t := by
  rw [outsideLiterals, segments, scan_opened code, List.flatMap_cons, prepend_literal]
  rfl

end Literals

end Text

end SqlDialects
