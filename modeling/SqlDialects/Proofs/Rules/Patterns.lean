import SqlDialects.Proofs.Pattern.Replacing
import SqlDialects.Rules.TextPipeline

/-
The patterns of the text rules. Each of them begins with a word that has to end where it does: in
front of a blank, a parenthesis or a boundary.
-/
namespace SqlDialects

open Text

namespace Pattern

theorem repeatWithin_related {related : Cursor → Cursor → Prop} (refl : ∀ cursor, related cursor cursor)
    (trans : ∀ {x y z}, related x y → related y z → related x z) {step : Cursor → List Cursor}
    (each : ∀ cursor, ∀ x ∈ step cursor, related cursor x) {bound : List Char} {cursor x : Cursor}
    (found : x ∈ repeatWithin step bound cursor) : related cursor x := by
  induction bound generalizing cursor with
  | nil =>
    obtain rfl := List.mem_singleton.mp found
    exact refl _
  | cons b bound ih =>
    rw [repeatWithin, List.mem_append] at found
    rcases found with found | found
    · obtain ⟨y, moved, later⟩ := List.mem_flatMap.mp found
      exact trans (each cursor y (List.mem_filter.mp moved).1) (ih later)
    · obtain rfl := List.mem_singleton.mp found
      exact refl _

theorem repeatWithin_suffix {step : Cursor → List Cursor}
    (moves : ∀ cursor, ∀ x ∈ step cursor, x.rest <:+ cursor.rest) {bound : List Char}
    {cursor x : Cursor} (found : x ∈ repeatWithin step bound cursor) : x.rest <:+ cursor.rest :=
  @repeatWithin_related (fun cursor x => x.rest <:+ cursor.rest) (fun _ => List.suffix_refl _)
    (fun first second => second.trans first) _ moves _ _ _ found

theorem ends_suffix (p : Pattern) {cursor x : Cursor} (found : x ∈ p.ends cursor) :
    x.rest <:+ cursor.rest := by
  have one : ∀ {test : Char → Bool} {cursor : Cursor}, x ∈ takeOne test cursor →
      x.rest <:+ cursor.rest := by
    intro test cursor found
    obtain ⟨c, _, split, _⟩ := mem_takeOne found
    rw [split]
    exact List.suffix_cons c x.rest
  induction p generalizing cursor x with
  | empty =>
    obtain rfl := List.mem_singleton.mp found
    exact List.suffix_refl _
  | char c => exact one found
  | letter c => exact one found
  | digit => exact one found
  | blank => exact one found
  | word => exact one found
  | boundary =>
    obtain ⟨_, rfl⟩ := mem_boundary found
    exact List.suffix_refl _
  | group number inner ih =>
    obtain ⟨y, inside, rest⟩ := mem_group found
    rw [rest]
    refine ih inside fun found => ?_
    obtain ⟨c, _, split, _⟩ := mem_takeOne found
    rw [split]
    exact List.suffix_cons c y.rest
  | seq first second ihf ihs =>
    obtain ⟨y, before, after⟩ := mem_seq found
    refine (ihs after one).trans (ihf before fun found => ?_)
    obtain ⟨c, _, split, _⟩ := mem_takeOne found
    rw [split]
    exact List.suffix_cons c y.rest
  | either first second ihf ihs =>
    rcases List.mem_append.mp found with found | found
    · exact ihf found one
    · exact ihs found one
  | star inner ih =>
    refine repeatWithin_suffix (fun cursor y moved => ih moved fun found => ?_) found
    obtain ⟨c, _, split, _⟩ := mem_takeOne found
    rw [split]
    exact List.suffix_cons c y.rest

/-! Patterns that begin with a word. -/

theorem isCapitalWord_of_check {word : String}
    (check : (!word.toList.isEmpty && word.toList.all isCapital) = true) : IsCapitalWord word := by
  simp only [Bool.and_eq_true, Bool.not_eq_true', List.isEmpty_eq_false_iff] at check
  exact ⟨check.1, List.all_eq_true.mp check.2⟩

def EndsWordFirst (parts : List Pattern) : Prop :=
  ∀ cursor x, cursor.before.any isWordCharacter = true → x ∈ (sequence parts).ends cursor →
    EndsRun cursor.rest

def wordThen (word : String) (parts : List Pattern) : Pattern :=
  sequence (.boundary :: anyCase word :: parts)

theorem mem_wordThen {word : String} {parts : List Pattern} {cursor x : Cursor}
    (found : x ∈ (wordThen word parts).ends cursor) :
    atBoundary cursor = true ∧ ∃ k rest, cursor.rest = k ++ rest ∧ Same k word
      ∧ x ∈ (sequence parts).ends (cursor.past k rest) := by
  obtain ⟨y, first, later⟩ := mem_seq found
  obtain ⟨accepted, rfl⟩ := mem_boundary first
  obtain ⟨z, letters, last⟩ := mem_seq later
  obtain ⟨k, split, same, moved⟩ := mem_anyCase letters
  refine ⟨accepted, k, z.rest, split, same, ?_⟩
  rwa [← moved]

theorem begun_wordThen {word : String} (capital : IsCapitalWord word) {parts : List Pattern}
    (ended : EndsWordFirst parts) {cursor x : Cursor}
    (found : x ∈ (wordThen word parts).ends cursor) :
    cursor.before.any isWordCharacter = false ∧ x.rest.length < cursor.rest.length
      ∧ ∃ k rest, cursor.rest = k ++ rest ∧ Same k word ∧ EndsRun rest
        ∧ x ∈ (sequence parts).ends (cursor.past k rest) := by
  obtain ⟨accepted, k, rest, split, same, later⟩ := mem_wordThen found
  obtain ⟨nonempty, letters⟩ := same_word capital same
  have last : (cursor.past k rest).before.any isWordCharacter = true := by
    rw [Cursor.past, List.getLast?_eq_getLast_of_ne_nil nonempty]
    exact letters _ (List.getLast_mem nonempty)
  refine ⟨?_, ?_, k, rest, split, same, ended _ x last later, later⟩
  · cases k with
    | nil => exact absurd rfl nonempty
    | cons c k =>
      rw [atBoundary, split] at accepted
      simpa [letters c (by simp)] using accepted
  · have shorter := (ends_suffix _ later).length_le
    have longer := List.length_pos_of_ne_nil nonempty
    simp only [Cursor.past] at shorter
    rw [split, List.length_append]
    omega

theorem between_ne_nil {s t : List Char} (shorter : t.length < s.length) : between s t ≠ [] := by
  intro none
  have length := congrArg List.length none
  simp only [between, List.length_take, List.length_nil] at length
  omega

theorem wordThen_insensitive {word : String} (nonempty : word.toList ≠ []) (parts : List Pattern)
    {before other : Option Char} (same : before.any isWordCharacter = other.any isWordCharacter)
    (s : List Char) :
    (wordThen word parts).ends { before, rest := s }
      = (wordThen word parts).ends { before := other, rest := s } := by
  have one : ∀ test : Char → Bool,
      takeOne test { before, rest := s } = takeOne test { before := other, rest := s } := by
    intro test
    cases s <;> rfl
  have letters : (anyCase word).ends { before, rest := s }
      = (anyCase word).ends { before := other, rest := s } := by
    rw [anyCase]
    cases found : word.toList with
    | nil => exact absurd found nonempty
    | cons c cs => exact congrArg (List.flatMap _) (one _)
  have side : atBoundary { before, rest := s } = atBoundary { before := other, rest := s } := by
    simp only [atBoundary, same]
  change (boundary.ends _).flatMap _ = (boundary.ends _).flatMap _
  rw [ends, ends, side]
  split
  · simp only [List.flatMap_cons, List.flatMap_nil, List.append_nil]
    exact congrArg (List.flatMap _) letters
  · rfl

theorem matchAt_congr {p : Pattern} {before other : Option Char} {s : List Char}
    (same : p.ends { before, rest := s } = p.ends { before := other, rest := s }) :
    p.matchAt? before s = p.matchAt? other s := by
  rw [matchAt?, matchAt?, same]

theorem beginsWith_wordThen {word : String} (capital : IsCapitalWord word) {parts : List Pattern}
    (ended : EndsWordFirst parts) : BeginsWith (wordThen word parts) [word] where
  capital found listed := by
    obtain rfl := List.mem_singleton.mp listed
    exact capital
  insensitive before other s same := matchAt_congr (wordThen_insensitive capital.nonempty parts same s)
  begun before s m found := by
    obtain ⟨x, inside, text⟩ := matchAt_ends found
    obtain ⟨aside, shorter, k, rest, split, same, stop, _⟩ := begun_wordThen capital ended inside
    refine ⟨aside, ?_, word, by simp, k, rest, split, same, stop⟩
    rw [text]
    exact between_ne_nil shorter

/-- A match of the pattern at a word leaves the rest of the pattern to match behind it. -/
theorem wordThen_ends {word : String} (capital : IsCapitalWord word) {parts : List Pattern}
    (ended : EndsWordFirst parts) {before : Option Char} {w a : List Char}
    {groups : List (Nat × List Char)} (letters : IsPatternWord w) (stop : EndsRun a) {x : Cursor}
    (found : x ∈ (wordThen word parts).ends ⟨before, w ++ a, groups⟩) :
    Same w word ∧ ∃ cursor, cursor.rest = a ∧ x ∈ (sequence parts).ends cursor := by
  obtain ⟨_, _, k, rest, split, same, ends, later⟩ := begun_wordThen capital ended found
  have inside := (same_word capital same).2
  have first : (w ++ a).takeWhile isWordCharacter = w :=
    Reader.takeWhile_upTo letters.inside stop
  have second : (k ++ rest).takeWhile isWordCharacter = k := Reader.takeWhile_upTo inside ends
  have words : w = k := by rw [← first, show w ++ a = k ++ rest from split, second]
  subst words
  exact ⟨same, _, (List.append_cancel_left split).symm, later⟩

theorem wordThen_rest {word : String} (capital : IsCapitalWord word) {parts : List Pattern}
    (ended : EndsWordFirst parts) {w a : List Char} (letters : IsPatternWord w) (stop : EndsRun a)
    {m : Match} (found : (wordThen word parts).matchAt? none (w ++ a) = some m) :
    ∃ cursor x, cursor.rest = a ∧ x ∈ (sequence parts).ends cursor := by
  obtain ⟨x, inside, _⟩ := matchAt_ends found
  obtain ⟨_, cursor, rest, later⟩ := wordThen_ends capital ended letters stop inside
  exact ⟨cursor, x, rest, later⟩

theorem first_word {word : String} {parts : List Pattern} {before : Option Char}
    (aside : before.any isWordCharacter = false) {k rest : List Char} (letters : IsPatternWord k)
    (same : Same k word) {groups : List (Nat × List Char)} {stop : Cursor}
    (later : (sequence parts).first ⟨k.getLast?.or before, rest, groups⟩ = some stop) :
    (wordThen word parts).first ⟨before, k ++ rest, groups⟩ = some stop := by
  refine first_seq (first_boundary ?_) (first_seq (first_anyCase same rfl) later)
  cases k with
  | nil => exact absurd rfl letters.nonempty
  | cons c k => simp [atBoundary, letters.inside c (by simp), aside]

end Pattern

namespace TextRule

open Pattern

theorem ends_gap (parts : List Pattern) : EndsWordFirst (gap :: parts) := by
  intro cursor x _ found
  obtain ⟨y, first, _⟩ := mem_seq found
  obtain ⟨c, g, inside, split, _⟩ := @mem_plus .blank isBlank rfl _ _ first
  rw [split]
  exact endsRun_cons (not_wordCharacter_of_blank (inside c (by simp))) _

theorem mem_number {part : Nat} {parts : List Pattern} {cursor x : Cursor}
    (found : x ∈ (sequence (gap :: number part :: parts)).ends cursor) :
    ∃ g d r, (∀ c ∈ g, isBlank c = true) ∧ isPatternDigit d = true ∧ cursor.rest = g ++ d :: r := by
  obtain ⟨y, first, later⟩ := mem_seq found
  obtain ⟨z, second, _⟩ := mem_seq later
  obtain ⟨c, g, blank, split, _⟩ := @mem_plus .blank isBlank rfl _ _ first
  obtain ⟨v, inside, _⟩ := mem_group second
  obtain ⟨d, ds, digits, more, _⟩ := @mem_plus .digit isPatternDigit rfl _ _ inside
  exact ⟨c :: g, d, ds ++ v.rest, blank, digits d (by simp), by rw [split, more]; rfl⟩

theorem mem_parenthesis (c : Char) {parts : List Pattern} {cursor x : Cursor}
    (found : x ∈ (sequence (blanks :: .char c :: parts)).ends cursor) :
    ∃ g y, (∀ d ∈ g, isBlank d = true) ∧ cursor.rest = g ++ c :: y.rest
      ∧ x ∈ (sequence parts).ends y := by
  obtain ⟨y, first, later⟩ := mem_seq found
  obtain ⟨z, second, last⟩ := mem_seq later
  obtain ⟨g, inside, split, _⟩ := @mem_star .blank isBlank rfl _ _ first
  obtain ⟨d, opened, next, _⟩ := mem_takeOne second
  obtain rfl : d = c := by simpa using opened
  exact ⟨g, z, inside, by rw [split, next], last⟩

theorem ends_call (parts : List Pattern) : EndsWordFirst (blanks :: .char '(' :: parts) := by
  intro cursor x _ found
  obtain ⟨g, y, inside, split, _⟩ := mem_parenthesis '(' found
  rw [split]
  cases g with
  | nil => exact endsRun_cons rfl _
  | cons c g => exact endsRun_cons (not_wordCharacter_of_blank (inside c (by simp))) _

theorem ends_boundary : EndsWordFirst [.boundary] := by
  intro cursor x word found c first
  obtain ⟨y, before, _⟩ := mem_seq found
  obtain ⟨accepted, _⟩ := mem_boundary before
  rw [atBoundary, word, first] at accepted
  simpa using accepted

end TextRule

end SqlDialects
