import Mathlib
import SqlDialects.Reader.Nesting
import SqlDialects.Text.Basic

/-
Texts that scans for parentheses and quotes go over as a whole. Such a text closes whatever it opens,
and none of the characters at which the scan stops stands outside its parentheses and quotes.
-/
namespace SqlDialects

namespace Nesting

def passes (stops : Char → Bool) : Nesting → List Char → Bool
  | nesting, [] => nesting.isTop
  | nesting, c :: rest => !(nesting.isTop && stops c) && passes stops (nesting.step c) rest

theorem isTop_iff {nesting : Nesting} : nesting.isTop = true ↔ nesting = {} := by
  obtain ⟨depth, quote⟩ := nesting
  simp [isTop]

theorem passes_cons {stops : Char → Bool} {nesting : Nesting} {c : Char} {s : List Char} :
    passes stops nesting (c :: s) = true
      ↔ (nesting.isTop = true → stops c = false) ∧ passes stops (nesting.step c) s = true := by
  rw [passes, Bool.and_eq_true, Bool.not_eq_true', Bool.and_eq_false_imp]

theorem passes_append {stops : Char → Bool} {nesting : Nesting} {s t : List Char}
    (first : passes stops nesting s = true) (second : passes stops {} t = true) :
    passes stops nesting (s ++ t) = true := by
  induction s generalizing nesting with
  | nil => rwa [isTop_iff.mp first]
  | cons c s ih =>
    obtain ⟨free, rest⟩ := passes_cons.mp first
    exact passes_cons.mpr ⟨free, ih rest⟩

theorem passes_weaken {stops fewer : Char → Bool} (weaker : ∀ c, stops c = false → fewer c = false)
    {nesting : Nesting} {s : List Char} (through : passes stops nesting s = true) :
    passes fewer nesting s = true := by
  induction s generalizing nesting with
  | nil => exact through
  | cons c s ih =>
    obtain ⟨free, rest⟩ := passes_cons.mp through
    exact passes_cons.mpr ⟨fun top => weaker c (free top), ih rest⟩

def isFlat (c : Char) : Bool := !isQuote c && c != '(' && c != ')'

theorem step_flat (nesting : Nesting) (known : ∀ q ∈ nesting.quote, isQuote q = true) {c : Char}
    (flat : isFlat c = true) : nesting.step c = nesting := by
  simp only [isFlat, Bool.and_eq_true, Bool.not_eq_true', bne_iff_ne] at flat
  obtain ⟨⟨unquoted, unopened⟩, unclosed⟩ := flat
  rw [step]
  cases found : nesting.quote with
  | none => simp [unquoted, unopened, unclosed]
  | some q =>
    have other : c ≠ q := by
      rintro rfl
      rw [known c found] at unquoted
      cases unquoted
    simp [other]

theorem passes_behind {stops : Char → Bool} {c : Char} (flat : isFlat c = true)
    (free : stops c = false) {s : List Char} (through : passes stops {} s = true) :
    passes stops {} (c :: s) = true := by
  refine passes_cons.mpr ⟨fun _ => free, ?_⟩
  rwa [step_flat _ (by simp) flat]

theorem passes_flat {stops : Char → Bool} {s : List Char}
    (flat : ∀ c ∈ s, isFlat c = true ∧ stops c = false) : passes stops {} s = true := by
  induction s with
  | nil => rfl
  | cons c s ih =>
    have head := flat c List.mem_cons_self
    exact passes_behind head.1 head.2 (ih fun d member => flat d (.tail c member))

theorem passes_double {stops : Char → Bool} {q : Char} (known : isQuote q = true)
    (free : stops q = false) (body : List Char) :
    passes stops { quote := some q } (Text.double q body ++ [q]) = true := by
  have opened : ({} : Nesting).step q = { quote := some q } := by simp [step, known]
  have closed : ({ quote := some q } : Nesting).step q = {} := by simp [step]
  have inside : ({ quote := some q } : Nesting).isTop = false := rfl
  induction body with
  | nil => exact passes_cons.mpr ⟨by simp [inside], by rw [closed]; rfl⟩
  | cons c body ih =>
    rw [Text.double]
    split
    · refine passes_cons.mpr ⟨by simp [inside], ?_⟩
      rw [closed]
      refine passes_cons.mpr ⟨fun _ => free, ?_⟩
      rwa [opened]
    · next other =>
      refine passes_cons.mpr ⟨by simp [inside], ?_⟩
      have kept : ({ quote := some q } : Nesting).step c = { quote := some q } := by
        simp [step, other]
      rwa [kept]

theorem passes_enclose {stops : Char → Bool} {q : Char} (known : isQuote q = true)
    (free : stops q = false) (body : List Char) : passes stops {} (Text.enclose q body) = true := by
  have opened : ({} : Nesting).step q = { quote := some q } := by simp [step, known]
  refine passes_cons.mpr ⟨fun _ => free, ?_⟩
  rw [opened]
  exact passes_double known free body

/-! One level deeper. -/

def deeper (nesting : Nesting) : Nesting := { nesting with depth := nesting.depth + 1 }

theorem deeper_isTop (nesting : Nesting) : nesting.deeper.isTop = false := rfl

theorem step_deeper {nesting : Nesting} {c : Char}
    (free : nesting.isTop = true → (c == ')') = false) :
    nesting.deeper.step c = (nesting.step c).deeper := by
  obtain ⟨depth, quote⟩ := nesting
  cases quote with
  | some q => by_cases same : c = q <;> simp [step, deeper, same]
  | none =>
    by_cases known : isQuote c = true
    · simp [step, deeper, known]
    · by_cases opens : c = '('
      · subst opens
        rfl
      · by_cases closes : c = ')'
        · subst closes
          -- At the top the parenthesis would change nothing.
          have below : depth ≠ 0 := by
            rintro rfl
            cases free rfl
          obtain ⟨depth, rfl⟩ := Nat.exists_eq_succ_of_ne_zero below
          rfl
        · simp [step, deeper, known, opens, closes]

theorem passes_deeper {stops : Char → Bool} {nesting : Nesting} {s t : List Char}
    (balanced : passes (· == ')') nesting s = true)
    (rest : passes stops ({} : Nesting).deeper t = true) :
    passes stops nesting.deeper (s ++ t) = true := by
  induction s generalizing nesting with
  | nil => rwa [isTop_iff.mp balanced]
  | cons c s ih =>
    obtain ⟨free, later⟩ := passes_cons.mp balanced
    refine passes_cons.mpr ⟨by simp [deeper_isTop], ?_⟩
    rw [step_deeper free]
    exact ih later

theorem passes_parentheses {stops : Char → Bool} (free : stops '(' = false) {s : List Char}
    (balanced : passes (· == ')') {} s = true) : passes stops {} ('(' :: (s ++ [')'])) = true := by
  refine passes_cons.mpr ⟨fun _ => free, ?_⟩
  exact passes_deeper balanced (passes_cons.mpr ⟨by simp [deeper_isTop], rfl⟩)

/-! Scans that begin inside a text. -/

theorem step_known {nesting : Nesting} (known : ∀ q ∈ nesting.quote, isQuote q = true) (c : Char) :
    ∀ q ∈ (nesting.step c).quote, isQuote q = true := by
  intro q found
  rw [step] at found
  split at found
  · split at found
    · cases found
    · exact known q found
  · split at found
    · next quote => cases found; exact quote
    · split at found
      · exact known q found
      · split at found <;> exact known q found

theorem flat_blank {c : Char} (blank : Text.isBlank c = true) : isFlat c = true := by
  cases flat : isFlat c with
  | true => rfl
  | false =>
    have listed : c ∈ ['\x27', '"', '\x60', '(', ')'] := by
      simp only [isFlat, isQuote] at flat
      simp
      grind
    fin_cases listed <;> cases blank

theorem passes_last {stops : Char → Bool} (blanks : ∀ c, Text.isBlank c = true → stops c = true)
    {nesting : Nesting} (known : ∀ q ∈ nesting.quote, isQuote q = true) {s : List Char} {c : Char}
    (through : passes stops nesting (s ++ [c]) = true) : Text.isBlank c = false := by
  induction s generalizing nesting with
  | nil =>
    obtain ⟨free, top⟩ := passes_cons.mp through
    cases blank : Text.isBlank c with
    | false => rfl
    | true =>
      rw [step_flat nesting known (flat_blank blank)] at top
      exact absurd (free top) (by simp [blanks c blank])
  | cons d s ih => exact ih (step_known known d) (passes_cons.mp through).2

theorem passes_end {stops : Char → Bool} {nesting : Nesting}
    (known : ∀ q ∈ nesting.quote, isQuote q = true) {s t : List Char}
    (through : passes stops nesting (s ++ t) = true) :
    ∃ later : Nesting, (∀ q ∈ later.quote, isQuote q = true) ∧ passes stops later t = true := by
  induction s generalizing nesting with
  | nil => exact ⟨nesting, known, through⟩
  | cons c s ih => exact ih (step_known known c) (passes_cons.mp through).2

theorem passes_behind_flat {stops : Char → Bool} {nesting : Nesting}
    (known : ∀ q ∈ nesting.quote, isQuote q = true) {m s : List Char}
    (flat : ∀ c ∈ m, isFlat c = true) (through : passes stops nesting (m ++ s) = true) :
    passes stops nesting s = true := by
  induction m with
  | nil => exact through
  | cons c m ih =>
    obtain ⟨first, others⟩ := List.forall_mem_cons.mp flat
    obtain ⟨_, rest⟩ := passes_cons.mp through
    rw [step_flat nesting known first] at rest
    exact ih others rest

theorem passes_before_flat {stops : Char → Bool} {nesting : Nesting}
    (known : ∀ q ∈ nesting.quote, isQuote q = true) {s m : List Char}
    (flat : ∀ c ∈ m, isFlat c = true) (through : passes stops nesting (s ++ m) = true) :
    passes stops nesting s = true := by
  induction s generalizing nesting with
  | nil => exact passes_behind_flat known flat (by simpa using through)
  | cons c s ih =>
    obtain ⟨free, rest⟩ := passes_cons.mp through
    exact passes_cons.mpr ⟨free, ih (step_known known c) rest⟩

/-- What stood before a character is known from what stands behind it, unless a parenthesis is
closed that was not open. -/
theorem step_injective {nesting other : Nesting} (known : ∀ q ∈ nesting.quote, isQuote q = true)
    (also : ∀ q ∈ other.quote, isQuote q = true) {c : Char}
    (free : nesting.isTop = true → (c == ')') = false)
    (free' : other.isTop = true → (c == ')') = false) (same : nesting.step c = other.step c) :
    nesting = other := by
  obtain ⟨depth, quote⟩ := nesting
  obtain ⟨depth', quote'⟩ := other
  cases quote <;> cases quote' <;> simp [step, isTop] at * <;> grind

theorem passes_unique {nesting other : Nesting} (known : ∀ q ∈ nesting.quote, isQuote q = true)
    (also : ∀ q ∈ other.quote, isQuote q = true) {s : List Char}
    (through : passes (· == ')') nesting s = true) (alike : passes (· == ')') other s = true) :
    nesting = other := by
  induction s generalizing nesting other with
  | nil => rw [isTop_iff.mp through, isTop_iff.mp alike]
  | cons c s ih =>
    obtain ⟨free, rest⟩ := passes_cons.mp through
    obtain ⟨free', rest'⟩ := passes_cons.mp alike
    exact step_injective known also free free' (ih (step_known known c) (step_known also c) rest rest')

end Nesting

open Nesting

/-! What the scans give behind such a text. -/

theorem untilTop_passes {nesting : Nesting} {s t : List Char}
    (balanced : passes (· == ')') nesting s = true) :
    untilTop nesting.deeper (s ++ t)
      = (untilTop ({} : Nesting).deeper t).map fun (inside, after) => (s ++ inside, after) := by
  induction s generalizing nesting with
  | nil =>
    rw [isTop_iff.mp balanced]
    simp
  | cons c s ih =>
    obtain ⟨free, later⟩ := passes_cons.mp balanced
    rw [List.cons_append, untilTop, step_deeper free, deeper_isTop, ih later]
    simp [Function.comp_def]

theorem cutAtClosing_passes {s : List Char} (balanced : passes (· == ')') {} s = true)
    (t : List Char) : cutAtClosing (s ++ ')' :: t) = some (s, t) := by
  have cut := untilTop_passes (t := ')' :: t) balanced
  have closed : untilTop ({} : Nesting).deeper (')' :: t) = some ([], t) := rfl
  rw [closed] at cut
  exact cut.trans (by simp)

theorem topLevelFrom_passes {sep : Char} {nesting : Nesting} {s t piece : List Char}
    {pieces : List (List Char)} (through : passes (· == sep) nesting s = true)
    (rest : topLevelFrom sep {} t = piece :: pieces) :
    topLevelFrom sep nesting (s ++ t) = (s ++ piece) :: pieces := by
  induction s generalizing nesting with
  | nil => rwa [isTop_iff.mp through]
  | cons c s ih =>
    obtain ⟨free, later⟩ := passes_cons.mp through
    have inside : (c = sep && nesting.isTop) = false := by
      cases top : nesting.isTop with
      | false => simp
      | true => simpa using free top
    rw [List.cons_append, topLevelFrom, inside, ih later]
    rfl

theorem topLevelPieces_last {sep : Char} {s : List Char}
    (through : passes (· == sep) {} s = true) : topLevelPieces sep s = [s] := by
  have read := @topLevelFrom_passes sep {} s [] [] [] through rfl
  simpa [topLevelPieces] using read

theorem topLevelPieces_more {sep : Char} {s : List Char}
    (through : passes (· == sep) {} s = true) (t : List Char) :
    topLevelPieces sep (s ++ sep :: t) = s :: topLevelPieces sep t := by
  have later : topLevelFrom sep {} (sep :: t) = [] :: topLevelPieces sep t := by
    rw [topLevelFrom]
    simp [isTop, topLevelPieces]
  rw [topLevelPieces, topLevelFrom_passes through later, List.append_nil]

theorem tokensFrom_passes {nesting : Nesting} {s token t : List Char}
    (through : passes Text.isBlank nesting s = true) :
    tokensFrom nesting token (s ++ t) = tokensFrom {} (token ++ s) t := by
  induction s generalizing nesting token with
  | nil => rw [isTop_iff.mp through]; simp
  | cons c s ih =>
    obtain ⟨free, later⟩ := passes_cons.mp through
    have inside : (Text.isBlank c && nesting.isTop) = false := by
      cases top : nesting.isTop with
      | false => simp
      | true => simpa using free top
    rw [List.cons_append, tokensFrom, inside, ih later]
    simp

theorem tokens_blanks {ts : List (List Char)}
    (each : ∀ t ∈ ts, t ≠ [] ∧ passes Text.isBlank {} t = true) :
    tokens (ts.flatMap (' ' :: ·)) = ts := by
  induction ts with
  | nil => rfl
  | cons t ts ih =>
    obtain ⟨nonempty, through⟩ := each t List.mem_cons_self
    have rest := ih fun u member => each u (.tail t member)
    have first : tokens (' ' :: (t ++ ts.flatMap (' ' :: ·)))
        = tokensFrom {} t (ts.flatMap (' ' :: ·)) := by
      rw [tokens, tokensFrom]
      exact (tokensFrom_passes through).trans (by simp)
    rw [List.flatMap_cons, List.cons_append, first]
    cases ts with
    | nil => simp [tokensFrom, nonempty]
    | cons u us =>
      rw [List.flatMap_cons, List.cons_append, tokens, tokensFrom] at rest
      rw [List.flatMap_cons, List.cons_append, tokensFrom]
      have stops : (Text.isBlank ' ' && ({} : Nesting).isTop) = true := rfl
      simp only [stops, ↓reduceIte, List.isEmpty_nil] at rest ⊢
      simp [nonempty, rest]

/-! What the scans cut a text into. -/

theorem untilTop_cut {nesting : Nesting} {s inside after : List Char}
    (cut : untilTop nesting.deeper s = some (inside, after)) :
    passes (· == ')') nesting inside = true ∧ s = inside ++ ')' :: after := by
  induction s generalizing nesting inside with
  | nil => cases cut
  | cons c s ih =>
    rw [untilTop] at cut
    by_cases closes : nesting.isTop = true ∧ c = ')'
    · obtain ⟨top, rfl⟩ := closes
      obtain rfl := isTop_iff.mp top
      cases cut
      exact ⟨rfl, rfl⟩
    · have free : nesting.isTop = true → (c == ')') = false := by simpa using closes
      rw [step_deeper free, deeper_isTop] at cut
      obtain ⟨⟨tail, last⟩, later, same⟩ := Option.map_eq_some_iff.mp cut
      cases same
      obtain ⟨through, split⟩ := ih later
      exact ⟨passes_cons.mpr ⟨free, through⟩, congrArg (c :: ·) split⟩

theorem cutAtClosing_balanced {s body tail : List Char} (cut : cutAtClosing s = some (body, tail)) :
    passes (· == ')') {} body = true :=
  (@untilTop_cut {} _ _ _ cut).1

theorem topLevelFrom_each {stops : Char → Bool} {sep : Char} (flat : isFlat sep = true)
    {nesting : Nesting} {s : List Char} (through : passes stops nesting s = true) :
    ∃ first others, topLevelFrom sep nesting s = first :: others
      ∧ passes (fun c => c == sep || stops c) nesting first = true
      ∧ ∀ piece ∈ others, passes (fun c => c == sep || stops c) {} piece = true := by
  induction s generalizing nesting with
  | nil => exact ⟨[], [], rfl, through, by simp⟩
  | cons c s ih =>
    obtain ⟨free, rest⟩ := passes_cons.mp through
    obtain ⟨first, others, cut, head, tail⟩ := ih rest
    rw [topLevelFrom]
    split
    · next stopped =>
      simp only [Bool.and_eq_true, decide_eq_true_eq] at stopped
      obtain ⟨rfl, top⟩ := stopped
      obtain rfl := isTop_iff.mp top
      rw [step_flat _ (by simp) flat] at cut head
      exact ⟨[], _, rfl, rfl, by rw [cut]; exact List.forall_mem_cons.mpr ⟨head, tail⟩⟩
    · next passed =>
      rw [cut]
      refine ⟨c :: first, others, rfl, passes_cons.mpr ⟨fun top => ?_, head⟩, tail⟩
      have other : c ≠ sep := by simpa [top] using passed
      simp [other, free top]

theorem topLevelPieces_each {stops : Char → Bool} {sep : Char} (flat : isFlat sep = true)
    {s : List Char} (through : passes stops {} s = true) :
    ∀ piece ∈ topLevelPieces sep s, passes (fun c => c == sep || stops c) {} piece = true := by
  obtain ⟨first, others, cut, head, tail⟩ := topLevelFrom_each flat through
  rw [topLevelPieces, cut]
  exact List.forall_mem_cons.mpr ⟨head, tail⟩

/-- The tokens of a text that is passed are passed, and no blank stands in them. What was read of the
first one leads from the top to where the scan stands. -/
theorem tokensFrom_each {stops : Char → Bool} {nesting : Nesting} {token s : List Char}
    (leads : ∀ u, passes (fun c => Text.isBlank c || stops c) nesting u = true →
      passes (fun c => Text.isBlank c || stops c) {} (token ++ u) = true)
    (through : passes stops nesting s = true) :
    ∀ t ∈ tokensFrom nesting token s,
      t ≠ [] ∧ passes (fun c => Text.isBlank c || stops c) {} t = true := by
  induction s generalizing nesting token with
  | nil =>
    intro t member
    rw [tokensFrom] at member
    split at member
    · cases member
    · next nonempty =>
      obtain rfl := List.mem_singleton.mp member
      exact ⟨by simpa using nonempty, by simpa using leads [] through⟩
  | cons c s ih =>
    obtain ⟨free, rest⟩ := passes_cons.mp through
    rw [tokensFrom]
    split
    · next stopped =>
      obtain ⟨blank, top⟩ := Bool.and_eq_true_iff.mp stopped
      have whole := leads [] top
      obtain rfl := isTop_iff.mp top
      rw [step_flat _ (by simp) (flat_blank blank)] at rest
      have later := @ih {} [] (fun u passed => passed) rest
      split
      · exact later
      · next nonempty =>
        exact List.forall_mem_cons.mpr ⟨⟨by simpa using nonempty, by simpa using whole⟩, later⟩
    · next passed =>
      refine ih (fun u later => ?_) rest
      have inside := leads (c :: u) (passes_cons.mpr ⟨fun top => ?_, later⟩)
      · simpa using inside
      · have solid : Text.isBlank c = false := by simpa [top] using passed
        simp [solid, free top]

theorem tokens_each {stops : Char → Bool} {s : List Char} (through : passes stops {} s = true) :
    ∀ t ∈ tokens s, t ≠ [] ∧ passes (fun c => Text.isBlank c || stops c) {} t = true :=
  tokensFrom_each (fun _ passed => passed) through

theorem tokensFrom_balanced {nesting : Nesting} {token s : List Char}
    (each : ∀ t ∈ tokensFrom nesting token s, passes (· == ')') {} t = true) :
    passes (· == ')') {} (token ++ s) = true := by
  induction s generalizing nesting token with
  | nil =>
    rw [tokensFrom] at each
    split at each
    · next empty =>
      rw [List.isEmpty_iff.mp empty]
      rfl
    · simpa using each
  | cons c s ih =>
    rw [tokensFrom] at each
    split at each
    · next stopped =>
      have blank := (Bool.and_eq_true_iff.mp stopped).1
      have other : (c == ')') = false := by
        have flat := flat_blank blank
        simp only [isFlat, Bool.and_eq_true, bne_iff_ne] at flat
        simpa using flat.2
      split at each
      · next empty =>
        rw [List.isEmpty_iff.mp empty]
        exact passes_behind (flat_blank blank) other (ih each)
      · obtain ⟨first, later⟩ := List.forall_mem_cons.mp each
        exact passes_append first (passes_behind (flat_blank blank) other (ih later))
    · simpa using ih each

end SqlDialects
