import SqlDialects.Proofs.Grammar.Nesting
import SqlDialects.Proofs.Grammar.Table

/-
What the cuts of a text leave of it. The depth of parentheses is counted here apart from the scan, on
the characters outside quotes, and may go below zero; the scans are compared with that count.
-/
namespace SqlDialects

namespace Nesting

/-! Where a scan stands behind a text. -/

def after (nesting : Nesting) (s : List Char) : Nesting := s.foldl step nesting

def runs (stops : Char → Bool) : Nesting → List Char → Bool
  | _, [] => true
  | nesting, c :: rest => !(nesting.isTop && stops c) && runs stops (nesting.step c) rest

theorem after_append (nesting : Nesting) (s t : List Char) :
    nesting.after (s ++ t) = (nesting.after s).after t := List.foldl_append

theorem runs_cons {stops : Char → Bool} {nesting : Nesting} {c : Char} {s : List Char} :
    runs stops nesting (c :: s) = true
      ↔ (nesting.isTop = true → stops c = false) ∧ runs stops (nesting.step c) s = true := by
  rw [runs, Bool.and_eq_true, Bool.not_eq_true', Bool.and_eq_false_imp]

theorem runs_append {stops : Char → Bool} {nesting : Nesting} {s t : List Char} :
    runs stops nesting (s ++ t) = true
      ↔ runs stops nesting s = true ∧ runs stops (nesting.after s) t = true := by
  induction s generalizing nesting with
  | nil => simp [runs, after]
  | cons c s ih =>
    rw [List.cons_append, runs_cons, runs_cons, ih, and_assoc]
    rfl

theorem passes_iff {stops : Char → Bool} {nesting : Nesting} {s : List Char} :
    passes stops nesting s = true
      ↔ runs stops nesting s = true ∧ (nesting.after s).isTop = true := by
  induction s generalizing nesting with
  | nil => simp [passes, runs, after]
  | cons c s ih =>
    rw [passes_cons, runs_cons, ih, and_assoc]
    rfl

/-! The depth outside quotes, counted. -/

def quoteBehind : Option Char → List Char → Option Char
  | quote, [] => quote
  | some q, c :: rest => quoteBehind (if c = q then none else some q) rest
  | none, c :: rest => quoteBehind (if isQuote c then some c else none) rest

def unquoted : Option Char → List Char → List Char
  | _, [] => []
  | some q, c :: rest => unquoted (if c = q then none else some q) rest
  | none, c :: rest => if isQuote c then unquoted (some c) rest else c :: unquoted none rest

def depthGain (quote : Option Char) (s : List Char) : Int :=
  (unquoted quote s).count '(' - (unquoted quote s).count ')'

theorem quoteBehind_append (quote : Option Char) (s t : List Char) :
    quoteBehind quote (s ++ t) = quoteBehind (quoteBehind quote s) t := by
  induction s generalizing quote with
  | nil => cases quote <;> rfl
  | cons c s ih => cases quote <;> exact ih _

def IsOpen (quote : Option Char) : Prop := ∀ q ∈ quote, isQuote q = true

theorem isOpen_none : IsOpen none := fun q opened => by cases opened

theorem IsOpen.behind {quote : Option Char} (known : IsOpen quote) (s : List Char) :
    IsOpen (quoteBehind quote s) := by
  induction s generalizing quote with
  | nil => cases quote <;> exact known
  | cons c s ih =>
    cases quote with
    | some q =>
      rw [quoteBehind]
      split
      · exact ih isOpen_none
      · exact ih known
    | none =>
      rw [quoteBehind]
      split
      · next opened => exact ih fun q same => by rwa [← Option.some.inj same]
      · exact ih isOpen_none

theorem behind_plain {quote : Option Char} (known : IsOpen quote) {u : List Char}
    (plain : ∀ c ∈ u, isQuote c = false) : quoteBehind quote u = quote := by
  induction u with
  | nil => cases quote <;> rfl
  | cons c u ih =>
    have unquoted := plain c List.mem_cons_self
    have later := ih fun d member => plain d (.tail c member)
    cases quote with
    | none => rwa [quoteBehind, unquoted]
    | some q =>
      have other : c ≠ q := by
        rintro rfl
        exact absurd (unquoted.symm.trans (known c rfl)) (by decide)
      rwa [quoteBehind, if_neg other]

theorem unquoted_append (quote : Option Char) (s t : List Char) :
    unquoted quote (s ++ t) = unquoted quote s ++ unquoted (quoteBehind quote s) t := by
  induction s generalizing quote with
  | nil => cases quote <;> rfl
  | cons c s ih =>
    cases quote with
    | some q => exact ih _
    | none =>
      rw [List.cons_append, unquoted, unquoted, quoteBehind]
      split
      · exact ih _
      · rw [ih]
        rfl

theorem depthGain_append (quote : Option Char) (s t : List Char) :
    depthGain quote (s ++ t) = depthGain quote s + depthGain (quoteBehind quote s) t := by
  simp only [depthGain, unquoted_append, List.count_append, Nat.cast_add]
  ring

/-- One character changes the scan as it changes the count, unless it closes what was not open. -/
theorem step_counts {nesting : Nesting} {c : Char} (free : nesting.isTop = true → c ≠ ')') :
    (nesting.step c).quote = quoteBehind nesting.quote [c]
      ∧ ((nesting.step c).depth : Int) = nesting.depth + depthGain nesting.quote [c] := by
  obtain ⟨depth, quote⟩ := nesting
  cases quote with
  | some q => by_cases same : c = q <;> simp [step, quoteBehind, depthGain, unquoted, same]
  | none =>
    by_cases known : isQuote c = true
    · simp [step, quoteBehind, depthGain, unquoted, known]
    · by_cases opens : c = '('
      · subst opens
        simp [step, quoteBehind, depthGain, unquoted, known]
      · by_cases closes : c = ')'
        · subst closes
          have below : depth ≠ 0 := by
            rintro rfl
            exact free rfl rfl
          simp [step, quoteBehind, depthGain, unquoted, known]
          omega
        · simp [step, quoteBehind, depthGain, unquoted, known, opens, closes]

theorem after_counts {stops : Char → Bool} (closing : stops ')' = true) {nesting : Nesting}
    {s : List Char} (through : runs stops nesting s = true) :
    (nesting.after s).quote = quoteBehind nesting.quote s
      ∧ ((nesting.after s).depth : Int) = nesting.depth + depthGain nesting.quote s := by
  induction s generalizing nesting with
  | nil => cases found : nesting.quote <;> simp [after, quoteBehind, depthGain, unquoted, found]
  | cons c s ih =>
    obtain ⟨free, rest⟩ := runs_cons.mp through
    have first : (nesting.step c).quote = quoteBehind nesting.quote [c]
        ∧ ((nesting.step c).depth : Int) = nesting.depth + depthGain nesting.quote [c] := by
      refine step_counts fun top same => ?_
      rw [same, closing] at free
      cases free top
    obtain ⟨quote, depth⟩ := ih rest
    rw [first.1, ← quoteBehind_append] at quote
    rw [first.1, first.2, add_assoc, ← depthGain_append] at depth
    exact ⟨quote, depth⟩

/-- Read from the top, the text never closes more than it has opened, and it leaves nothing open. -/
structure Balanced (s : List Char) : Prop where
  above : ∀ p, p <+: s → 0 ≤ depthGain none p
  level : depthGain none s = 0
  closed : quoteBehind none s = none

def Hides (c : Char) (s : List Char) : Prop :=
  ∀ p q, s = p ++ c :: q → ¬ (depthGain none p = 0 ∧ quoteBehind none p = none)

theorem balanced_of_passes {stops : Char → Bool} (closing : stops ')' = true) {s : List Char}
    (through : passes stops {} s = true) : Balanced s := by
  obtain ⟨free, top⟩ := passes_iff.mp through
  obtain ⟨quote, depth⟩ := after_counts closing free
  rw [isTop_iff.mp top] at quote depth
  refine ⟨?_, by simpa using depth.symm, quote.symm⟩
  rintro p ⟨q, rfl⟩
  obtain ⟨_, height⟩ := after_counts closing (runs_append.mp free).1
  have bound : (0 : Int) ≤ (after {} p).depth := Int.natCast_nonneg _
  rw [height] at bound
  simpa using bound

theorem hides_of_passes {stops : Char → Bool} (closing : stops ')' = true) {c : Char}
    (stopped : stops c = true) {s : List Char} (through : passes stops {} s = true) :
    Hides c s := by
  rintro p q rfl ⟨level, closed⟩
  obtain ⟨before, behind⟩ := runs_append.mp (passes_iff.mp through).1
  obtain ⟨quote, depth⟩ := after_counts closing before
  have top : (after {} p).isTop = true := by
    rw [isTop, Bool.and_eq_true, beq_iff_eq, quote, closed]
    exact ⟨by simpa [level] using depth, rfl⟩
  rw [(runs_cons.mp behind).1 top] at stopped
  cases stopped

end Nesting

open Nesting

/-! The body between the outer parentheses, and its parts. -/

theorem topLevelFrom_ne_nil (sep : Char) (nesting : Nesting) (s : List Char) :
    topLevelFrom sep nesting s ≠ [] := by
  cases s with
  | nil => exact List.cons_ne_nil _ _
  | cons c s =>
    rw [topLevelFrom]
    split
    · exact List.cons_ne_nil _ _
    · cases topLevelFrom sep (nesting.step c) s <;> exact List.cons_ne_nil _ _

theorem topLevelFrom_join (sep : Char) (nesting : Nesting) (s : List Char) :
    [sep].intercalate (topLevelFrom sep nesting s) = s := by
  induction s generalizing nesting with
  | nil => rfl
  | cons c s ih =>
    rw [topLevelFrom]
    split
    · next stopped =>
      obtain ⟨rfl, _⟩ : c = sep ∧ _ := by simpa using stopped
      have whole := ih nesting
      cases found : topLevelFrom c nesting s with
      | nil => exact absurd found (topLevelFrom_ne_nil c nesting s)
      | cons part parts =>
        rw [found] at whole
        simp [List.intercalate_cons_cons, whole]
    · rw [Text.prepend_join, ih]

/-- The body of a definition falls into parts that are balanced and have no comma outside parentheses
and quotes, and it ends at the first place where its own parenthesis is closed. -/
theorem body_falls_into_parts {s body tail : List Char}
    (cut : cutAtClosing s = some (body, tail)) :
    [','].intercalate (topLevelPieces ',' body) = body
    ∧ (∀ part ∈ topLevelPieces ',' body, Balanced part ∧ Hides ',' part)
    ∧ s = body ++ ')' :: tail
    ∧ 1 + depthGain none (body ++ [')']) = 0
    ∧ ∀ p, p <+: s → p.length ≤ body.length → 0 < 1 + depthGain none p := by
  have through := cutAtClosing_balanced cut
  have balanced := balanced_of_passes rfl through
  have split : s = body ++ ')' :: tail := (@untilTop_cut {} _ _ _ cut).2
  refine ⟨topLevelFrom_join ',' {} body, fun part member => ?_, split, ?_, fun p first short => ?_⟩
  · have passed := topLevelPieces_each (by decide) through part member
    exact ⟨balanced_of_passes (by decide) passed, hides_of_passes (by decide) (by decide) passed⟩
  · rw [depthGain_append, balanced.level, balanced.closed]
    decide
  · have inside : p <+: body :=
      List.prefix_of_prefix_length_le (split ▸ first) (List.prefix_append body _) short
    have bound := balanced.above p inside
    omega

/-- Two columns with a parenthesis and commas in quotes and in parentheses, and what follows them. -/
def guardedBody : List Char := "a CHAR DEFAULT ')', b NUMBER(10,2) CHECK (f(b, 'x,('))".toList

theorem guardedBody_parts :
    cutAtClosing (guardedBody ++ ") TABLESPACE t".toList) = some (guardedBody, " TABLESPACE t".toList)
      ∧ topLevelPieces ',' guardedBody
        = ["a CHAR DEFAULT ')'".toList, " b NUMBER(10,2) CHECK (f(b, 'x,('))".toList]
      ∧ Balanced " b NUMBER(10,2) CHECK (f(b, 'x,('))".toList
      ∧ Hides ',' " b NUMBER(10,2) CHECK (f(b, 'x,('))".toList
      ∧ 1 + depthGain none (guardedBody ++ [')']) = 0 := by
  have cut : cutAtClosing (guardedBody ++ ") TABLESPACE t".toList)
      = some (guardedBody, " TABLESPACE t".toList) := by decide +kernel
  have parts : topLevelPieces ',' guardedBody
      = ["a CHAR DEFAULT ')'".toList, " b NUMBER(10,2) CHECK (f(b, 'x,('))".toList] := by
    decide +kernel
  obtain ⟨_, each, _, closes, _⟩ := body_falls_into_parts cut
  obtain ⟨balanced, hidden⟩ := each " b NUMBER(10,2) CHECK (f(b, 'x,('))".toList (by simp [parts])
  exact ⟨cut, parts, balanced, hidden, closes⟩

/-! Tokens. Only the last one may leave something open. -/

inductive TokenList : List (List Char) → Prop
  | nil : TokenList []
  | last {t : List Char} (nonempty : t ≠ []) (free : runs Text.isBlank {} t = true) : TokenList [t]
  | more {t : List Char} {ts : List (List Char)} (nonempty : t ≠ [])
      (through : passes Text.isBlank {} t = true) (later : TokenList ts) : TokenList (t :: ts)

/-- The second argument of the scan is what has been read of a token, and leads from the top to where
the scan stands. -/
theorem tokensFrom_tokenList {token : List Char} (s : List Char)
    (free : runs Text.isBlank {} token = true) :
    TokenList (tokensFrom (after {} token) token s) := by
  induction s generalizing token with
  | nil =>
    rw [tokensFrom]
    split
    · exact .nil
    · next nonempty => exact .last (by simpa using nonempty) free
  | cons c s ih =>
    rw [tokensFrom]
    split
    · next stopped =>
      have top := (Bool.and_eq_true_iff.mp stopped).2
      have later := @ih [] rfl
      rw [isTop_iff.mp top]
      split
      · exact later
      · next nonempty =>
        exact .more (by simpa using nonempty) (passes_iff.mpr ⟨free, top⟩) later
    · next passed =>
      have longer : runs Text.isBlank {} (token ++ [c]) = true := by
        refine runs_append.mpr ⟨free, runs_cons.mpr ⟨fun top => ?_, rfl⟩⟩
        simpa [top] using passed
      have stands : after {} (token ++ [c]) = (after {} token).step c := after_append {} token [c]
      have later := ih longer
      rwa [stands] at later

theorem tokens_tokenList (s : List Char) : TokenList (tokens s) := @tokensFrom_tokenList [] s rfl

theorem tokensFrom_runs {nesting : Nesting} {token s : List Char} (nonempty : token ++ s ≠ [])
    (free : runs Text.isBlank nesting s = true) :
    tokensFrom nesting token s = [token ++ s] := by
  induction s generalizing nesting token with
  | nil => simpa [tokensFrom] using nonempty
  | cons c s ih =>
    obtain ⟨solid, rest⟩ := runs_cons.mp free
    have inside : (Text.isBlank c && nesting.isTop) = false := by
      cases top : nesting.isTop with
      | false => simp
      | true => simpa using solid top
    have longer := @ih (nesting.step c) (token ++ [c]) (by simp) rest
    rw [tokensFrom, inside]
    simpa using longer

theorem TokenList.tokens_join {ts : List (List Char)} (list : TokenList ts) :
    tokens ([' '].intercalate ts) = ts := by
  induction list with
  | nil => rfl
  | last nonempty free =>
    rw [List.intercalate_singleton]
    exact tokensFrom_runs nonempty free
  | @more t ts nonempty through later ih =>
    cases ts with
    | nil =>
      rw [List.intercalate_singleton]
      exact tokensFrom_runs nonempty (passes_iff.mp through).1
    | cons u us =>
      have stops : (Text.isBlank ' ' && ({} : Nesting).isTop) = true := rfl
      rw [List.intercalate_cons_cons, List.append_assoc, tokens, tokensFrom_passes through,
        List.nil_append, List.singleton_append, tokensFrom, stops]
      simpa [nonempty, tokens] using ih

end SqlDialects
