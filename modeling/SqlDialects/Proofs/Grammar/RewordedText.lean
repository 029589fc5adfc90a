import SqlDialects.Proofs.Grammar.CalmText
import SqlDialects.Proofs.Text.QuotedSpans

/-
Changes that keep a calm text calm. Words, numbers, blanks and parentheses open nothing whatever stands
beside them, so they may take each other's place in code and in quotes. The quotes of names may be
changed as well, if nothing in the new quotes looks like a name or a literal.
-/
namespace SqlDialects

open Text Nesting

/-! What a rule may take and put. -/

def isQuiet (c : Char) : Bool := isOrdinary c && c != '*'

def loudCharacters : List Char := ['\x27', '"', '\x60', ';', '-', '/', '*']

theorem quiet_spec {c : Char} (quiet : isQuiet c = true) :
    isQuote c = false ∧ c ≠ ';' ∧ c ≠ '-' ∧ c ≠ '/' ∧ c ≠ '*' := by
  simpa [isQuiet, isOrdinary, and_assoc] using quiet

theorem quiet_of_not_loud {c : Char} (absent : c ∉ loudCharacters) : isQuiet c = true := by
  simp only [loudCharacters, List.mem_cons, List.not_mem_nil, or_false, not_or] at absent
  simp [isQuiet, isOrdinary, isQuote, absent]

theorem quiet_plain {w : List Char} (inside : ∀ c ∈ w, isQuiet c = true) :
    ∀ c ∈ w, isQuote c = false := fun c member => (quiet_spec (inside c member)).1

theorem quiet_ne_quote {c q : Char} (quiet : isQuiet c = true) (known : isQuote q = true) : c ≠ q := by
  rintro rfl
  rw [(quiet_spec quiet).1] at known
  cases known

theorem quiet_ne_apostrophe {c : Char} (quiet : isQuiet c = true) : c ≠ '\x27' :=
  quiet_ne_quote quiet rfl

structure Quiet (w : List Char) : Prop extends Trimmed w where
  inside : ∀ c ∈ w, isQuiet c = true

inductive Reworded : List Char → List Char → Prop
  | nil : Reworded [] []
  | same (c : Char) {s t : List Char} (later : Reworded s t) : Reworded (c :: s) (c :: t)
  | other {u w s t : List Char} (taken : ∀ c ∈ u, isQuiet c = true) (put : Quiet w)
      (later : Reworded s t) : Reworded (u ++ s) (w ++ t)

namespace Reworded

theorem append {s t u v : List Char} (first : Reworded s t) (second : Reworded u v) :
    Reworded (s ++ u) (t ++ v) := by
  induction first with
  | nil => exact second
  | same c later ih => exact .same c ih
  | other taken put later ih =>
    rw [List.append_assoc, List.append_assoc]
    exact .other taken put ih

theorem ne_nil {s t : List Char} (reworded : Reworded s t) (nonempty : s ≠ []) : t ≠ [] := by
  cases reworded with
  | nil => exact nonempty
  | same c later => exact List.cons_ne_nil c _
  | other taken put later => simp [put.ne_nil]

theorem head {s t : List Char} (reworded : Reworded s t) {d : Char} (first : t.head? = some d) :
    s.head? = some d ∨ isQuiet d = true ∧ isBlank d = false := by
  cases reworded with
  | nil => cases first
  | same c later => exact .inl first
  | other taken put later =>
    obtain ⟨c, begins, solid⟩ := put.begins
    rw [List.head?_append, begins] at first
    obtain rfl : c = d := by simpa using first
    exact .inr ⟨put.inside c (List.mem_of_head? begins), solid⟩

theorem quote {s t : List Char} (reworded : Reworded s t) {q : Char} (known : isQuote q = true)
    (member : q ∈ t) : q ∈ s := by
  induction reworded with
  | nil => exact member
  | same c later ih => exact (List.mem_cons.mp member).elim (· ▸ List.mem_cons_self) (.tail c <| ih ·)
  | other taken put later ih =>
    refine List.mem_append_right _ (ih ((List.mem_append.mp member).resolve_left fun new => ?_))
    exact quiet_ne_quote (put.inside q new) known rfl

theorem last {s t : List Char} (reworded : Reworded s t) {d : Char} (last : t.getLast? = some d) :
    s.getLast? = some d ∨ isBlank d = false ∧ d ≠ ';' := by
  induction reworded with
  | nil => cases last
  | @same c s t later ih =>
    rw [List.getLast?_cons] at last ⊢
    cases behind : t.getLast? with
    | none =>
      -- nothing follows the character in the one text and in the other
      have empty : s = [] := by
        by_contra nonempty
        exact later.ne_nil nonempty (List.getLast?_eq_none_iff.mp behind)
      rw [behind] at last
      rw [empty]
      exact .inl last
    | some e =>
      obtain rfl : e = d := by simpa [behind] using last
      exact (ih behind).imp (fun same => by rw [same]; rfl) id
  | @other u w s t taken put later ih =>
    obtain ⟨c, ends, solid⟩ := put.ends
    rw [List.getLast?_append, ends] at last
    cases behind : t.getLast? with
    | none =>
      obtain rfl : c = d := by simpa [behind] using last
      exact .inr ⟨solid, (quiet_spec (put.inside c (List.mem_of_getLast? ends))).2.1⟩
    | some e =>
      obtain rfl : e = d := by simpa [behind] using last
      exact (ih behind).imp (fun same => by rw [List.getLast?_append, same]; rfl) id

theorem begins {s t : List Char} (reworded : Reworded s t)
    (solid : ∃ c, s.head? = some c ∧ isBlank c = false) : ∃ c, t.head? = some c ∧ isBlank c = false := by
  obtain ⟨c, first, kept⟩ := solid
  have nonempty : s ≠ [] := by
    rintro rfl
    cases first
  obtain ⟨d, front⟩ : ∃ d, t.head? = some d := ⟨_, List.head?_eq_some_head (reworded.ne_nil nonempty)⟩
  refine ⟨d, front, (reworded.head front).elim (fun same => ?_) And.right⟩
  obtain rfl : c = d := Option.some.inj (first.symm.trans same)
  exact kept

end Reworded

/-! Quiet texts between the quotes and signs of a calm text. -/

theorem clear_quiet {quote : Option Char} (known : IsOpen quote) {w s : List Char} {last : ScriptScan}
    (inside : ∀ c ∈ w, isQuiet c = true) (clear : Clear (scanFrom quote) s last) :
    Clear (scanFrom quote) (w ++ s) last := by
  induction w with
  | nil => exact clear
  | cons c w ih =>
    have quiet := inside c List.mem_cons_self
    have later := ih fun d member => inside d (.tail c member)
    obtain ⟨unquoted, within, minus, slash, _⟩ := quiet_spec quiet
    cases quote with
    | none => exact .plain unquoted within (alone_other minus slash _) later
    | some q => exact .quoted (quiet_ne_quote quiet (known q rfl)) later

theorem Reworded.clear {s t : List Char} (reworded : Reworded s t) {quote : Option Char}
    (known : IsOpen quote) {last : ScriptScan} (before : Clear (scanFrom quote) s last) :
    Clear (scanFrom quote) t last := by
  induction reworded generalizing quote with
  | nil => exact before
  | @same c s t later ih =>
    cases quote with
    | none =>
      cases (show Clear .code (c :: s) last from before) with
      | plain unquoted inside alone rest =>
        refine .plain unquoted inside ?_ (@ih none isOpen_none rest)
        cases first : t.head? with
        | none => simp [opensComment]
        | some d =>
          rcases later.head first with same | ⟨quiet, _⟩
          · rwa [← same]
          · obtain ⟨_, _, minus, _, star⟩ := quiet_spec quiet
            simp [opensComment, minus, star]
      | quote opens rest =>
        exact .quote opens (@ih (some c) (fun q same => by rwa [← Option.some.inj same]) rest)
    | some q =>
      cases (show Clear (.quoted q) (c :: s) last from before) with
      | quoted inside rest => exact .quoted inside (@ih (some q) known rest)
      | close opens rest => exact .close opens (@ih none isOpen_none rest)
  | other taken put later ih =>
    exact clear_quiet known put.inside (ih known (before.behind_plain (quiet_plain taken)))

theorem Reworded.isCalm {s t : List Char} (reworded : Reworded s t) (calm : Calm s) : Calm t :=
  @Reworded.clear s t reworded none isOpen_none _ calm

/-! Names in the quotes of the target. -/

section Requoting

variable {source target : Char}

/-- In the quotes of the target stand neither apostrophes nor quotes of the source. The quote that is
open comes before the text. -/
def apartFrom (source target : Char) : Option Char → List Char → Bool
  | _, [] => true
  | some q, c :: rest => (q != target || c != '\x27' && c != source)
    && apartFrom source target (if c = q then none else some q) rest
  | none, c :: rest => apartFrom source target (if isQuote c then some c else none) rest

theorem apart_append (quote : Option Char) (s t : List Char) :
    apartFrom source target quote (s ++ t)
      = (apartFrom source target quote s
        && apartFrom source target (Nesting.quoteBehind quote s) t) := by
  induction s generalizing quote with
  | nil => cases quote <;> simp [apartFrom, Nesting.quoteBehind]
  | cons c s ih => cases quote <;> simp [apartFrom, Nesting.quoteBehind, ih, Bool.and_assoc]

theorem apart_quiet (known : isQuote source = true) {quote : Option Char} (opened : IsOpen quote)
    {w : List Char} (inside : ∀ c ∈ w, isQuiet c = true) : apartFrom source target quote w = true := by
  induction w with
  | nil => cases quote <;> rfl
  | cons c w ih =>
    have quiet := inside c List.mem_cons_self
    have alone : apartFrom source target quote [c] = true := by
      cases quote <;> simp [apartFrom, quiet_ne_apostrophe quiet, quiet_ne_quote quiet known]
    have same := behind_plain opened (List.forall_mem_singleton.mpr (quiet_spec quiet).1)
    rw [← List.singleton_append, apart_append, alone, same, Bool.true_and]
    exact ih fun d member => inside d (.tail c member)

theorem Reworded.apart (known : isQuote source = true) {s t : List Char} (reworded : Reworded s t)
    {quote : Option Char} (opened : IsOpen quote) (before : apartFrom source target quote s = true) :
    apartFrom source target quote t = true := by
  induction reworded generalizing quote with
  | nil => exact before
  | @same c s t later ih =>
    rw [← List.singleton_append, apart_append, Bool.and_eq_true] at before ⊢
    exact ⟨before.1, ih (opened.behind [c]) before.2⟩
  | other taken put later ih =>
    rw [apart_append, behind_plain opened (quiet_plain taken), Bool.and_eq_true] at before
    rw [apart_append, behind_plain opened (quiet_plain put.inside), Bool.and_eq_true]
    exact ⟨apart_quiet known opened put.inside, ih opened before.2⟩

theorem apart_double (known : isQuote target = true) (others : target ≠ '\x27' ∧ target ≠ source)
    {body : List Char} (apart : apartFrom source target (some target) (double target body) = true) :
    ∀ c ∈ double target body, c ≠ '\x27' ∧ c ≠ source := by
  induction body with
  | nil => simp [double]
  | cons c body ih =>
    by_cases same : c = target
    · subst same
      simp only [double, apartFrom, if_true, known, Bool.and_eq_true] at apart ⊢
      simp only [List.mem_cons, forall_eq_or_imp]
      exact ⟨others, others, ih apart.2⟩
    · simp only [double, if_neg same, apartFrom, bne_self_eq_false, Bool.false_or, Bool.and_eq_true,
        bne_iff_ne] at apart ⊢
      simp only [List.mem_cons, forall_eq_or_imp]
      exact ⟨apart.1, ih apart.2⟩

section Spans

variable {u : List Char} (plain : ∀ c ∈ u, isQuote c = false) {q : Char} (known : isQuote q = true)
  {body rest : List Char}
include plain known

theorem calm_around (calm : Calm (u ++ (enclose q body ++ rest))) : Calm u ∧ Calm rest := by
  obtain ⟨front, later⟩ := Clear.split calm (behind_plain isOpen_none plain)
  exact ⟨front, (Clear.split later (kept_enclose known body).isCalm.closed).2⟩

theorem apart_around (apart : apartFrom source target none (u ++ (enclose q body ++ rest)) = true) :
    apartFrom source target (some q) (double q body) = true
      ∧ apartFrom source target none rest = true := by
  have shut := (kept_enclose known body).isCalm.closed
  rw [apart_append, behind_plain isOpen_none plain, apart_append, shut, Bool.and_eq_true,
    Bool.and_eq_true] at apart
  obtain ⟨_, name, later⟩ := apart
  rw [enclose, apartFrom, if_pos known, apart_append, Bool.and_eq_true] at name
  exact ⟨name.1, later⟩

end Spans

theorem calm_span {u : List Char} (front : Calm u) {q : Char} (known : isQuote q = true)
    (body : List Char) {rest : List Char} (later : Calm rest) : Calm (u ++ (enclose q body ++ rest)) := by
  refine front.join ((kept_enclose known body).before later) ?_
  rw [enclose, List.cons_append, List.head?_cons]
  constructor <;> (intro same; cases same; cases known)

/-- Requoting keeps a calm text calm, if no name in the quotes of the target holds a quote of the
source or an apostrophe. -/
theorem requote_calm (kinds : ∀ c, isQuote c = true ↔ c = '\x27' ∨ c = source ∨ c = target)
    (other : source ≠ '\x27') (others : target ≠ '\x27' ∧ target ≠ source) {s : List Char}
    (calm : Calm s) (apart : apartFrom source target none s = true) :
    Calm (requote source target s).1 := by
  have unquoted : ∀ {u : List Char}, (∀ c ∈ u, isQuote c = false) →
      ∀ c ∈ u, opensSpan source c = false := by
    intro u plain c member
    have neither : ¬ (c = '\x27' ∨ c = source ∨ c = target) := fun found => by
      have opens := plain c member
      rw [(kinds c).mpr found] at opens
      cases opens
    exact opensSpan_eq_false.mpr
      ⟨fun same => neither (.inl same), fun same => neither (.inr (.inl same))⟩
  induction s using span_induction isQuote with
  | code u plain =>
    rw [requote_code (unquoted plain)]
    exact calm
  | unclosed u quote body plain opened =>
    have left := calm.closed
    have shut := (kept_enclose opened body).isCalm.closed
    rw [quoteBehind_append, behind_plain isOpen_none plain] at left
    rw [enclose, ← List.cons_append, quoteBehind_append, left, Nesting.quoteBehind, if_pos opened] at shut
    cases shut
  | quoted u quote body rest plain opened closed ih =>
    obtain ⟨front, behind⟩ := calm_around plain opened calm
    obtain ⟨name, apart⟩ := apart_around plain opened apart
    have later := ih behind apart
    -- A literal is copied, a name gets other quotes, and what has them already counts as code.
    rcases (kinds quote).mp opened with rfl | rfl | rfl
    · rw [requote_literal (unquoted plain)]
      exact calm_span front opened body later
    · rw [Text.requote_name other (unquoted plain) body closed]
      exact calm_span front ((kinds target).mpr (.inr (.inr rfl))) body later
    · have inside : ∀ c ∈ enclose quote body, opensSpan source c = false := by
        have each := apart_double opened others name
        intro c member
        rw [enclose, List.mem_cons, List.mem_append, List.mem_singleton] at member
        rcases member with rfl | member | rfl
        · exact opensSpan_eq_false.mpr others
        · exact opensSpan_eq_false.mpr (each c member)
        · exact opensSpan_eq_false.mpr others
      rw [requote_front (unquoted plain), requote_front inside]
      exact calm_span front opened body later

end Requoting

end SqlDialects
