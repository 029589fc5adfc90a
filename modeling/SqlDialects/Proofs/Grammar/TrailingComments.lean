import SqlDialects.Proofs.Grammar.Bodies

/-
Separators behind a query. A query is read to the end of its text, so a semicolon behind it is read
too and spoils it. The one place for a semicolon is a line comment at the end of the text, which goes
on through what is put behind it for as long as that holds no line end.
-/
namespace SqlDialects

open Reader Text Nesting

/-! Induction from the end of a query's text to its front, lexeme by lexeme. -/

theorem of_skipGapsWithin {good : List Char → Prop}
    (gap : ∀ {s r}, afterGap s = some r → good r → good s) (bound : List Char) {s : List Char}
    (behind : good (skipGapsWithin bound s)) : good s := by
  induction bound generalizing s with
  | nil => exact behind
  | cons c bound ih =>
    rw [skipGapsWithin] at behind
    split at behind
    · next r passed => exact gap passed (ih behind)
    · exact behind

/-- What holds of the empty text and is kept by whatever can stand in front of the rest of a query
holds of every query's text. -/
theorem query_induction {good : List Char → Prop} (nil : good [])
    (gap : ∀ {s r}, afterGap s = some r → good r → good s)
    (plain : ∀ {c s}, isQuote c = false → c ≠ ';' → afterGap (c :: s) = none → good s → good (c :: s))
    (quoted : ∀ {q body s}, isQuote q = true → good s → good (enclose q body ++ s))
    {select : Select} {s : List Char} (spelled : QueryText select s) : good s := by
  by_contra bad
  -- read forwards, a text that is not good stays so until its end
  have respacing : Respacing fun s w => w = s ∧ ¬ good s :=
    { gap := by
        rintro s _ ⟨rfl, bad⟩
        exact ⟨rfl, fun behind => bad (of_skipGapsWithin gap _ behind)⟩
      ended := fun ⟨same, _⟩ _ => same
      begins := by
        rintro s _ ⟨rfl, _⟩
        exact .inl rfl
      next := by
        rintro c s _ ⟨rfl, bad⟩ solid
        obtain ⟨unquoted, apart⟩ := solid_spec solid
        have other : c ≠ ';' := by
          rintro rfl
          cases solid
        exact ⟨s, rfl, rfl, fun later => bad (plain unquoted other (solid_of_head s apart) later)⟩
      sign := by
        rintro c s _ ⟨rfl, bad⟩ sign solid _
        have unquoted : isQuote c = false ∧ c ≠ ';' := by rcases sign with rfl | rfl <;> decide
        exact ⟨s, rfl, rfl, fun later => bad (plain unquoted.1 unquoted.2 solid later)⟩
      quoted := by
        rintro q body s _ ⟨rfl, bad⟩ known
        exact ⟨s, rfl, rfl, fun later => bad (quoted known later)⟩ }
  exact (respacing.query_ends spelled ⟨rfl, bad⟩).2 nil

/-! Texts that end in a line comment. -/

def OneLine (s : List Char) : Prop := ∀ c ∈ s, (c != '\r' && c != '\n') = true

inductive EndsInComment : Option Char → List Char → Prop
  | comment {s : List Char} (line : OneLine s) : EndsInComment none ('-' :: '-' :: s)
  | gap {s r : List Char} (passed : afterGap s = some r) (later : EndsInComment none r) :
      EndsInComment none s
  | plain {c : Char} {s : List Char} (unquoted : isQuote c = false) (solid : afterGap (c :: s) = none)
      (later : EndsInComment none s) : EndsInComment none (c :: s)
  | opening {q : Char} {s : List Char} (known : isQuote q = true)
      (later : EndsInComment (some q) s) : EndsInComment none (q :: s)
  | inside {q c : Char} {s : List Char} (other : c ≠ q) (later : EndsInComment (some q) s) :
      EndsInComment (some q) (c :: s)
  | closing {q : Char} {s : List Char} (later : EndsInComment none s) :
      EndsInComment (some q) (q :: s)

/-- A line comment goes on up to a line feed, alone or behind a carriage return, or to the end. -/
theorem afterLineComment_iff {s r : List Char} : afterLineComment s = some r
    ↔ ∃ h, s = h ++ r ∧ OneLine h ∧ (r = [] ∨ r.head? = some '\n' ∨ ∃ t, r = '\r' :: '\n' :: t) := by
  constructor
  · intro passed
    have split := (List.takeWhile_append_dropWhile (p := fun c => c != '\r' && c != '\n') (l := s)).symm
    have inside : OneLine (s.takeWhile fun c => c != '\r' && c != '\n') := fun c member =>
      List.mem_takeWhile_imp (p := fun c => c != '\r' && c != '\n') member
    have ended := dropWhile_ended (fun c => c != '\r' && c != '\n') s
    simp only [afterLineComment] at passed
    split at passed
    · next t found =>
      cases passed
      rw [found] at split
      exact ⟨_, split, inside, .inr (.inr ⟨t, rfl⟩)⟩
    · cases passed
    · next alone =>
      rw [Option.some.inj passed] at split ended alone
      refine ⟨_, split, inside, ?_⟩
      cases r with
      | nil => exact .inl rfl
      | cons c t =>
        have feed : c = '\r' ∨ c = '\n' := by simpa [imp_iff_not_or] using ended c rfl
        rcases feed with rfl | rfl
        · exact absurd rfl (alone t)
        · exact .inr (.inl rfl)
  · rintro ⟨h, rfl, inside, ends⟩
    have stopped : (h ++ r).dropWhile (fun c => c != '\r' && c != '\n') = r := by
      refine dropWhile_upTo inside fun c first => ?_
      rcases ends with rfl | feed | ⟨t, rfl⟩
      · cases first
      · cases first.symm.trans feed
        rfl
      · cases first
        rfl
    rw [afterLineComment, stopped]
    rcases ends with rfl | feed | ⟨t, rfl⟩
    · rfl
    · obtain ⟨t, rfl⟩ := List.head?_eq_some_iff.mp feed
      rfl
    · rfl

theorem afterLineComment_oneLine {s : List Char} (line : OneLine s) : afterLineComment s = some [] :=
  afterLineComment_iff.mpr ⟨s, by simp, line, .inl rfl⟩

theorem afterLineComment_nil {s : List Char} (ended : afterLineComment s = some []) : OneLine s := by
  obtain ⟨h, rfl, line, _⟩ := afterLineComment_iff.mp ended
  rwa [List.append_nil]

namespace EndsInComment

variable {c q : Char} {s r : List Char} {state : Option Char}

theorem dash (ends : EndsInComment state s) : '-' ∈ s := by
  induction ends with
  | comment line => exact List.mem_cons_self
  | gap passed later ih =>
    obtain ⟨g, _, rfl⟩ := afterGap_shorter _ _ passed
    exact List.mem_append_right _ ih
  | plain unquoted solid later ih => exact .tail _ ih
  | opening known later ih => exact .tail _ ih
  | inside other later ih => exact .tail _ ih
  | closing later ih => exact .tail _ ih

theorem of_plain (ends : EndsInComment none (c :: s)) (solid : afterGap (c :: s) = none)
    (unquoted : isQuote c = false) : EndsInComment none s := by
  cases ends with
  | comment line =>
    have passed : afterGap ('-' :: '-' :: _) = some [] := afterLineComment_oneLine line
    rw [solid] at passed
    cases passed
  | gap passed later =>
    rw [solid] at passed
    cases passed
  | plain _ _ later => exact later
  | opening known later =>
    rw [unquoted] at known
    cases known

theorem of_opening (known : isQuote q = true) (ends : EndsInComment none (q :: s)) :
    EndsInComment (some q) s := by
  cases ends with
  | comment line => cases known
  | gap passed later =>
    rw [solid_quote known] at passed
    cases passed
  | plain unquoted _ later =>
    rw [known] at unquoted
    cases unquoted
  | opening _ later => exact later

theorem closing_iff : EndsInComment (some q) (q :: s) ↔ EndsInComment none s := by
  refine ⟨fun ends => ?_, .closing⟩
  cases ends with
  | inside other later => exact absurd rfl other
  | closing later => exact later

theorem inside_iff (other : c ≠ q) : EndsInComment (some q) (c :: s) ↔ EndsInComment (some q) s := by
  refine ⟨fun ends => ?_, .inside other⟩
  cases ends with
  | inside _ later => exact later
  | closing later => exact absurd rfl other

theorem enclosed_iff (known : isQuote q = true) (body : List Char) :
    EndsInComment none (enclose q body ++ s) ↔ EndsInComment none s := by
  have inner : EndsInComment (some q) (double q body ++ q :: s) ↔ EndsInComment none s := by
    induction body with
    | nil => exact closing_iff
    | cons c body ih =>
      by_cases quote : c = q
      · subst quote
        rw [double, if_pos rfl, List.cons_append, List.cons_append, closing_iff]
        exact ⟨fun ends => ih.mp (ends.of_opening known), fun ends => .opening known (ih.mpr ends)⟩
      · rw [double, if_neg quote, List.cons_append, inside_iff quote, ih]
  rw [enclose_append, ← inner]
  exact ⟨of_opening known, .opening known⟩

end EndsInComment

/-! What is put behind a text, seen from the gap in front of it. -/

theorem afterGap_cases {s r : List Char} (passed : afterGap s = some r) :
    (∃ c ∈ gapBlanks, s = c :: r) ∨ (∃ x, s = '-' :: '-' :: x ∧ afterLineComment x = some r)
      ∨ ∃ x, s = '/' :: '*' :: x ∧ afterBlockComment x = some r := by
  unfold afterGap at passed
  split at passed
  · exact .inl ⟨' ', by decide, by rw [Option.some.inj passed]⟩
  · exact .inl ⟨'\t', by decide, by rw [Option.some.inj passed]⟩
  · exact .inl ⟨'\r', by decide, by rw [Option.some.inj passed]⟩
  · exact .inl ⟨'\n', by decide, by rw [Option.some.inj passed]⟩
  · exact .inr (.inl ⟨_, rfl, passed⟩)
  · exact .inr (.inr ⟨_, rfl, passed⟩)
  · cases passed

theorem afterBlockComment_split {s r : List Char} (passed : afterBlockComment s = some r) :
    ∃ g, s = g ++ '*' :: '/' :: r
      ∧ ∀ other, afterBlockComment (g ++ '*' :: '/' :: other) = some other := by
  fun_induction afterBlockComment s with
  | case1 rest =>
    cases passed
    exact ⟨[], rfl, fun other => rfl⟩
  | case2 c rest unclosing ih =>
    obtain ⟨g, rfl, again⟩ := ih passed
    refine ⟨c :: g, rfl, fun other => ?_⟩
    rw [List.cons_append, afterBlockComment.eq_2 _ _ ?_, again]
    rintro t rfl split
    cases g with
    | nil => cases split
    | cons d g =>
      cases split
      exact unclosing _ rfl rfl
  | case3 => cases passed

theorem afterBlockComment_append {left : List Char} (absent : '/' ∉ left) (s : List Char) :
    afterBlockComment (s ++ left) = (afterBlockComment s).map (· ++ left) := by
  have unclosed : ∀ t, '/' ∉ t → afterBlockComment t = none := by
    intro t absent
    cases found : afterBlockComment t with
    | none => rfl
    | some r =>
      obtain ⟨g, rfl, _⟩ := afterBlockComment_split found
      simp at absent
  fun_induction afterBlockComment s with
  | case1 rest => rfl
  | case2 c rest unclosing ih =>
    rw [List.cons_append, afterBlockComment.eq_2 _ _ ?_, ih]
    rintro r rfl split
    cases rest with
    | nil => exact absent (by simp [show left = '/' :: r from split])
    | cons d rest =>
      obtain ⟨rfl, rfl⟩ := List.cons.inj split
      exact unclosing rest rfl rfl
  | case3 => exact unclosed left absent

theorem afterLineComment_append {left : List Char} (line : OneLine left) (s : List Char) :
    afterLineComment (s ++ left) = (afterLineComment s).map (· ++ left) ∨ OneLine s := by
  simp only [afterLineComment, List.dropWhile_append]
  cases stopped : s.dropWhile (fun c => c != '\r' && c != '\n') with
  | nil => exact .inr (List.dropWhile_eq_nil_iff.mp stopped)
  | cons c r =>
    left
    have ended := dropWhile_ended (fun c => c != '\r' && c != '\n') s c (by rw [stopped]; rfl)
    have lineEnd : c = '\r' ∨ c = '\n' := by
      simpa [imp_iff_not_or] using ended
    simp only [List.isEmpty_cons, Bool.false_eq_true, ↓reduceIte]
    rcases lineEnd with rfl | rfl
    · -- a carriage return at the end of the text gets no line feed behind it
      have alone : ∀ d t, left = d :: t → d ≠ '\n' := by
        rintro d t rfl rfl
        exact absurd (line '\n' List.mem_cons_self) (by decide)
      cases r with
      | nil =>
        cases left with
        | nil => rfl
        | cons d t => simp [alone d t rfl]
      | cons d r =>
        by_cases feed : d = '\n'
        · subst feed
          rfl
        · simp [feed]
    · rfl

theorem afterGap_append {left : List Char} (trail : IsTrail left) (line : OneLine left) {s : List Char}
    (full : s ≠ []) : afterGap (s ++ left) = (afterGap s).map (· ++ left)
      ∨ ∃ x, s = '-' :: '-' :: x ∧ OneLine x := by
  cases s with
  | nil => exact absurd rfl full
  | cons c s =>
    by_cases blank : c ∈ gapBlanks
    · left
      simp only [gapBlanks, List.mem_cons, List.not_mem_nil, or_false] at blank
      rcases blank with rfl | rfl | rfl | rfl <;> rfl
    · cases opens : opensComment c s.head? with
      | false =>
        rw [solid_plain blank opens, List.cons_append, solid_plain blank (alone_before trail.alone opens)]
        exact .inl rfl
      | true =>
        simp only [opensComment, Bool.or_eq_true, Bool.and_eq_true, beq_iff_eq] at opens
        rcases opens with ⟨rfl, second⟩ | ⟨rfl, second⟩
        · obtain ⟨x, rfl⟩ := List.head?_eq_some_iff.mp second
          rcases afterLineComment_append line x with same | whole
          · exact .inl same
          · exact .inr ⟨x, rfl, whole⟩
        · obtain ⟨x, rfl⟩ := List.head?_eq_some_iff.mp second
          exact .inl (afterBlockComment_append (trail.apart (by decide) (by decide)) x)

theorem split_before {p x w left : List Char} {d : Char} (absent : d ∉ left)
    (same : p ++ d :: x = w ++ left) : ∃ v, w = p ++ d :: v ∧ x = v ++ left := by
  rcases List.append_eq_append_iff.mp same with ⟨v, longer, joined⟩ | ⟨v, _, joined⟩
  · cases v with
    | nil => exact absurd (by simp [show left = d :: x from joined.symm]) absent
    | cons e v =>
      obtain ⟨rfl, rfl⟩ := List.cons.inj joined
      exact ⟨v, longer, rfl⟩
  · exact absurd (by simp [joined]) absent

def Hides (left s w : List Char) : Prop := EndsInComment none s ∧ w = s ++ left ∨ s = [] ∧ w = []

theorem Hides.head {left s w : List Char} (hidden : Hides left s w) : w.head? = s.head? := by
  rcases hidden with ⟨ends, rfl⟩ | ⟨rfl, rfl⟩
  · cases s with
    | nil => cases ends.dash
    | cons c s => rfl
  · rfl

theorem EndsInComment.uncons {c : Char} {left s w : List Char} {state : Option Char}
    (ends : EndsInComment state w) (same : c :: s = w ++ left) : ∃ v, w = c :: v ∧ s = v ++ left := by
  cases w with
  | nil => cases ends.dash
  | cons d w =>
    obtain ⟨rfl, rfl⟩ := List.cons.inj same
    exact ⟨w, rfl, rfl⟩

section Behind

variable {left : List Char} (trail : IsTrail left)
include trail

/-- The comment at the end of a text with separators behind it begins in the text, and it holds the
separators. -/
theorem EndsInComment.front {state : Option Char} {t s : List Char} (ends : EndsInComment state t)
    (split : t = s ++ left) : EndsInComment state s ∧ OneLine left := by
  have apart : '-' ∉ left := trail.apart (by decide) (by decide)
  -- the first character is not among the separators: the comment begins behind it
  have first : ∀ {c : Char} {t s : List Char} {state : Option Char}, EndsInComment state t →
      c :: t = s ++ left → ∃ s', s = c :: s' ∧ t = s' ++ left := by
    intro c t s state later split
    cases s with
    | nil =>
      have whole : c :: t = left := split
      exact absurd (whole ▸ List.mem_cons_of_mem c later.dash) apart
    | cons d s =>
      obtain ⟨rfl, rfl⟩ := List.cons.inj split
      exact ⟨s, rfl, rfl⟩
  induction ends generalizing s with
  | @comment x line =>
    obtain ⟨v, rfl, rfl⟩ := split_before (p := ['-']) apart split
    exact ⟨.comment fun c member => line c (List.mem_append_left _ member),
      fun c member => line c (List.mem_append_right _ member)⟩
  | @gap t r passed later ih =>
    obtain ⟨g, _, joined⟩ := afterGap_shorter _ _ passed
    obtain ⟨m, n, inner⟩ := List.append_of_mem later.dash
    have whole : (g ++ m) ++ '-' :: n = s ++ left := by
      rw [← split, joined, inner, List.append_assoc]
    obtain ⟨v, front, rfl⟩ := split_before apart whole
    obtain ⟨found, line⟩ := @ih (m ++ '-' :: v) (by rw [inner]; simp)
    refine ⟨?_, line⟩
    rcases afterGap_append trail line (s := s) (by simp [front]) with same | ⟨x, comment, alone⟩
    · rw [← split, passed] at same
      obtain ⟨r', passed', joined'⟩ := Option.map_eq_some_iff.mp same.symm
      have behind : r' = m ++ '-' :: v := by
        rw [inner] at joined'
        exact List.append_cancel_right (joined'.trans (by simp))
      rw [behind] at passed'
      exact .gap passed' found
    · rw [comment]
      exact .comment alone
  | plain unquoted solid later ih =>
    obtain ⟨s', rfl, rfl⟩ := first later split
    obtain ⟨found, line⟩ := ih rfl
    refine ⟨?_, line⟩
    rcases afterGap_append trail line (s := _ :: s') (by simp) with same | ⟨x, comment, alone⟩
    · rw [List.cons_append, solid] at same
      exact .plain unquoted (Option.map_eq_none_iff.mp same.symm) found
    · rw [comment]
      exact .comment alone
  | opening known later ih =>
    obtain ⟨s', rfl, rfl⟩ := first later split
    exact ⟨.opening known (ih rfl).1, (ih rfl).2⟩
  | inside other later ih =>
    obtain ⟨s', rfl, rfl⟩ := first later split
    exact ⟨.inside other (ih rfl).1, (ih rfl).2⟩
  | closing later ih =>
    obtain ⟨s', rfl, rfl⟩ := first later split
    exact ⟨.closing (ih rfl).1, (ih rfl).2⟩

variable (line : OneLine left)
include line

theorem solid_append {s : List Char} (full : s ≠ []) (solid : afterGap s = none) :
    afterGap (s ++ left) = none := by
  rcases afterGap_append trail line full with same | ⟨x, rfl, alone⟩
  · rw [same, solid]
    rfl
  · have passed : afterGap ('-' :: '-' :: x) = some [] := afterLineComment_oneLine alone
    rw [solid] at passed
    cases passed

theorem EndsInComment.skip {state : Option Char} {s : List Char} (ends : EndsInComment state s)
    (code : state = none) : Hides left (skipGaps s) (skipGaps (s ++ left)) := by
  induction ends with
  | @comment x alone =>
    have passed : afterGap ('-' :: '-' :: x) = some [] := afterLineComment_oneLine alone
    have longer : afterGap ('-' :: '-' :: (x ++ left)) = some [] :=
      afterLineComment_oneLine (List.forall_mem_append.mpr ⟨alone, line⟩)
    rw [List.cons_append, List.cons_append, skipGaps_of_some _ _ passed, skipGaps_of_some _ _ longer]
    exact .inr ⟨rfl, rfl⟩
  | @gap s r passed later ih =>
    have full : s ≠ [] := by
      rintro rfl
      cases passed
    rcases afterGap_append trail line full with same | ⟨x, rfl, alone⟩
    · rw [passed] at same
      rw [skipGaps_of_some _ _ passed, skipGaps_of_some _ _ same]
      exact ih rfl
    · have ended : some [] = some r := (afterLineComment_oneLine alone).symm.trans passed
      cases ended
      cases later.dash
  | plain unquoted solid later ih =>
    rw [skipGaps_of_none _ solid, skipGaps_of_none _ (solid_append trail line (by simp) solid)]
    exact .inl ⟨.plain unquoted solid later, rfl⟩
  | opening known later ih =>
    have solid := solid_quote known
    rw [skipGaps_of_none _ (solid _), List.cons_append, skipGaps_of_none _ (solid _)]
    exact .inl ⟨.opening known later, rfl⟩
  | inside => cases code
  | closing => cases code

theorem hides_respacing : Respacing (Hides left) where
  gap := by
    rintro s _ (⟨ends, rfl⟩ | ⟨rfl, rfl⟩)
    · exact ends.skip trail line rfl
    · exact .inr ⟨rfl, rfl⟩
  ended := by
    rintro w (⟨ends, _⟩ | ⟨_, same⟩) _
    · cases ends.dash
    · exact same
  begins hidden := .inl hidden.head
  next := by
    rintro c s _ (⟨ends, rfl⟩ | ⟨same, _⟩) solid
    · obtain ⟨unquoted, apart⟩ := solid_spec solid
      exact ⟨s ++ left, rfl, .inl ⟨ends.of_plain (solid_of_head s apart) unquoted, rfl⟩⟩
    · cases same
  sign := by
    rintro c s _ (⟨ends, rfl⟩ | ⟨same, _⟩) sign solid _
    · have unquoted : isQuote c = false := by rcases sign with rfl | rfl <;> rfl
      exact ⟨s ++ left, rfl, .inl ⟨ends.of_plain solid unquoted, rfl⟩⟩
    · cases same
  quoted := by
    rintro q body s _ (⟨ends, rfl⟩ | ⟨same, _⟩) known
    · exact ⟨s ++ left, by simp, .inl ⟨(EndsInComment.enclosed_iff known body).mp ends, rfl⟩⟩
    · cases same

theorem shows_respacing : Respacing (flip (Hides left)) where
  gap := by
    rintro _ s (⟨ends, rfl⟩ | ⟨rfl, rfl⟩)
    · exact ends.skip trail line rfl
    · exact .inr ⟨rfl, rfl⟩
  ended := by
    rintro w (⟨ends, same⟩ | ⟨same, _⟩) _
    · exact (List.append_eq_nil_iff.mp same.symm).1
    · exact same
  begins hidden := .inl (Hides.head hidden).symm
  next := by
    rintro c s w (⟨ends, same⟩ | ⟨_, same⟩) solid
    · obtain ⟨w, rfl, rfl⟩ := ends.uncons same
      obtain ⟨unquoted, apart⟩ := solid_spec solid
      exact ⟨w, rfl, .inl ⟨ends.of_plain (solid_of_head w apart) unquoted, rfl⟩⟩
    · cases same
  sign := by
    rintro c s w (⟨ends, same⟩ | ⟨_, same⟩) sign _ solid
    · obtain ⟨w, rfl, rfl⟩ := ends.uncons same
      have unquoted : isQuote c = false := by rcases sign with rfl | rfl <;> rfl
      exact ⟨w, rfl, .inl ⟨ends.of_plain solid unquoted, rfl⟩⟩
    · cases same
  quoted := by
    rintro q body s w (⟨ends, same⟩ | ⟨_, same⟩) known
    · have solid : isBlank q = false ∧ q ≠ ';' := by
        simp only [isQuote, Bool.or_eq_true, beq_iff_eq] at known
        rcases known with (rfl | rfl) | rfl <;> decide
      have split : (q :: double q body) ++ q :: s = w ++ left := (enclose_append q body s).symm.trans same
      obtain ⟨v, front, rfl⟩ := split_before (trail.apart solid.2 solid.1) split
      have whole : w = enclose q body ++ v := front.trans (enclose_append q body v).symm
      rw [whole, EndsInComment.enclosed_iff known] at ends
      exact ⟨v, whole, .inl ⟨ends, rfl⟩⟩
    · cases same

end Behind

theorem last_behind {p s : List Char} {c : Char} (other : c ≠ ';')
    (last : (p ++ c :: s).getLast? = some ';') : s.getLast? = some ';' := by
  rw [List.getLast?_append_of_ne_nil _ (List.cons_ne_nil c s)] at last
  cases s with
  | nil => exact absurd (Option.some.inj last) other
  | cons d s => rwa [List.getLast?_cons_cons] at last

theorem query_semicolon {select : Select} {s : List Char} (spelled : QueryText select s)
    (last : s.getLast? = some ';') : EndsInComment none s := by
  refine @query_induction (fun s => s.getLast? = some ';' → EndsInComment none s)
    ?nil ?gap ?plain ?quoted select s spelled last
  case nil => exact nofun
  case gap =>
    intro s r passed later last
    rcases afterGap_cases passed with ⟨c, blank, rfl⟩ | ⟨x, rfl, ended⟩ | ⟨x, rfl, closed⟩
    · refine .gap passed (later (@last_behind [] r c ?_ last))
      rintro rfl
      revert blank
      decide
    · cases r with
      | nil => exact .comment (afterLineComment_nil ended)
      | cons d r =>
        obtain ⟨g, rfl⟩ := afterLineComment_shorter _ _ ended
        refine .gap passed (later ?_)
        rwa [← List.cons_append, ← List.cons_append,
          List.getLast?_append_of_ne_nil _ (List.cons_ne_nil d r)] at last
    · obtain ⟨g, rfl, _⟩ := afterBlockComment_split closed
      refine .gap passed (later (@last_behind ('/' :: '*' :: g ++ ['*']) r '/' (by decide) ?_))
      simpa using last
  case plain =>
    intro c s unquoted other solid later last
    exact .plain unquoted solid (later (@last_behind [] s c other last))
  case quoted =>
    intro q body s known later last
    refine (EndsInComment.enclosed_iff known body).mpr
      (later (@last_behind (q :: double q body) s q ?_ ?_))
    · rintro rfl
      cases known
    · rwa [enclose_append] at last

/-- A query with separators behind it is read where, and only where, a comment at its end holds them. -/
theorem query_separators_iff {left : List Char} (trail : IsTrail left) (last : left.getLast? = some ';')
    {select : Select} {s : List Char} : query (s ++ left) = .ok (select, [])
      ↔ query s = .ok (select, []) ∧ EndsInComment none s ∧ OneLine left := by
  constructor
  · intro read
    have spelled := (query_sound read).1
    have ends := query_semicolon spelled (by rw [List.getLast?_append, last]; rfl)
    obtain ⟨ends, line⟩ := ends.front trail rfl
    exact ⟨query_complete ((shows_respacing trail line).query spelled (.inl ⟨ends, rfl⟩)), ends, line⟩
  · rintro ⟨read, ends, line⟩
    exact query_complete ((hides_respacing trail line).query (query_sound read).1 (.inl ⟨ends, rfl⟩))

end SqlDialects
