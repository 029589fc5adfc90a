import SqlDialects.Proofs.Grammar.RespacedTables
import SqlDialects.Proofs.Grammar.Script

/-
Texts without their comments. A script that is cut into statements loses its comments: a block
comment for a blank, a line comment up to its line feed. As long as every comment ends where readers
see it end, this changes nothing but gaps.
-/
namespace SqlDialects

open Reader Text Nesting

namespace ScriptScan

/-- Every block comment is closed, and a carriage return in a line comment stands before the line
feed. -/
def tidy : ScriptScan → List Char → Bool
  | .blockComment _, [] => false
  | _, [] => true
  | .quoted q, c :: rest => tidy (if c = q then .code else .quoted q) rest
  | .lineComment, c :: rest =>
    if c = '\n' then tidy .code rest
    else (c != '\r' || rest.head? == some '\n') && tidy .lineComment rest
  | .blockComment star, c :: rest =>
    if star && c = '/' then tidy .code rest else tidy (.blockComment (c = '*')) rest
  | .code, '-' :: '-' :: rest => tidy .lineComment rest
  | .code, '/' :: '*' :: rest => tidy (.blockComment false) rest
  | .code, c :: rest => if isQuote c then tidy (.quoted c) rest else tidy .code rest

end ScriptScan

theorem tidy_code {c : Char} {rest : List Char} (alone : opensComment c rest.head? = false) :
    ScriptScan.code.tidy (c :: rest)
      = if isQuote c then (ScriptScan.quoted c).tidy rest else ScriptScan.code.tidy rest := by
  obtain ⟨line, block⟩ := opensComment_eq_false.mp alone
  rw [ScriptScan.tidy.eq_def]
  split
  · next same => cases same
  · next same _ => cases same
  · next state same => cases state
  · next state same => cases state
  · next state same => cases state
  · next same =>
    cases same
    exact absurd rfl (line rfl)
  · next same =>
    cases same
    exact absurd rfl (block rfl)
  · next same =>
    cases same
    rfl

structure Strips (state : ScriptScan) (s u : List Char) : Prop where
  tidy : state.tidy s = true
  pieces : state.pieces s = [u]

/-! One character or comment at the front. -/

theorem prepend_ne_nil (c : Char) (pieces : List (List Char)) : Text.prepend c pieces ≠ [] := by
  cases pieces <;> simp [Text.prepend]

theorem pieces_ne_nil (state : ScriptScan) (s : List Char) : state.pieces s ≠ [] := by
  fun_induction ScriptScan.pieces state s with
  | case1 => simp
  | case2 | case3 | case8 | case9 | case11 => exact prepend_ne_nil _ _
  | case4 _ _ _ ih | case5 _ _ _ _ ih | case6 _ _ _ _ ih | case7 _ ih => exact ih
  | case10 => simp

theorem prepend_one {c : Char} {pieces : List (List Char)} {u : List Char} (nonempty : pieces ≠ [])
    (one : Text.prepend c pieces = [u]) : ∃ u', u = c :: u' ∧ pieces = [u'] := by
  cases pieces with
  | nil => exact absurd rfl nonempty
  | cons piece pieces =>
    cases one
    exact ⟨piece, rfl, rfl⟩

theorem Strips.plain {c : Char} {s u : List Char} (strips : Strips .code (c :: s) u)
    (unquoted : isQuote c = false) (alone : opensComment c s.head? = false) :
    c ≠ ';' ∧ ∃ u', u = c :: u' ∧ Strips .code s u' := by
  obtain ⟨tidy, pieces⟩ := strips
  rw [tidy_code alone, unquoted] at tidy
  rw [pieces_code alone, unquoted] at pieces
  by_cases separator : c = ';'
  · simp only [separator, Bool.false_eq_true, if_false, if_true] at pieces
    exact absurd (List.cons.inj pieces).2 (pieces_ne_nil _ _)
  · simp only [separator, Bool.false_eq_true, if_false] at pieces
    obtain ⟨u', rfl, one⟩ := prepend_one (pieces_ne_nil _ _) pieces
    exact ⟨separator, u', rfl, tidy, one⟩

theorem Strips.quote {q : Char} {s u : List Char} (strips : Strips .code (q :: s) u)
    (known : isQuote q = true) : ∃ u', u = q :: u' ∧ Strips (.quoted q) s u' := by
  obtain ⟨tidy, pieces⟩ := strips
  rw [tidy_code (alone_quote known _), known] at tidy
  rw [pieces_code (alone_quote known _), known] at pieces
  obtain ⟨u', rfl, one⟩ := prepend_one (pieces_ne_nil _ _) pieces
  exact ⟨u', rfl, tidy, one⟩

theorem Strips.inside {q c : Char} {s u : List Char} (strips : Strips (.quoted q) (c :: s) u) :
    ∃ u', u = c :: u' ∧ Strips (if c = q then .code else .quoted q) s u' := by
  obtain ⟨tidy, pieces⟩ := strips
  rw [ScriptScan.tidy] at tidy
  rw [ScriptScan.pieces] at pieces
  obtain ⟨u', rfl, one⟩ := prepend_one (pieces_ne_nil _ _) pieces
  exact ⟨u', rfl, tidy, one⟩

theorem Strips.nil {state : ScriptScan} {u : List Char} (strips : Strips state [] u) : u = [] := by
  have pieces := strips.pieces
  rw [ScriptScan.pieces] at pieces
  exact ((List.cons.inj pieces).1).symm

theorem Strips.lineComment {s u : List Char} (strips : Strips .lineComment s u) :
    (afterLineComment s = some [] ∧ u = [])
      ∨ ∃ r u', (afterLineComment s = some ('\n' :: r) ∨ afterLineComment s = some ('\r' :: '\n' :: r))
        ∧ u = '\n' :: u' ∧ Strips .code r u' := by
  induction s with
  | nil => exact .inl ⟨rfl, strips.nil⟩
  | cons c s ih =>
    obtain ⟨tidy, pieces⟩ := strips
    rw [ScriptScan.tidy] at tidy
    rw [ScriptScan.pieces] at pieces
    by_cases feed : c = '\n'
    · subst feed
      rw [if_pos rfl] at tidy pieces
      obtain ⟨u', rfl, one⟩ := prepend_one (pieces_ne_nil _ _) pieces
      exact .inr ⟨s, u', .inl rfl, rfl, tidy, one⟩
    · rw [if_neg feed] at tidy pieces
      simp only [Bool.and_eq_true, Bool.or_eq_true, bne_iff_ne, ne_eq, beq_iff_eq] at tidy
      by_cases carriage : c = '\r'
      · subst carriage
        obtain ⟨r, rfl⟩ := List.head?_eq_some_iff.mp (tidy.1.resolve_left fun other => other rfl)
        have later := tidy.2
        rw [ScriptScan.tidy, if_pos rfl] at later
        rw [ScriptScan.pieces, if_pos rfl] at pieces
        obtain ⟨u', rfl, one⟩ := prepend_one (pieces_ne_nil _ _) pieces
        exact .inr ⟨r, u', .inr rfl, rfl, later, one⟩
      · have same : afterLineComment (c :: s) = afterLineComment s := by
          rw [afterLineComment, List.dropWhile_cons_of_pos (by simp [feed, carriage])]
          rfl
        rw [same]
        exact ih ⟨tidy.2, pieces⟩

theorem Strips.blockComment {star : Bool} {s u : List Char}
    (strips : Strips (.blockComment star) s u) :
    ∃ r, afterBlockComment (if star then '*' :: s else s) = some r ∧ Strips .code r u := by
  induction s generalizing star with
  | nil => cases strips.tidy
  | cons c s ih =>
    obtain ⟨tidy, pieces⟩ := strips
    rw [ScriptScan.tidy] at tidy
    rw [ScriptScan.pieces] at pieces
    by_cases closes : star = true ∧ c = '/'
    · obtain ⟨rfl, rfl⟩ := closes
      exact ⟨s, rfl, tidy, pieces⟩
    · have open' : (star && decide (c = '/')) = false := by simpa using closes
      rw [open'] at tidy pieces
      obtain ⟨r, found, later⟩ := ih ⟨tidy, pieces⟩
      refine ⟨r, ?_, later⟩
      have single : afterBlockComment (c :: s) = some r := by
        by_cases asterisk : c = '*'
        · simpa [asterisk] using found
        · rw [afterBlockComment.eq_def]
          split
          · next same => exact absurd (List.cons.inj same).1 asterisk
          · next same =>
            obtain ⟨rfl, rfl⟩ := List.cons.inj same
            simpa [asterisk] using found
          · next same => cases same
      cases star with
      | false => exact single
      | true =>
        have other : c ≠ '/' := fun same => closes ⟨rfl, same⟩
        rw [if_pos rfl, afterBlockComment.eq_def]
        split
        · next same => exact absurd (List.cons.inj (List.cons.inj same).2).1 other
        · next same =>
          obtain ⟨_, rfl⟩ := List.cons.inj same
          exact single
        · next same => cases same

/-! Texts without their comments, and without some of the blanks at their end. -/

def gapBlanks : List Char := [' ', '\t', '\r', '\n']

/-- The second text is the first one without its comments. Blanks at its end may be left out. -/
def Uncommented (s w : List Char) : Prop :=
  ∃ g, (∀ c ∈ g, c ∈ gapBlanks) ∧ Strips .code s (w ++ g)

inductive UncommentedView : List Char → List Char → Prop
  | nil : UncommentedView [] []
  | plain {c : Char} {s w : List Char} (unquoted : isQuote c = false) (inside : c ≠ ';')
      (alone : opensComment c s.head? = false) (later : Uncommented s w) :
      UncommentedView (c :: s) (c :: w)
  | quote {q : Char} {s w g : List Char} (known : isQuote q = true)
      (blank : ∀ c ∈ g, c ∈ gapBlanks) (later : Strips (.quoted q) s (w ++ g)) :
      UncommentedView (q :: s) (q :: w)
  | gap {s w s' w' : List Char} (opens : ∃ r, afterGap s = some r)
      (first : ∃ c ∈ gapMarks, s.head? = some c) (shorter : s'.length < s.length) (same : skipGaps s = skipGaps s')
      (blank : w = [] ∧ w' = [] ∨ ∃ c ∈ gapBlanks, w = c :: w') (later : Uncommented s' w') :
      UncommentedView s w

theorem mem_gapMarks {c : Char} (blank : c ∈ gapBlanks) : c ∈ gapMarks := by
  simp only [gapBlanks, List.mem_cons, List.not_mem_nil, or_false] at blank
  rcases blank with rfl | rfl | rfl | rfl <;> decide

theorem skipGaps_blank {c : Char} (blank : c ∈ gapBlanks) (s : List Char) :
    skipGaps (c :: s) = skipGaps s := by
  refine skipGaps_of_some _ _ ?_
  simp only [gapBlanks, List.mem_cons, List.not_mem_nil, or_false] at blank
  rcases blank with rfl | rfl | rfl | rfl <;> rfl

theorem skipGaps_blanks {m : List Char} (blank : ∀ c ∈ m, c ∈ gapBlanks) (s : List Char) :
    skipGaps (m ++ s) = skipGaps s := by
  induction m with
  | nil => rfl
  | cons c m ih =>
    obtain ⟨first, others⟩ := List.forall_mem_cons.mp blank
    rw [List.cons_append, skipGaps_blank first, ih others]

theorem gap_blanks {g s : List Char} (blank : ∀ c ∈ g, c ∈ gapBlanks) (solid : afterGap s = none) :
    Gap g s :=
  (skipGaps_blanks blank s).trans (skipGaps_of_none s solid)

/-- What is left without a comment either is in the second text or among the blanks left out. -/
theorem uncommented_behind {s w g u : List Char} {c : Char} (blank : ∀ d ∈ g, d ∈ gapBlanks)
    (known : c ∈ gapBlanks) (split : w ++ g = c :: u) (strips : Strips .code s u) :
    ∃ w', (w = [] ∧ w' = [] ∨ ∃ c ∈ gapBlanks, w = c :: w') ∧ Uncommented s w' := by
  cases w with
  | nil =>
    cases g with
    | nil => cases split
    | cons d g =>
      obtain ⟨rfl, rfl⟩ := List.cons.inj split
      exact ⟨[], .inl ⟨rfl, rfl⟩, g, fun e member => blank e (.tail d member), strips⟩
  | cons d w =>
    obtain ⟨rfl, rfl⟩ := List.cons.inj split
    exact ⟨w, .inr ⟨d, known, rfl⟩, g, blank, strips⟩

theorem uncommented_nil : Uncommented [] [] := ⟨[], by simp, rfl, rfl⟩

theorem UncommentedView.blank {c : Char} {s w g u : List Char} (blank : ∀ d ∈ g, d ∈ gapBlanks)
    (known : c ∈ gapBlanks) (split : w ++ g = c :: u) (strips : Strips .code s u) :
    UncommentedView (c :: s) w := by
  obtain ⟨w', shape, later⟩ := uncommented_behind blank known split strips
  have opens : afterGap (c :: s) = some s := by
    simp only [gapBlanks, List.mem_cons, List.not_mem_nil, or_false] at known
    rcases known with rfl | rfl | rfl | rfl <;> rfl
  exact .gap ⟨s, opens⟩ ⟨c, mem_gapMarks known, rfl⟩ (Nat.lt_succ_self _) (skipGaps_blank known s) shape later

theorem UncommentedView.line {s w g : List Char} (blank : ∀ d ∈ g, d ∈ gapBlanks)
    (strips : Strips .lineComment s (w ++ g)) : UncommentedView ('-' :: '-' :: s) w := by
  have first : ∃ c ∈ gapMarks, ('-' :: '-' :: s).head? = some c := ⟨'-', by decide, rfl⟩
  rcases strips.lineComment with ⟨ended, nothing⟩ | ⟨r, u, next, split, later⟩
  · have opens : afterGap ('-' :: '-' :: s) = some [] := ended
    obtain ⟨rfl, rfl⟩ := List.append_eq_nil_iff.mp nothing
    exact .gap ⟨[], opens⟩ first (by simp) (skipGaps_of_some _ _ opens) (.inl ⟨rfl, rfl⟩)
      uncommented_nil
  · obtain ⟨w', shape, behind⟩ := uncommented_behind blank (by decide) split later
    rcases next with next | next
    · have opens : afterGap ('-' :: '-' :: s) = some ('\n' :: r) := next
      obtain ⟨t, rfl⟩ := afterLineComment_shorter _ _ next
      refine .gap ⟨_, opens⟩ first ?_ ?_ shape behind
      · simp
        omega
      · rw [skipGaps_of_some _ _ opens, skipGaps_blank (by decide)]
    · have opens : afterGap ('-' :: '-' :: s) = some ('\r' :: '\n' :: r) := next
      obtain ⟨t, rfl⟩ := afterLineComment_shorter _ _ next
      refine .gap ⟨_, opens⟩ first ?_ ?_ shape behind
      · simp
        omega
      · rw [skipGaps_of_some _ _ opens, skipGaps_blank (by decide), skipGaps_blank (by decide)]

theorem UncommentedView.block {s w g u : List Char} (blank : ∀ d ∈ g, d ∈ gapBlanks)
    (split : w ++ g = ' ' :: u) (strips : Strips (.blockComment false) s u) :
    UncommentedView ('/' :: '*' :: s) w := by
  obtain ⟨r, next, later⟩ := strips.blockComment
  have opens : afterGap ('/' :: '*' :: s) = some r := next
  obtain ⟨w', shape, behind⟩ := uncommented_behind blank (by decide) split later
  obtain ⟨t, joined⟩ := afterBlockComment_shorter _ _ next
  refine .gap ⟨r, opens⟩ ⟨'/', by decide, rfl⟩ ?_ (skipGaps_of_some _ _ opens) shape behind
  have joined : s = t ++ r := joined
  rw [joined]
  simp
  omega

theorem Uncommented.view {s w : List Char} (bare : Uncommented s w) : UncommentedView s w := by
  obtain ⟨g, blank, strips⟩ := bare
  cases s with
  | nil =>
    obtain ⟨rfl, rfl⟩ := List.append_eq_nil_iff.mp strips.nil
    exact .nil
  | cons c s =>
    by_cases known : isQuote c = true
    · obtain ⟨u, split, later⟩ := strips.quote known
      cases w with
      | nil =>
        have member : c ∈ gapBlanks := blank c (by rw [List.nil_append] at split; simp [split])
        exact absurd member (Text.not_mem_of_all known rfl)
      | cons d w =>
        obtain ⟨rfl, rfl⟩ := List.cons.inj split
        exact .quote known blank later
    · have unquoted : isQuote c = false := by simpa using known
      by_cases alone : opensComment c s.head? = false
      · obtain ⟨inside, u, split, later⟩ := strips.plain unquoted alone
        cases w with
        | nil =>
          have member : c ∈ gapBlanks := blank c (by rw [List.nil_append] at split; simp [split])
          exact .blank blank member split later
        | cons d w =>
          obtain ⟨rfl, rfl⟩ := List.cons.inj split
          exact .plain unquoted inside alone ⟨g, blank, later⟩
      · obtain ⟨tidy, pieces⟩ := strips
        have comment : c = '-' ∧ s.head? = some '-' ∨ c = '/' ∧ s.head? = some '*' := by
          rw [Bool.not_eq_false] at alone
          simpa [opensComment] using alone
        rcases comment with ⟨rfl, second⟩ | ⟨rfl, second⟩
        · obtain ⟨s, rfl⟩ := List.head?_eq_some_iff.mp second
          rw [ScriptScan.tidy] at tidy
          rw [ScriptScan.pieces] at pieces
          exact .line blank ⟨tidy, pieces⟩
        · obtain ⟨s, rfl⟩ := List.head?_eq_some_iff.mp second
          rw [ScriptScan.tidy] at tidy
          rw [ScriptScan.pieces] at pieces
          obtain ⟨u, split, one⟩ := prepend_one (pieces_ne_nil _ _) pieces
          exact .block blank split ⟨tidy, one⟩

/-! Gaps and solid texts. -/

/-- What the second text begins with, the first begins with too, unless it is a blank. -/
theorem Uncommented.head {s w : List Char} {c : Char} (bare : Uncommented s w)
    (first : w.head? = some c) (solid : c ∉ gapBlanks) : s.head? = some c := by
  cases bare.view with
  | nil => exact first
  | plain unquoted inside alone later => exact first
  | quote known blank later => exact first
  | gap _ _ _ _ blank _ =>
    rcases blank with ⟨rfl, _⟩ | ⟨d, blank, rfl⟩
    · cases first
    · cases first
      exact absurd blank solid

theorem solid_plain {c : Char} {s : List Char} (blank : c ∉ gapBlanks)
    (alone : opensComment c s.head? = false) : afterGap (c :: s) = none := by
  obtain ⟨line, block⟩ := opensComment_eq_false.mp alone
  simp only [gapBlanks, List.mem_cons, List.not_mem_nil, or_false, not_or] at blank
  unfold afterGap
  split <;> simp_all

theorem solid_quote {q : Char} (known : isQuote q = true) (s : List Char) :
    afterGap (q :: s) = none :=
  solid_of_head s (Text.not_mem_of_all known rfl)

theorem Uncommented.solid {s w : List Char} (bare : Uncommented s w) (solid : afterGap s = none) :
    afterGap w = none := by
  cases bare.view with
  | nil => rfl
  | @plain c s w unquoted inside alone later =>
    have blank : c ∉ gapBlanks := by
      intro blank
      simp only [gapBlanks, List.mem_cons, List.not_mem_nil, or_false] at blank
      rcases blank with rfl | rfl | rfl | rfl <;> cases solid
    obtain ⟨line, block⟩ := opensComment_eq_false.mp alone
    exact solid_plain blank (opensComment_eq_false.mpr
      ⟨fun sign second => line sign (later.head second (by decide)),
        fun sign second => block sign (later.head second (by decide))⟩)
  | quote known blank later => exact solid_quote known _
  | gap opens _ _ _ _ _ =>
    obtain ⟨r, opens⟩ := opens
    rw [opens] at solid
    cases solid

theorem Uncommented.gap {s w : List Char} (bare : Uncommented s w) :
    Uncommented (skipGaps s) (skipGaps w) := by
  induction h : s.length using Nat.strong_induction_on generalizing s w with
  | _ n ih =>
    cases found : afterGap s with
    | none => rwa [skipGaps_of_none s found, skipGaps_of_none w (bare.solid found)]
    | some r =>
      -- one blank or comment less on both sides
      cases bare.view with
      | nil => cases found
      | @plain c s w unquoted inside alone later =>
        have blank : c ∈ gapBlanks := by
          by_contra solid
          rw [solid_plain solid alone] at found
          cases found
        rw [skipGaps_blank blank, skipGaps_blank blank]
        exact ih s.length (by rw [← h]; simp) later rfl
      | quote known blank later =>
        rw [solid_quote known] at found
        cases found
      | @gap _ _ s' w' _ _ shorter same blank later =>
        have kept := ih s'.length (by omega) later rfl
        rw [same]
        rcases blank with ⟨rfl, rfl⟩ | ⟨c, blank, rfl⟩
        · exact kept
        · rwa [skipGaps_blank blank]

/-! Quoted texts. -/

theorem Strips.enclosed {q : Char} {body s u : List Char} (known : isQuote q = true)
    (strips : Strips (.quoted q) (double q body ++ q :: s) u) :
    ∃ u', u = double q body ++ q :: u' ∧ Strips .code s u' := by
  induction body generalizing u with
  | nil =>
    obtain ⟨u', rfl, later⟩ := strips.inside
    rw [if_pos rfl] at later
    exact ⟨u', rfl, later⟩
  | cons c body ih =>
    rw [double] at strips ⊢
    split at strips
    · next same =>
      subst same
      obtain ⟨u', rfl, first⟩ := strips.inside
      rw [if_pos rfl] at first
      obtain ⟨u'', rfl, second⟩ := first.quote known
      obtain ⟨u3, rfl, later⟩ := ih second
      exact ⟨u3, by simp, later⟩
    · next other =>
      obtain ⟨u', rfl, first⟩ := strips.inside
      rw [if_neg other] at first
      obtain ⟨u'', rfl, later⟩ := ih first
      exact ⟨u'', by simp [other], later⟩

theorem Strips.opened {q : Char} {s u : List Char} (known : isQuote q = true)
    (strips : Strips .code s (q :: u)) : ∃ s', s = q :: s' ∧ Strips (.quoted q) s' u := by
  have bare : Uncommented s (q :: u) := ⟨[], by simp, by rwa [List.append_nil]⟩
  obtain ⟨s', rfl⟩ := List.head?_eq_some_iff.mp (bare.head rfl (Text.not_mem_of_all known rfl))
  obtain ⟨u', same, later⟩ := strips.quote known
  cases same
  exact ⟨s', rfl, later⟩

theorem Strips.inside_of {q c : Char} {s u : List Char} (strips : Strips (.quoted q) s (c :: u)) :
    ∃ s', s = c :: s' ∧ Strips (if c = q then .code else .quoted q) s' u := by
  cases s with
  | nil => cases strips.nil
  | cons d s =>
    obtain ⟨u', same, later⟩ := strips.inside
    cases same
    exact ⟨s, rfl, later⟩

theorem Strips.enclosed_of {q : Char} {body s u : List Char} (known : isQuote q = true)
    (strips : Strips (.quoted q) s (double q body ++ q :: u)) :
    ∃ s', s = double q body ++ q :: s' ∧ Strips .code s' u := by
  induction body generalizing s with
  | nil =>
    obtain ⟨s', rfl, later⟩ := strips.inside_of
    rw [if_pos rfl] at later
    exact ⟨s', rfl, later⟩
  | cons c body ih =>
    rw [double] at strips ⊢
    split at strips
    · next same =>
      subst same
      obtain ⟨s', rfl, first⟩ := strips.inside_of
      rw [if_pos rfl] at first
      obtain ⟨s'', rfl, second⟩ := first.opened known
      obtain ⟨s3, rfl, later⟩ := ih second
      exact ⟨s3, by simp, later⟩
    · next other =>
      obtain ⟨s', rfl, first⟩ := strips.inside_of
      rw [if_neg other] at first
      obtain ⟨s'', rfl, later⟩ := ih first
      exact ⟨s'', by simp [other], later⟩

theorem Uncommented.quoted {q : Char} {body s w : List Char} (known : isQuote q = true)
    (bare : Uncommented (enclose q body ++ s) w) :
    ∃ w', w = enclose q body ++ w' ∧ Uncommented s w' := by
  obtain ⟨g, blank, strips⟩ := bare
  rw [enclose, List.cons_append, List.append_assoc, List.singleton_append] at strips
  obtain ⟨u, split, inside⟩ := strips.quote known
  obtain ⟨u', rfl, later⟩ := inside.enclosed known
  have joined : w ++ g = enclose q body ++ u' := by rw [split, enclose]; simp
  -- the closing quote is no blank, so it is not among the blanks left out
  rcases List.append_eq_append_iff.mp joined with ⟨more, longer, rest⟩ | ⟨more, longer, rest⟩
  · cases more using List.reverseRecOn with
    | nil =>
      rw [List.append_nil] at longer
      exact ⟨[], by simp [longer], g, blank, by simpa [rest] using later⟩
    | append_singleton more d =>
      have ends : enclose q body = (q :: double q body) ++ [q] := rfl
      have last : (enclose q body).getLast? = some d := by rw [longer]; simp
      rw [ends, List.getLast?_concat] at last
      have same : q = d := Option.some.inj last
      have member : d ∈ gapBlanks := blank d (by rw [rest]; simp)
      exact absurd (same ▸ member) (Text.not_mem_of_all known rfl)
  · exact ⟨more, longer, g, blank, by rw [← rest]; exact later⟩

theorem Uncommented.quoted_of {q : Char} {body s w : List Char} (known : isQuote q = true)
    (bare : Uncommented s (enclose q body ++ w)) :
    ∃ s', s = enclose q body ++ s' ∧ Uncommented s' w := by
  obtain ⟨g, blank, strips⟩ := bare
  rw [List.append_assoc, enclose_append] at strips
  obtain ⟨s', rfl, inside⟩ := strips.opened known
  obtain ⟨s'', rfl, later⟩ := inside.enclosed_of known
  exact ⟨s'', by simp [enclose], g, blank, later⟩

/-! Leaving out comments touches nothing but gaps, there and back. -/

theorem solid_spec {c : Char} (solid : isSolid c = true) : isQuote c = false ∧ c ∉ gapMarks := by
  simp only [isSolid, isOrdinary, Bool.and_eq_true, Bool.not_eq_true'] at solid
  exact ⟨solid.1.1.1.1, by simpa using solid.2⟩

theorem uncommented_respacing : Respacing Uncommented where
  gap := Uncommented.gap
  ended bare _ := by
    cases bare.view with
    | nil => rfl
    | gap opens _ _ _ _ _ =>
      obtain ⟨r, opens⟩ := opens
      cases opens
  begins bare := by
    cases bare.view with
    | nil => exact .inl rfl
    | plain unquoted inside alone later => exact .inl rfl
    | quote known blank later => exact .inl rfl
    | gap _ _ _ _ blank _ =>
      refine .inr fun c first => ?_
      rcases blank with ⟨rfl, _⟩ | ⟨d, blank, rfl⟩
      · cases first
      · cases first
        exact mem_gapMarks blank
  next bare solid := by
    obtain ⟨unquoted, apart⟩ := solid_spec solid
    cases bare.view with
    | plain _ _ _ later => exact ⟨_, rfl, later⟩
    | quote known _ _ =>
      rw [unquoted] at known
      cases known
    | gap _ first _ _ _ _ =>
      obtain ⟨d, mark, first⟩ := first
      cases first
      exact absurd mark apart
  sign bare sign here _ := by
    cases bare.view with
    | plain _ _ _ later => exact ⟨_, rfl, later⟩
    | quote known _ _ => rcases sign with rfl | rfl <;> cases known
    | gap opens _ _ _ _ _ =>
      obtain ⟨r, opens⟩ := opens
      rw [opens] at here
      cases here
  quoted bare known := bare.quoted known

theorem recommented_respacing : Respacing (flip Uncommented) where
  gap := Uncommented.gap
  ended bare solid := by
    have bare : Uncommented _ [] := bare
    cases bare.view with
    | nil => rfl
    | gap opens _ _ _ _ _ =>
      obtain ⟨r, opens⟩ := opens
      rw [opens] at solid
      cases solid
  begins {s w} bare := by
    have bare : Uncommented w s := bare
    cases bare.view with
    | nil => exact .inl rfl
    | plain unquoted inside alone later => exact .inl rfl
    | quote known blank later => exact .inl rfl
    | gap _ first _ _ _ _ =>
      obtain ⟨d, mark, first⟩ := first
      refine .inr fun c found => ?_
      rw [first] at found
      cases found
      exact mark
  next {c s w} bare solid := by
    obtain ⟨unquoted, apart⟩ := solid_spec solid
    have bare : Uncommented w (c :: s) := bare
    cases bare.view with
    | plain _ _ _ later => exact ⟨_, rfl, later⟩
    | quote known _ _ =>
      rw [unquoted] at known
      cases known
    | gap _ _ _ _ blank _ =>
      rcases blank with ⟨same, _⟩ | ⟨d, blank, same⟩
      · cases same
      · cases same
        exact absurd (mem_gapMarks blank) apart
  sign {c s w} bare sign _ there := by
    have bare : Uncommented w (c :: s) := bare
    cases bare.view with
    | plain _ _ _ later => exact ⟨_, rfl, later⟩
    | quote known _ _ => rcases sign with rfl | rfl <;> cases known
    | gap opens _ _ _ _ _ =>
      obtain ⟨r, opens⟩ := opens
      rw [opens] at there
      cases there
  quoted bare known := Uncommented.quoted_of known bare

theorem query_uncommented {s w : List Char} (bare : Uncommented s w) (select : Select) :
    query s = .ok (select, []) ↔ query w = .ok (select, []) := by
  constructor
  · intro read
    exact query_complete (uncommented_respacing.query (query_sound read).1 bare)
  · intro read
    exact query_complete (recommented_respacing.query (query_sound read).1 bare)

theorem tableHead_uncommented : ReadsAlike Uncommented tableHead :=
  tableHead_alike uncommented_respacing recommented_respacing

end SqlDialects
