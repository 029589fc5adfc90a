import SqlDialects.Proofs.Text.Requoting
import SqlDialects.Rules.TextPipeline

/-
A text cut at what stands in quotes. Between two texts in quotes there is a piece of code, which may
be empty; a quote that is never closed takes the rest of the text. Requoting is a change to the spans
one by one. It can be taken back where every name is closed and the new quote stands in literals and
names only, and it leaves a text without names as it was, but for doubled quotes behind a quote that
is never closed.
-/
namespace SqlDialects.Text

/-- A piece of code, a text in quotes, or the end of a text behind a quote that is never closed. A
doubled quote stands once in a body. -/
inductive Span where
  | code (text : List Char)
  | quoted (quote : Char) (body : List Char)
  | unclosed (quote : Char) (body : List Char)
  deriving DecidableEq, Repr

def Span.text : Span → List Char
  | .code text => text
  | .quoted quote body => enclose quote body
  | .unclosed quote body => quote :: double quote body

/-- What a scan for spans is in: code, quotes, or quotes behind a character that may close them. -/
inductive SpanScan where
  | code (text : List Char)
  | quoted (quote : Char) (body : List Char)
  | closing (quote : Char) (body : List Char)

def spansFrom (opens : Char → Bool) : SpanScan → List Char → List Span
  | .code text, [] => [.code text]
  | .quoted quote body, [] => [.unclosed quote body]
  | .closing quote body, [] => [.quoted quote body, .code []]
  | .code text, c :: s =>
    if opens c then .code text :: spansFrom opens (.quoted c []) s
    else spansFrom opens (.code (text ++ [c])) s
  | .quoted quote body, c :: s =>
    if c = quote then spansFrom opens (.closing quote body) s
    else spansFrom opens (.quoted quote (body ++ [c])) s
  | .closing quote body, c :: s =>
    if c = quote then spansFrom opens (.quoted quote (body ++ [c])) s
    else if opens c then .quoted quote body :: .code [] :: spansFrom opens (.quoted c []) s
    else .quoted quote body :: spansFrom opens (.code [c]) s

def spans (opens : Char → Bool) (s : List Char) : List Span := spansFrom opens (.code []) s

/-! The spans of the three kinds of texts. -/

section Spans

variable {opens : Char → Bool} {u : List Char} (plain : ∀ c ∈ u, opens c = false)

include plain in
theorem spansFrom_code (before s : List Char) :
    spansFrom opens (.code before) (u ++ s) = spansFrom opens (.code (before ++ u)) s := by
  induction u generalizing before with
  | nil => simp
  | cons c u ih =>
    have closed : opens c = false := plain c List.mem_cons_self
    rw [List.cons_append, spansFrom, closed]
    simpa using ih (fun d member => plain d (.tail c member)) (before ++ [c])

theorem spansFrom_body (quote : Char) (before body s : List Char) :
    spansFrom opens (.quoted quote before) (double quote body ++ s)
      = spansFrom opens (.quoted quote (before ++ body)) s := by
  induction body generalizing before with
  | nil => simp [double]
  | cons c body ih =>
    by_cases same : c = quote
    · subst same
      simp [double, spansFrom, ih]
    · simp [double, spansFrom, same, ih]

theorem spansFrom_closing {quote : Char} {s : List Char} (closed : s.head? ≠ some quote)
    (body : List Char) :
    spansFrom opens (.closing quote body) s = .quoted quote body :: spans opens s := by
  cases s with
  | nil => rfl
  | cons c s =>
    have other : c ≠ quote := by simpa using closed
    rw [spansFrom, if_neg other, spans, spansFrom, List.nil_append]
    split <;> rfl

include plain

theorem spans_code : spans opens u = [.code u] := by
  have scanned := spansFrom_code plain [] []
  simpa [spans, spansFrom] using scanned

theorem spans_opened {quote : Char} (opened : opens quote = true) (s : List Char) :
    spans opens (u ++ quote :: s) = .code u :: spansFrom opens (.quoted quote []) s := by
  rw [spans, spansFrom_code plain, spansFrom, if_pos opened, List.nil_append]

theorem spans_quoted {quote : Char} (opened : opens quote = true) (body : List Char)
    {rest : List Char} (closed : rest.head? ≠ some quote) :
    spans opens (u ++ (enclose quote body ++ rest))
      = .code u :: .quoted quote body :: spans opens rest := by
  rw [enclose_append, spans_opened plain opened, spansFrom_body, spansFrom, if_pos rfl,
    spansFrom_closing closed, List.nil_append]

theorem spans_unclosed {quote : Char} (opened : opens quote = true) (body : List Char) :
    spans opens (u ++ quote :: double quote body) = [.code u, .unclosed quote body] := by
  have scanned := @spansFrom_body opens quote [] body []
  rw [List.append_nil] at scanned
  rw [spans_opened plain opened, scanned, spansFrom, List.nil_append]

end Spans

/-! Every text is of one of the three kinds. -/

theorem closed_or_doubled (quote : Char) : (s : List Char) →
    (∃ body rest, s = double quote body ++ quote :: rest ∧ rest.head? ≠ some quote)
      ∨ ∃ body, s = double quote body
  | [] => .inr ⟨[], rfl⟩
  | [c] => by
    by_cases same : c = quote
    · exact .inl ⟨[], [], by simp [same, double]⟩
    · exact .inr ⟨[c], by simp [same, double]⟩
  | c :: d :: s => by
    by_cases same : c = quote
    · by_cases doubled : d = quote
      · rcases closed_or_doubled quote s with ⟨body, rest, rfl, closed⟩ | ⟨body, rfl⟩
        · exact .inl ⟨quote :: body, rest, by simp [same, doubled, double], closed⟩
        · exact .inr ⟨quote :: body, by simp [same, doubled, double]⟩
      · exact .inl ⟨[], d :: s, by simp [same, double], by simpa using doubled⟩
    · rcases closed_or_doubled quote (d :: s) with ⟨body, rest, split, closed⟩ | ⟨body, split⟩
      · exact .inl ⟨c :: body, rest, by simp [same, double, split], closed⟩
      · exact .inr ⟨c :: body, by simp [same, double, split]⟩

theorem span_induction (opens : Char → Bool) {P : List Char → Prop}
    (code : ∀ u, (∀ c ∈ u, opens c = false) → P u)
    (quoted : ∀ u quote body rest, (∀ c ∈ u, opens c = false) → opens quote = true →
      rest.head? ≠ some quote → P rest → P (u ++ (enclose quote body ++ rest)))
    (unclosed : ∀ u quote body, (∀ c ∈ u, opens c = false) → opens quote = true →
      P (u ++ quote :: double quote body)) (s : List Char) : P s := by
  induction length : s.length using Nat.strong_induction_on generalizing s with
  | _ n ih =>
    have plain : ∀ c ∈ s.takeWhile (!opens ·), opens c = false := by
      intro c member
      simpa using List.mem_takeWhile_imp member
    have split := List.takeWhile_append_dropWhile (p := (!opens ·)) (l := s)
    cases found : s.dropWhile (!opens ·) with
    | nil =>
      rw [found, List.append_nil] at split
      exact code s (split ▸ plain)
    | cons quote rest =>
      have opened : opens quote = true := by
        simpa using Reader.dropWhile_ended (!opens ·) s quote (by rw [found]; rfl)
      rw [found] at split
      rw [← split]
      rcases closed_or_doubled quote rest with ⟨body, after, rfl, closed⟩ | ⟨body, rfl⟩
      · have shorter : after.length < n := by
          rw [← length, ← split]
          simp
          omega
        have whole := quoted _ quote body after plain opened closed (ih _ shorter after rfl)
        rwa [enclose_append] at whole
      · exact unclosed _ quote body plain opened

theorem spans_text (opens : Char → Bool) (s : List Char) :
    (spans opens s).flatMap Span.text = s := by
  induction s using span_induction opens with
  | code u plain => simp [spans_code plain, Span.text]
  | quoted u quote body rest plain opened closed ih =>
    simp [spans_quoted plain opened body closed, Span.text, ih]
  | unclosed u quote body plain opened => simp [spans_unclosed plain opened body, Span.text]

theorem spans_first {opens : Char → Bool} {s : List Char} {c : Char} (first : s.head? = some c)
    (plain : opens c = false) : ∃ text, .code text ∈ spans opens s ∧ c ∈ text := by
  have front : ∀ {u rest : List Char} {quote : Char}, opens quote = true →
      (u ++ quote :: rest).head? = some c → c ∈ u := by
    intro u rest quote opened first
    cases u with
    | nil =>
      cases first
      rw [opened] at plain
      cases plain
    | cons d u =>
      cases first
      exact List.mem_cons_self
  induction s using span_induction opens with
  | code u inside => exact ⟨u, by simp [spans_code inside], List.mem_of_mem_head? first⟩
  | quoted u quote body rest inside opened closed ih =>
    exact ⟨u, by simp [spans_quoted inside opened body closed], front opened first⟩
  | unclosed u quote body inside opened =>
    exact ⟨u, by simp [spans_unclosed inside opened body], front opened first⟩

/-! Requoting literals and names that are not closed. -/

section Requoting

variable {source target : Char}

theorem requoteFrom_literal_body (body rest : List Char) :
    requoteFrom source target .literal (double '\x27' body ++ rest)
      = (double '\x27' body ++ (requoteFrom source target .literal rest).1,
        (requoteFrom source target .literal rest).2) := by
  induction body with
  | nil => rfl
  | cons c body ih =>
    by_cases quote : c = '\x27'
    · subst quote
      simp [double, requoteFrom, ih]
    · simp [double, quote, requoteFrom, ih]

theorem requoteFrom_opened (s : List Char) :
    requoteFrom source target .code ('\x27' :: s)
      = ('\x27' :: (requoteFrom source target .literal s).1,
        (requoteFrom source target .literal s).2) := by
  rw [requoteFrom_code_cons, if_pos rfl]

theorem requoteFrom_unclosed (read body : List Char) :
    requoteFrom source target (.name read) (double source body) = (source :: (read ++ body), 0) := by
  induction body generalizing read with
  | nil => simp [double, requoteFrom]
  | cons c body ih =>
    by_cases same : c = source
    · subst same
      simp [double, requoteFrom_name_doubled, ih]
    · rw [double, if_neg same, requoteFrom_name_more same, ih]
      simp

/-- The characters that matter for requoting: apostrophes and the quotes of names. -/
def opensSpan (source c : Char) : Bool := c == '\x27' || c == source

def nameSpans (source : Char) (s : List Char) : List Span := spans (opensSpan source) s

theorem opensSpan_eq_false {c : Char} :
    opensSpan source c = false ↔ c ≠ '\x27' ∧ c ≠ source := by
  simp [opensSpan]

variable (other : source ≠ '\x27') {u : List Char} (plain : ∀ c ∈ u, opensSpan source c = false)

section Kinds

include plain

theorem requote_front (rest : List Char) :
    requote source target (u ++ rest)
      = (u ++ (requote source target rest).1, (requote source target rest).2) :=
  requoteFrom_plain (fun c member => opensSpan_eq_false.mp (plain c member)) rest

theorem requote_code : requote source target u = (u, 0) := by
  have copied := @requote_front source target u plain []
  rw [List.append_nil] at copied
  rw [copied, requote, requoteFrom_nil, List.append_nil]

theorem requote_literal (body rest : List Char) :
    requote source target (u ++ (enclose '\x27' body ++ rest))
      = (u ++ (enclose '\x27' body ++ (requote source target rest).1),
        (requote source target rest).2) := by
  rw [requote_front plain, enclose_append, requote, requoteFrom_opened, requoteFrom_literal_body, requoteFrom,
    if_pos rfl]
  simp [enclose, requote]

theorem requote_unclosed_literal (body : List Char) :
    requote source target (u ++ '\x27' :: double '\x27' body)
      = (u ++ '\x27' :: double '\x27' body, 0) := by
  have copied := @requoteFrom_literal_body source target body []
  rw [List.append_nil] at copied
  rw [requote_front plain, requote, requoteFrom_opened, copied, requoteFrom, List.append_nil]

include other

theorem requote_name (body : List Char) {rest : List Char} (closed : rest.head? ≠ some source) :
    requote source target (u ++ (enclose source body ++ rest))
      = (u ++ (enclose target body ++ (requote source target rest).1),
        (requote source target rest).2 + 1) := by
  rw [requote_front plain, requote, requoteFrom_enclosed other body closed, requote]

theorem requote_unclosed_name (body : List Char) :
    requote source target (u ++ source :: double source body) = (u ++ source :: body, 0) := by
  rw [requote_front plain, requote, requoteFrom_code_cons, if_neg other, if_pos rfl,
    requoteFrom_unclosed, List.nil_append]

end Kinds

theorem opensSpan_cases {quote : Char} (opened : opensSpan source quote = true) :
    quote = '\x27' ∨ quote = source := by
  simpa [opensSpan] using opened

theorem requote_head {rest : List Char} (outside : rest.head? ≠ some source) :
    (requote source target rest).1.head? = rest.head? := by
  cases rest with
  | nil => rfl
  | cons c rest =>
    have same : c ≠ source := by simpa using outside
    rw [requote, requoteFrom_code_cons, if_neg same]
    split <;> rfl

/-! Requoting and taking it back. -/

def Span.isName (source : Char) : Span → Bool
  | .quoted quote _ => quote == source
  | _ => false

include other in
theorem requote_count (s : List Char) :
    (requote source target s).2 = (nameSpans source s).countP (Span.isName source) := by
  induction s using span_induction (opensSpan source) with
  | code u plain => simp [requote_code plain, nameSpans, spans_code plain, Span.isName]
  | quoted u quote body rest plain opened closed ih =>
    rw [nameSpans, spans_quoted plain opened body closed, ← nameSpans]
    rcases opensSpan_cases opened with rfl | rfl
    · simp [requote_literal plain, ih, Span.isName, other.symm]
    · simp [requote_name other plain body closed, ih, Span.isName]
  | unclosed u quote body plain opened =>
    rw [nameSpans, spans_unclosed plain opened body]
    rcases opensSpan_cases opened with rfl | rfl
    · simp [requote_unclosed_literal plain, Span.isName]
    · simp [requote_unclosed_name other plain, Span.isName]

structure Reversible (source target : Char) (s : List Char) : Prop where
  free : ∀ text, .code text ∈ nameSpans source s → target ∉ text
  closed : ∀ body, .unclosed source body ∉ nameSpans source s

namespace Reversible

theorem rest {quote : Char} {body rest : List Char} (plain : ∀ c ∈ u, opensSpan source c = false)
    (opened : opensSpan source quote = true) (closed : rest.head? ≠ some quote)
    (reversible : Reversible source target (u ++ (enclose quote body ++ rest))) :
    target ∉ u ∧ Reversible source target rest := by
  obtain ⟨free, ended⟩ := reversible
  rw [nameSpans, spans_quoted plain opened body closed, ← nameSpans] at free ended
  exact ⟨free u (by simp), fun text member => free text (by simp [member]),
    fun body member => ended body (by simp [member])⟩

theorem head {rest : List Char} (apart : target ≠ '\x27') (distinct : source ≠ target)
    (reversible : Reversible source target rest) : rest.head? ≠ some target := by
  intro first
  obtain ⟨text, member, inside⟩ :=
    spans_first first (opensSpan_eq_false.mpr ⟨apart, distinct.symm⟩)
  exact reversible.free text member inside

end Reversible

include other in
theorem requote_back (apart : target ≠ '\x27') (distinct : source ≠ target) {s : List Char}
    (reversible : Reversible source target s) :
    requote target source (requote source target s).1 = (s, (requote source target s).2) := by
  have swapped : ∀ {u : List Char}, (∀ c ∈ u, opensSpan source c = false) → target ∉ u →
      ∀ c ∈ u, opensSpan target c = false := by
    intro u plain free c member
    refine opensSpan_eq_false.mpr ⟨(opensSpan_eq_false.mp (plain c member)).1, ?_⟩
    rintro rfl
    exact free member
  induction s using span_induction (opensSpan source) with
  | code u plain =>
    have free : target ∉ u := reversible.free u (by simp [nameSpans, spans_code plain])
    rw [requote_code plain, requote_code (swapped plain free)]
  | quoted u quote body rest plain opened closed ih =>
    obtain ⟨free, later⟩ := reversible.rest plain opened closed
    rcases opensSpan_cases opened with rfl | rfl
    · rw [requote_literal plain, requote_literal (swapped plain free), ih later]
    · -- what follows the name begins as before, so the new quote is closed there as well
      have ended : (requote quote target rest).1.head? ≠ some target := by
        rw [requote_head closed]
        exact later.head apart distinct
      rw [requote_name other plain body closed, requote_name apart (swapped plain free) body ended,
        ih later]
  | unclosed u quote body plain opened =>
    have spanned : nameSpans source (u ++ quote :: double quote body)
        = [.code u, .unclosed quote body] := spans_unclosed plain opened body
    have free : target ∉ u := reversible.free u (by simp [spanned])
    rcases opensSpan_cases opened with rfl | rfl
    · rw [requote_unclosed_literal plain, requote_unclosed_literal (swapped plain free)]
    · exact absurd (by simp [spanned]) (reversible.closed body)

/-- Requoting is taken back by requoting the other way, and both count the names of the text. -/
theorem requote_reversible (left : source ≠ '\x27') (right : target ≠ '\x27')
    (distinct : source ≠ target) {s : List Char} (reversible : Reversible source target s) :
    requote target source (requote source target s).1 = (s, (requote source target s).2)
      ∧ (requote source target s).2 = (nameSpans source s).countP (Span.isName source) :=
  ⟨requote_back left right distinct reversible, requote_count left s⟩

/-- Names with both quotes and an apostrophe in them, an empty name, literals with both quotes in
them, and a literal that is not closed. -/
def strangelyQuoted : List Char :=
  "SELECT `a``\"'b`, ``, 'it''s `x` \"y\"' FROM `t`.```` WHERE 'open `z\"".toList

theorem strangelyQuoted_reversible :
    requote '\x60' '"' strangelyQuoted
        = ("SELECT \"a`\"\"'b\", \"\", 'it''s `x` \"y\"' FROM \"t\".\"`\" WHERE 'open `z\"".toList, 4)
      ∧ requote '"' '\x60' (requote '\x60' '"' strangelyQuoted).1 = (strangelyQuoted, 4) := by
  have cut : nameSpans '\x60' strangelyQuoted
      = [.code "SELECT ".toList, .quoted '\x60' "a`\"'b".toList, .code ", ".toList, .quoted '\x60' [],
        .code ", ".toList, .quoted '\x27' "it's `x` \"y\"".toList, .code " FROM ".toList,
        .quoted '\x60' "t".toList, .code ".".toList, .quoted '\x60' "`".toList,
        .code " WHERE ".toList, .unclosed '\x27' "open `z\"".toList] := by decide +kernel
  have reversible : Reversible '\x60' '"' strangelyQuoted := by
    refine ⟨fun text member => ?_, fun body member => ?_⟩
    · rw [cut] at member
      simp only [List.mem_cons, Span.code.injEq, List.not_mem_nil, or_false, reduceCtorEq,
        false_or] at member
      rcases member with rfl | rfl | rfl | rfl | rfl | rfl <;> decide
    · rw [cut] at member
      simp at member
  have counted : (requote '\x60' '"' strangelyQuoted).2 = 4 := by decide +kernel
  refine ⟨by decide +kernel, ?_⟩
  rw [← counted]
  exact (requote_reversible (by decide) (by decide) (by decide) reversible).1

/-! What is not counted, and what happens to a name that is not closed. -/

theorem double_length (quote : Char) (body : List Char) :
    (double quote body).length = body.length + body.count quote := by
  induction body with
  | nil => rfl
  | cons c body ih =>
    by_cases same : c = quote
    · simp only [double, same, ↓reduceIte, List.length_cons, ih, List.count_cons_self]
      omega
    · simp only [double, same, ↓reduceIte, List.length_cons, ih, List.count_cons_of_ne same]
      omega

theorem double_eq_self_iff {quote : Char} {body : List Char} :
    double quote body = body ↔ quote ∉ body := by
  constructor
  · intro same
    have length := double_length quote body
    rw [same] at length
    exact List.count_eq_zero.mp (by omega)
  · intro absent
    induction body with
    | nil => rfl
    | cons c body ih =>
      obtain ⟨other, later⟩ := List.ne_and_not_mem_of_not_mem_cons absent
      rw [double, if_neg other.symm, ih later]

include other

/-- A text without names that are closed stays, unless a quote is doubled in a name that is not. -/
theorem requote_eq_self_iff {s : List Char} (none : (requote source target s).2 = 0) :
    (requote source target s).1 = s
      ↔ ∀ body, .unclosed source body ∈ nameSpans source s → source ∉ body := by
  induction s using span_induction (opensSpan source) with
  | code u plain => simp [requote_code plain, nameSpans, spans_code plain]
  | quoted u quote body rest plain opened closed ih =>
    rw [nameSpans, spans_quoted plain opened body closed, ← nameSpans]
    rcases opensSpan_cases opened with rfl | rfl
    · rw [requote_literal plain] at none ⊢
      simpa using ih none
    · rw [requote_name other plain body closed] at none
      cases none
  | unclosed u quote body plain opened =>
    rw [nameSpans, spans_unclosed plain opened body]
    rcases opensSpan_cases opened with rfl | rfl
    · simp [requote_unclosed_literal plain, other]
    · simpa [requote_unclosed_name other plain] using eq_comm.trans double_eq_self_iff

theorem requote_unclosed {s body : List Char} (unclosed : .unclosed source body ∈ nameSpans source s) :
    ∃ before, s = before ++ source :: double source body
      ∧ (requote source target s).1 = (requote source target before).1 ++ source :: body := by
  induction s using span_induction (opensSpan source) with
  | code u plain => simp [nameSpans, spans_code plain] at unclosed
  | quoted u quote name rest plain opened closed ih =>
    rw [nameSpans, spans_quoted plain opened name closed, ← nameSpans] at unclosed
    obtain ⟨before, rfl, changed⟩ := ih (by simpa using unclosed)
    have ended : before.head? ≠ some quote := by
      intro first
      obtain ⟨front, rfl⟩ := List.head?_eq_some_iff.mp first
      exact closed rfl
    refine ⟨u ++ (enclose quote name ++ before), by simp, ?_⟩
    rcases opensSpan_cases opened with rfl | rfl
    · rw [requote_literal plain, requote_literal plain, changed]
      simp
    · rw [requote_name other plain name closed, requote_name other plain name ended, changed]
      simp
  | unclosed u quote name plain opened =>
    rw [nameSpans, spans_unclosed plain opened name] at unclosed
    obtain ⟨rfl, rfl⟩ : source = quote ∧ body = name := by simpa using unclosed
    exact ⟨u, rfl, by rw [requote_unclosed_name other plain, requote_code plain]⟩

/-- Nothing is logged exactly where no name is counted. The text is then as it was, unless it ends in a
name that is not closed and has doubled quotes; such a name keeps its opening quote and one of each two
quotes behind it, and what stands in front of it is requoted by itself. -/
theorem requoting_unlogged (s : List Char) :
    ((TextRule.requoting source target s).2 = [] ↔ (requote source target s).2 = 0)
      ∧ ((requote source target s).2 = 0 → ((TextRule.requoting source target s).1 = s
        ↔ ∀ body, .unclosed source body ∈ nameSpans source s → source ∉ body))
      ∧ ∀ body, .unclosed source body ∈ nameSpans source s →
        ∃ before, s = before ++ source :: double source body
          ∧ (TextRule.requoting source target s).1
            = (requote source target before).1 ++ source :: body := by
  refine ⟨?_, requote_eq_self_iff other, fun body => requote_unclosed other⟩
  simp [TextRule.requoting]

end Requoting

def openNamed : List Char := "SELECT '`a``', `b\"c".toList

theorem openNamed_unlogged :
    (TextRule.requoting '\x60' '"' openNamed).2 = []
      ∧ .unclosed '\x60' "b\"c".toList ∈ nameSpans '\x60' openNamed
      ∧ (TextRule.requoting '\x60' '"' openNamed).1 = openNamed := by
  have cut : nameSpans '\x60' openNamed
      = [.code "SELECT ".toList, .quoted '\x27' "`a``".toList, .code ", ".toList,
        .unclosed '\x60' "b\"c".toList] := by decide +kernel
  obtain ⟨logged, unchanged, _⟩ := @requoting_unlogged '\x60' '"' (by decide) openNamed
  have none : (requote '\x60' '"' openNamed).2 = 0 := by decide +kernel
  refine ⟨logged.mpr none, by simp [cut], (unchanged none).mpr fun body member => ?_⟩
  rw [cut] at member
  obtain rfl : body = "b\"c".toList := by simpa using member
  decide

/-- A doubled quote in a name that is not closed is written once, and nothing is logged. -/
theorem doubled_quote_lost :
    (requote '\x60' '"' "`a``b".toList).2 = 0
      ∧ TextRule.requoting '\x60' '"' "`a``b".toList = ("`a`b".toList, [])
      ∧ "`a`b".toList ≠ "`a``b".toList := by
  decide +kernel

end SqlDialects.Text
