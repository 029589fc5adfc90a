import SqlDialects.Proofs.Pattern.Replacing
import SqlDialects.Proofs.Text.QuotedSpans

/-
String literals as a whole. A change outside literals cuts a text at every apostrophe, so that it sees
an empty piece of code between the two apostrophes of a doubled one. What is written for that piece
comes to stand in the literal. Literals are copied, and nothing but the code around them is changed,
exactly where nothing is written for an empty piece or no apostrophe is doubled.
-/
namespace SqlDialects.Text

def literalSpans (s : List Char) : List Span := spans (· == '\x27') s

/-- The body of a text in quotes, with something between the two quotes of each doubled one. -/
def partedBody (quote : Char) (between body : List Char) : List Char :=
  body.flatMap fun c => if c = quote then quote :: (between ++ [quote]) else [c]

namespace Span

def changed (f : List Char → List Char) : Span → List Char
  | .code text => f text
  | span => span.text

def parted (f : List Char → List Char) : Span → List Char
  | .code text => f text
  | .quoted quote body => quote :: (partedBody quote (f []) body ++ [quote])
  | .unclosed quote body => quote :: partedBody quote (f []) body

def doubled : Span → Nat
  | .code _ => 0
  | .quoted quote body => body.count quote
  | .unclosed quote body => body.count quote

end Span

theorem partedBody_cons (quote : Char) (between : List Char) (c : Char) (body : List Char) :
    partedBody quote between (c :: body)
      = (if c = quote then quote :: (between ++ [quote]) else [c])
        ++ partedBody quote between body := rfl

theorem partedBody_length (quote : Char) (between body : List Char) :
    (partedBody quote between body).length
      = (double quote body).length + body.count quote * between.length := by
  rw [double_length]
  induction body with
  | nil => simp [partedBody]
  | cons c body ih =>
    rw [partedBody_cons, List.length_append, ih]
    by_cases same : c = quote
    · simp only [same, ↓reduceIte, List.length_cons, List.length_append, List.length_nil,
        List.count_cons_self, Nat.add_mul]
      omega
    · simp only [same, ↓reduceIte, List.length_cons, List.length_nil, List.count_cons_of_ne same]
      omega

/-- Where nothing is put between quotes, or no quotes are doubled, the body is as it was. -/
theorem partedBody_eq_double {quote : Char} {between body : List Char}
    (same : between = [] ∨ body.count quote = 0) :
    partedBody quote between body = double quote body := by
  induction body with
  | nil => rfl
  | cons c body ih =>
    by_cases quoted : c = quote
    · subst quoted
      obtain rfl : between = [] := same.resolve_right (by simp)
      rw [partedBody_cons, ih (.inl rfl)]
      simp [double]
    · rw [List.count_cons_of_ne quoted] at same
      rw [partedBody_cons, ih same]
      simp [double, quoted]

section Changed

variable (f : List Char → List Char)

theorem Span.parted_length (span : Span) :
    (span.parted f).length = (span.changed f).length + span.doubled * (f []).length := by
  cases span with
  | code text => simp [Span.parted, Span.changed, Span.doubled]
  | quoted quote body =>
    simp only [Span.parted, Span.changed, Span.text, Span.doubled, enclose, List.length_cons,
      List.length_append, List.length_nil, partedBody_length]
    omega
  | unclosed quote body =>
    simp only [Span.parted, Span.changed, Span.text, Span.doubled, List.length_cons,
      partedBody_length]
    omega

theorem Span.parted_eq_changed {span : Span} (same : f [] = [] ∨ span.doubled = 0) :
    span.parted f = span.changed f := by
  cases span with
  | code text => rfl
  | quoted quote body =>
    simp [Span.parted, Span.changed, Span.text, enclose, partedBody_eq_double same]
  | unclosed quote body => simp [Span.parted, Span.changed, Span.text, partedBody_eq_double same]

theorem parted_flatMap_length (spans : List Span) :
    (spans.flatMap (Span.parted f)).length
      = (spans.flatMap (Span.changed f)).length + (spans.map Span.doubled).sum * (f []).length := by
  induction spans with
  | nil => simp
  | cons span spans ih =>
    simp only [List.flatMap_cons, List.length_append, List.map_cons, List.sum_cons, ih,
      Span.parted_length, Nat.add_mul]
    omega

theorem parted_flatMap_iff (spans : List Span) :
    spans.flatMap (Span.parted f) = spans.flatMap (Span.changed f)
      ↔ f [] = [] ∨ ∀ span ∈ spans, span.doubled = 0 := by
  constructor
  · intro same
    -- each doubled quote makes the text longer by what is written for an empty piece
    have length := parted_flatMap_length f spans
    rw [same] at length
    have nothing : (spans.map Span.doubled).sum * (f []).length = 0 := by omega
    rcases Nat.mul_eq_zero.mp nothing with none | empty
    · exact .inr fun span member => List.sum_eq_zero_iff.mp none _ (List.mem_map_of_mem member)
    · exact .inl (List.eq_nil_of_length_eq_zero empty)
  · intro same
    refine List.flatMap_congr fun span member => Span.parted_eq_changed f ?_
    exact same.imp_right fun each => each span member

/-! Spans and segments. -/

theorem fromLiteral_double (body t : List Char) :
    fromLiteral f (double '\x27' body ++ t) = partedBody '\x27' (f []) body ++ fromLiteral f t := by
  induction body with
  | nil => rfl
  | cons c body ih =>
    by_cases quote : c = '\x27'
    · subst quote
      have reopened : outsideLiterals f ('\x27' :: (double '\x27' body ++ t))
          = f [] ++ '\x27' :: fromLiteral f (double '\x27' body ++ t) :=
        @outsideLiterals_opened f [] (by simp) _
      rw [partedBody_cons, double, if_pos rfl, List.cons_append, List.cons_append,
        fromLiteral_closed, reopened, ih]
      simp
    · rw [partedBody_cons, double, if_neg quote, List.cons_append, fromLiteral_inside f quote, ih]
      simp [quote]

theorem outsideLiterals_parted (s : List Char) :
    outsideLiterals f s = (literalSpans s).flatMap (Span.parted f) := by
  have code : ∀ {u : List Char}, (∀ c ∈ u, (c == '\x27') = false) → '\x27' ∉ u := by
    intro u plain member
    exact absurd (plain _ member) (by decide)
  induction s using span_induction (· == '\x27') with
  | code u plain =>
    rw [outsideLiterals_code f (code plain), literalSpans, spans_code plain]
    simp [Span.parted]
  | quoted u quote body rest plain opened closed ih =>
    obtain rfl : quote = '\x27' := by simpa using opened
    rw [literalSpans, spans_quoted plain opened body closed, enclose_append,
      outsideLiterals_opened f (code plain), fromLiteral_double, fromLiteral_closed, ih]
    simp [Span.parted, literalSpans]
  | unclosed u quote body plain opened =>
    obtain rfl : quote = '\x27' := by simpa using opened
    have inside := fromLiteral_double f body []
    rw [List.append_nil] at inside
    rw [literalSpans, spans_unclosed plain opened body, outsideLiterals_opened f (code plain),
      inside]
    simp [Span.parted, fromLiteral, Segment.scan, Segment.changed]

/-- A change outside literals also writes something between the apostrophes of each doubled one. It
copies every literal as it stands, and changes the code before, between and behind them, exactly where
it writes nothing there or no literal has a doubled apostrophe. -/
theorem outsideLiterals_whole (s : List Char) :
    (literalSpans s).flatMap Span.text = s
      ∧ outsideLiterals f s = (literalSpans s).flatMap (Span.parted f)
      ∧ (outsideLiterals f s = (literalSpans s).flatMap (Span.changed f)
        ↔ f [] = [] ∨ ∀ span ∈ literalSpans s, span.doubled = 0) := by
  refine ⟨spans_text _ s, outsideLiterals_parted f s, ?_⟩
  rw [outsideLiterals_parted, parted_flatMap_iff]

end Changed

def bracketed (s : List Char) : List Char := '[' :: (s ++ [']'])

/-- A literal with a doubled apostrophe is not copied as it stands. -/
theorem doubled_apostrophe_parted :
    outsideLiterals bracketed "'it''s'".toList = "[]'it'[]'s'[]".toList
      ∧ literalSpans "'it''s'".toList = [.code [], .quoted '\x27' "it's".toList, .code []]
      ∧ (literalSpans "'it''s'".toList).flatMap (Span.changed bracketed)
        = "[]'it''s'[]".toList := by
  decide +kernel

end SqlDialects.Text
