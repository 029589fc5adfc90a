import SqlDialects.Proofs.Grammar.CarriedQueries
import SqlDialects.Proofs.Grammar.Script
import SqlDialects.Text.WordCharacter

/-
Changes that keep the lexemes of a text. Such a change may write gaps, the quotes of a name and the
names of calls in other ways; keywords, names, numbers, signs and literals are found again.
-/
namespace SqlDialects

open Reader Spelling Change

def gapMarks : List Char := [' ', '\t', '\r', '\n', '-', '/']

/-- Characters that stand for themselves: they begin no gap, open no quote and end no statement. -/
def isSolid (c : Char) : Bool := isOrdinary c && !gapMarks.contains c

def isMark (c : Char) : Bool := isSolid c && !(Text.isWordCharacter c || isNameStart c)

def nameQuotes : List Char := ['"', '\x60']

/-- The changed text begins as the text does, or with a gap, or with a word in the place of a word,
or with a quoted name in the place of a quoted name. -/
def BeginsAlike (s w : List Char) : Prop :=
  ∀ c, w.head? = some c → s.head? = some c ∨ c ∈ gapMarks
    ∨ (isNameStart c = true ∧ ∃ d, s.head? = some d ∧ isNameCharacter d = true)
    ∨ c ∈ nameQuotes ∧ ∃ d ∈ nameQuotes, s.head? = some d

/-- A change that keeps the lexemes of a text. Names are kept in front of the given ends. -/
structure Keeping (words : List String) (ends : List Char → Prop) (change : Change) : Prop where
  gap : ∀ {s w}, change s w → change (skipGaps s) (skipGaps w)
  ended : ∀ {w}, change [] w → afterGap w = none → w = []
  begins : ∀ {s w}, change s w → BeginsAlike s w
  mark : ∀ {c s w}, change (c :: s) w → isMark c = true → ∃ w', w = c :: w' ∧ change s w'
  sign : ∀ {c s w}, change (c :: s) w → c = '-' ∨ c = '/' → afterGap (c :: s) = none →
    afterGap w = none → ∃ w', w = c :: w' ∧ change s w'
  digits : ∀ {ds s w}, change (ds ++ s) w → (∀ c ∈ ds, c.isDigit = true) → EndsDigits s →
    ∃ w', w = ds ++ w' ∧ change s w'
  keyword : ∀ {word k s w}, change (k ++ s) w → word ∈ words → k.map Char.toUpper = word.toList →
    EndsWord s → ∃ w', w = k ++ w' ∧ change s w'
  plain : ∀ {k s w}, change (k ++ s) w → IsWord k → isReserved (String.ofList k) = false →
    EndsWord s → ends s → ∃ w', w = k ++ w' ∧ change s w'
  bound : ∀ {k s w}, change (':' :: (k ++ s)) w → IsWord k → EndsWord s → Uncontinued s →
    ∃ w', w = ':' :: (k ++ w') ∧ change s w'
  literal : ∀ {body s w}, change (Text.enclose '\x27' body ++ s) w → s.head? ≠ some '\x27' →
    ∃ w', w = Text.enclose '\x27' body ++ w' ∧ change s w'
  name : ∀ {q body s w}, change (Text.enclose q body ++ s) w → q = '"' ∨ q = '\x60' →
    s.head? ≠ some q → ∃ q' w', (q' = '"' ∨ q' = '\x60') ∧ w = Text.enclose q' body ++ w'
      ∧ w'.head? ≠ some q' ∧ change s w'

/-! What a changed text cannot begin with. -/

theorem BeginsAlike.ne {s w : List Char} {c : Char} (alike : BeginsAlike s w)
    (other : s.head? ≠ some c) (solid : c ∉ gapMarks ++ nameQuotes) (mark : isNameStart c = false) :
    w.head? ≠ some c := by
  intro first
  rcases alike c first with same | gap | ⟨start, _⟩ | ⟨quote, _⟩
  · exact other same
  · exact solid (List.mem_append_left _ gap)
  · rw [mark] at start
    cases start
  · exact solid (List.mem_append_right _ quote)

theorem BeginsAlike.endsWord {s w : List Char} (alike : BeginsAlike s w) (ended : EndsWord s) :
    EndsWord w := by
  have marks : (gapMarks ++ nameQuotes).all (fun c => !isNameCharacter c) = true := by decide
  intro c first
  rcases alike c first with same | gap | ⟨_, d, begins, inside⟩ | ⟨quote, _⟩
  · exact ended c same
  · simpa using List.all_eq_true.mp marks c (List.mem_append_left _ gap)
  · rw [ended d begins] at inside
    cases inside
  · simpa using List.all_eq_true.mp marks c (List.mem_append_right _ quote)

theorem BeginsAlike.endsDigits {s w : List Char} (alike : BeginsAlike s w) (ended : EndsDigits s) :
    EndsDigits w := by
  have marks : (gapMarks ++ nameQuotes).all (fun c => !c.isDigit) = true := by decide
  intro c first
  rcases alike c first with same | gap | ⟨start, _⟩ | ⟨quote, _⟩
  · exact ended c same
  · simpa using List.all_eq_true.mp marks c (List.mem_append_left _ gap)
  · by_contra digit
    rw [not_nameStart_of_isDigit c (by simpa using digit)] at start
    cases start
  · simpa using List.all_eq_true.mp marks c (List.mem_append_right _ quote)

namespace Keeping

variable {words : List String} {ends : List Char → Prop} {change : Change}
  (keeping : Keeping words ends change)

include keeping

theorem marks {k s w : List Char} (solid : k.all isMark = true) (changed : change (k ++ s) w) :
    ∃ w', w = k ++ w' ∧ change s w' := by
  induction k generalizing w with
  | nil => exact ⟨w, rfl, changed⟩
  | cons c k ih =>
    rw [List.all_cons, Bool.and_eq_true] at solid
    obtain ⟨w', rfl, first⟩ := keeping.mark changed solid.1
    obtain ⟨w'', rfl, later⟩ := ih solid.2 first
    exact ⟨w'', rfl, later⟩

theorem behindGap {g s w : List Char} (gap : Gap g s) (changed : change (g ++ s) w) :
    ∃ g' w', w = g' ++ w' ∧ Gap g' w' ∧ change s w' := by
  obtain ⟨g', split, gap'⟩ := skipGaps_split w
  have solid := keeping.gap changed
  rw [gap] at solid
  exact ⟨g', skipGaps w, split, gap', solid⟩

theorem uncontinued {s w : List Char} (changed : change s w) (stop : Uncontinued s) :
    Uncontinued w := by
  have alike := keeping.begins (keeping.gap changed)
  intro c first
  refine ⟨?_, alike.endsDigits (fun d found => (stop d found).2) c first⟩
  rintro rfl
  exact alike.ne stop.uncalled (by decide) (by decide) first

/-! The lexemes of a query. -/

theorem word {word : String} (known : word ∈ words) :
    change.Carries Anywhere (KeywordText word) Eq := by
  intro _ t rest w spelled _ changed
  cases spelled with
  | @mk g k rest gap same ended =>
    rw [List.append_assoc] at changed
    obtain ⟨g', w', rfl, gap', behind⟩ := keeping.behindGap gap changed
    obtain ⟨rest', rfl, later⟩ := keeping.keyword behind known same ended
    exact ⟨(), g' ++ k, rest', by simp, .mk gap' same ((keeping.begins later).endsWord ended), rfl,
      later⟩

theorem symbol {text : String} (solid : text.toList.all isMark = true) :
    change.Carries Anywhere (SymbolText text) Eq := by
  intro _ t rest w spelled _ changed
  cases spelled with
  | @mk g rest gap =>
    rw [List.append_assoc] at changed
    obtain ⟨g', w', rfl, gap', behind⟩ := keeping.behindGap gap changed
    obtain ⟨rest', rfl, later⟩ := keeping.marks solid behind
    exact ⟨(), g' ++ text.toList, rest', by simp, .mk gap', rfl, later⟩

theorem minus : change.Carries Anywhere (SymbolText "-") Eq := by
  intro _ t rest w spelled _ changed
  cases spelled with
  | @mk g rest gap =>
    rw [List.append_assoc] at changed
    obtain ⟨g', w', rfl, gap', behind⟩ := keeping.behindGap gap changed
    have signed : change ('-' :: rest) w' := behind
    obtain ⟨rest', rfl, later⟩ := keeping.sign signed (.inl rfl) (gap_solid gap) (gap_solid gap')
    exact ⟨(), g' ++ ['-'], rest', by simp, .mk gap', rfl, later⟩

theorem exactly {text : String} (solid : text.toList.all isMark = true) :
    change.Carries Anywhere (ExactText text) Eq := by
  rintro _ t rest w rfl _ changed
  obtain ⟨rest', rfl, later⟩ := keeping.marks solid changed
  exact ⟨(), text.toList, rest', rfl, rfl, rfl, later⟩

omit keeping in
/-- A symbol of at most two characters that is read off one text is read off the other. -/
theorem exactly_alike {symbol text : String} {rest rest' u : List Char}
    (short : symbol.toList.length ≤ 2)
    (apart : symbol.toList.tail.all (fun d => !(gapMarks ++ nameQuotes).contains d && !isNameStart d) = true)
    (nonempty : text.toList ≠ []) (alike : BeginsAlike rest rest')
    (split : text.toList ++ rest' = symbol.toList ++ u) :
    ∃ v, text.toList ++ rest = symbol.toList ++ v := by
  -- the symbol either lies in the text or goes on for one character behind it
  rcases List.append_eq_append_iff.mp split with ⟨more, longer, joined⟩ | ⟨more, longer, joined⟩
  · cases more with
    | nil => exact ⟨rest, by rw [longer, List.append_nil]⟩
    | cons d more =>
      obtain ⟨c, t, found⟩ := List.exists_cons_of_ne_nil nonempty
      rw [longer, found] at short apart
      have single : t = [] ∧ more = [] := by
        constructor <;> apply List.eq_nil_of_length_eq_zero <;> simp at short <;> omega
      obtain ⟨rfl, rfl⟩ := single
      have first : rest.head? = some d := by
        rcases alike d (by rw [joined]; rfl) with same | gap | ⟨start, _⟩ | ⟨quote, _⟩
        · exact same
        · simp [gap] at apart
        · simp [start] at apart
        · simp [quote] at apart
      obtain ⟨v, rfl⟩ := List.head?_eq_some_iff.mp first
      exact ⟨v, by rw [longer, List.append_assoc]; rfl⟩
  · exact ⟨more ++ rest, by rw [longer, List.append_assoc]⟩

omit keeping in
/-- Which symbol of a table is read is settled by the symbol and by the character behind it. -/
theorem operatorOf_alike {table : List (String × BinaryOp)} {text : String} {op : BinaryOp}
    {rest rest' : List Char} (short : ∀ entry ∈ table, entry.1.toList.length ≤ 2)
    (apart : ∀ entry ∈ table,
      entry.1.toList.tail.all (fun d => !(gapMarks ++ nameQuotes).contains d && !isNameStart d)
        = true)
    (nonempty : text.toList ≠ []) (alike : BeginsAlike rest rest')
    (first : operatorOf table (text.toList ++ rest) = .ok (op, rest)) :
    operatorOf table (text.toList ++ rest') = .ok (op, rest') := by
  induction table with
  | nil => cases first
  | cons entry table ih =>
    rcases orElse_ok first with read | ⟨failed, read⟩
    · obtain ⟨_, middle, found, last⟩ := bind_ok read
      cases last
      have same := List.append_cancel_right (exactly_ok.mp found)
      refine orElse_of_ok ?_
      rw [same, bind_of_ok (exactly_append entry.1 rest')]
      rfl
    · have later := ih (fun e member => short e (.tail entry member))
        (fun e member => apart e (.tail entry member)) read
      have none : Fails (Reader.exactly entry.1) (text.toList ++ rest') := by
        refine exactly_fails fun u split => ?_
        obtain ⟨v, found⟩ := exactly_alike (short entry List.mem_cons_self)
          (apart entry List.mem_cons_self) nonempty alike split
        refine absurd failed (@not_fails_of_ok _ _ _ v entry.2 ?_)
        rw [found, bind_of_ok (exactly_append entry.1 v)]
        rfl
      rw [operatorOf, orElse_of_fails (bind_fails none)]
      exact later

def symbolTables : List (List (String × BinaryOp)) := [productSymbols, sumSymbols, comparisonSymbols]

theorem operator {table : List (String × BinaryOp)} (known : table ∈ symbolTables) :
    change.Carries Anywhere (OperatorText table) Eq := by
  have short : ∀ table ∈ symbolTables, ∀ entry ∈ table, entry.1.toList.length ≤ 2 := by decide
  have apart : ∀ table ∈ symbolTables, ∀ entry ∈ table,
      entry.1.toList.tail.all (fun d => !(gapMarks ++ nameQuotes).contains d && !isNameStart d)
        = true := by decide
  have signs : ∀ table ∈ symbolTables, ∀ entry ∈ table, entry.1.toList ≠ []
      ∧ (entry.1.toList.all isMark = true ∨ entry.1.toList = ['-'] ∨ entry.1.toList = ['/']) := by
    decide
  intro op t rest w spelled _ changed
  cases spelled with
  | @mk g rest text op gap listed first =>
    rw [List.append_assoc] at changed
    obtain ⟨g', w', rfl, gap', behind⟩ := keeping.behindGap gap changed
    obtain ⟨nonempty, kind⟩ := signs table known _ listed
    obtain ⟨rest', rfl, later⟩ : ∃ rest', w' = text.toList ++ rest' ∧ change rest rest' := by
      have here := gap_solid gap
      have there := gap_solid gap'
      rcases kind with solid | minus | slash
      · exact keeping.marks solid behind
      · rw [minus] at behind here ⊢
        exact keeping.sign behind (.inl rfl) here there
      · rw [slash] at behind here ⊢
        exact keeping.sign behind (.inr rfl) here there
    exact ⟨op, g' ++ text.toList, rest', by simp, .mk gap' listed (operatorOf_alike
      (short table known) (apart table known) nonempty (keeping.begins later) first), rfl, later⟩

theorem literalText : change.Carries Anywhere LiteralText Eq := by
  rintro body t rest w ⟨rfl, closed⟩ _ changed
  obtain ⟨rest', rfl, later⟩ := keeping.literal changed closed
  exact ⟨body, _, rest', rfl,
    ⟨rfl, (keeping.begins later).ne closed (by decide) (by decide)⟩, rfl, later⟩

theorem null (known : "NULL" ∈ words) : change.Carries Anywhere (WordText "NULL") Eq := by
  rintro _ k rest w ⟨same, ended⟩ _ changed
  obtain ⟨rest', rfl, later⟩ := keeping.keyword changed known same ended
  exact ⟨(), k, rest', rfl, ⟨same, (keeping.begins later).endsWord ended⟩, rfl, later⟩

theorem part : change.Carries ends PartText Eq := by
  intro name t rest w spelled stop changed
  cases spelled with
  | @quoted quote body rest known closed =>
    obtain ⟨quote', rest', known', rfl, closed', later⟩ := keeping.name changed known closed
    exact ⟨_, _, rest', rfl, .quoted known' closed', rfl, later⟩
  | plain shape free ended =>
    obtain ⟨rest', rfl, later⟩ := keeping.plain changed shape free ended stop
    exact ⟨_, _, rest', rfl, .plain shape free ((keeping.begins later).endsWord ended), rfl, later⟩

theorem number : change.Carries Anywhere NumberText Eq := by
  intro text t rest w spelled _ changed
  cases spelled with
  | whole digits ended point =>
    obtain ⟨rest', rfl, later⟩ := keeping.digits changed digits.inside ended
    have alike := keeping.begins later
    exact ⟨_, _, rest', rfl, .whole digits (alike.endsDigits ended)
      (alike.ne point (by decide) (by decide)), rfl, later⟩
  | @fraction ds fs rest digits places ended =>
    rw [List.append_assoc] at changed
    have stop : EndsDigits ('.' :: (fs ++ rest)) := by
      intro c first
      cases first
      rfl
    obtain ⟨w', rfl, first⟩ := keeping.digits changed digits.inside stop
    obtain ⟨w'', rfl, point⟩ := keeping.mark first (by decide)
    obtain ⟨rest', rfl, later⟩ := keeping.digits point places ended
    exact ⟨_, ds ++ '.' :: fs, rest', by simp,
      .fraction digits places ((keeping.begins later).endsDigits ended), rfl, later⟩

theorem parameter : change.Carries Uncontinued ParameterText Eq := by
  intro text t rest w spelled stop changed
  cases spelled with
  | question =>
    obtain ⟨rest', rfl, later⟩ := keeping.mark changed (by decide)
    exact ⟨_, ['?'], rest', rfl, .question rest', rfl, later⟩
  | @named word rest shape ended =>
    obtain ⟨rest', rfl, later⟩ := keeping.bound changed shape ended stop
    exact ⟨_, ':' :: word, rest', rfl, .named shape ((keeping.begins later).endsWord ended), rfl,
      later⟩
  | @numbered ds rest digits ended =>
    obtain ⟨w', rfl, first⟩ := keeping.mark changed (by decide)
    obtain ⟨rest', rfl, later⟩ := keeping.digits first digits.inside ended
    exact ⟨_, '$' :: ds, rest', rfl, .numbered digits ((keeping.begins later).endsDigits ended), rfl,
      later⟩

theorem count : change.Carries Anywhere CountText Eq := by
  intro n t rest w spelled _ changed
  cases spelled with
  | @mk g ds rest gap digits bound ended =>
    rw [List.append_assoc] at changed
    obtain ⟨g', w', rfl, gap', behind⟩ := keeping.behindGap gap changed
    obtain ⟨rest', rfl, later⟩ := keeping.digits behind digits.inside ended
    exact ⟨_, g' ++ ds, rest', by simp,
      .mk gap' digits bound ((keeping.begins later).endsDigits ended), rfl, later⟩

theorem lexical (known : ∀ word ∈ queryWords, word ∈ words)
    (narrow : ∀ s, Uncontinued s → ends s) : change.Lexical where
  gap := keeping.gap
  ended := keeping.ended
  uncontinued := keeping.uncontinued
  keyword _ listed := keeping.word (known _ listed)
  symbol text listed := by
    simp only [List.mem_cons, List.not_mem_nil, or_false] at listed
    rcases listed with rfl | rfl | rfl | rfl | rfl
    · exact keeping.symbol (by decide)
    · exact keeping.symbol (by decide)
    · exact keeping.symbol (by decide)
    · exact keeping.symbol (by decide)
    · exact keeping.minus
  operator _ listed := keeping.operator listed
  mark text listed := by
    have solid : ∀ text ∈ ["(", "*", "."], text.toList.all isMark = true := by decide
    exact keeping.exactly (solid text listed)
  null := keeping.null (known "NULL" (by decide))
  literal := keeping.literalText
  number := keeping.number.fewer fun _ _ => trivial
  parameter := keeping.parameter
  part := keeping.part.fewer narrow

theorem ilike {like : Expr → Expr → Prop} (congruent : Congruent like) (known : "ILIKE" ∈ words)
    {t rest w : List Char} (spelled : KeywordText "ILIKE" () t rest) (changed : change (t ++ rest) w) :
    change.Finds ComparatorText (Replaces like .ilike) rest w := by
  obtain ⟨_, t', rest', rfl, h', _, later⟩ :=
    keeping.word known () t rest w spelled trivial changed
  exact ⟨.ilike, t', rest', rfl, .ilike h', congruent.binary .ilike, later⟩

theorem page (known : ∀ word ∈ pageKeywords, word ∈ words) :
    change.Carries Anywhere PageText Eq :=
  carries_page (fun word listed => keeping.word (known word listed)) keeping.count
    (keeping.symbol (by decide))

end Keeping

end SqlDialects
