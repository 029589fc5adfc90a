import SqlDialects.Proofs.Grammar.Comments
import SqlDialects.Proofs.Rules.Stepping
import SqlDialects.Proofs.Text.Lexemes

/-
Texts whose lexemes the rules of a pair take for what they are. Rules see words, numbers and
parentheses; they see neither comments nor the quotes of names, and what they write may run into the
word behind it. In an orderly text nothing of this makes a difference, so keywords, names, numbers,
signs and literals are found again in what the rules make of it.
-/
namespace SqlDialects

open Text Pattern Reader Change

/-! Orderly texts. -/

def queryMarks : List Char := " \t\r\n(),.*+-/%=<>!|:?$".toList

def strayWords : List String := ["ILIKE", "FETCH"]

def looksStray (v : List Char) : Bool :=
  strayWords.any fun word => v.map foldCase == word.toList.map foldCase

def patternWords (k : List Char) : List (List Char) := k.splitOnP fun c => !isWordCharacter c

def isOrderlyWord (k : List Char) : Bool :=
  (k.head?.any isNameStart || k.all Char.isDigit)
    && ((patternWords k).all (fun v => !looksStray v)
      || strayWords.any fun word => k.map Char.toUpper == word.toList)

namespace Lexeme

def isBlankMark : Lexeme → Bool
  | .mark c => isBlank c
  | _ => false

def isName : Lexeme → Bool
  | .quoted q _ => nameQuotes.contains q
  | _ => false

def beginsComment (c : Char) (rest : List Lexeme) : Bool :=
  c == '-' && rest.head? == some (.mark '-') || c == '/' && rest.head? == some (.mark '*')

def runsOn (c : Char) (rest : List Lexeme) : Bool :=
  c == '(' && match rest.dropWhile isBlankMark with
    | .mark ')' :: .word _ :: _ => true
    | .mark ')' :: .mark '$' :: _ => true
    | _ => false

def bindsStray (c : Char) (rest : List Lexeme) : Bool :=
  c == ':' && match rest with
    | .word k :: _ => looksStray k
    | _ => false

/-- The word begins a row limit that rules do not take as a whole: `LIMIT m, n` where the source does
not have it, or an offset without `ROWS` in front of a fetch clause. -/
def breaksLimit (pair : Pair) (k : List Char) (behind : List Lexeme) : Bool :=
  pair.source == .postgresql && match behind with
    | .word m :: .mark ',' :: _ =>
      pair.target != .mysql && k.map Char.toUpper == "LIMIT".toList && m.all Char.isDigit
    | .word m :: .word fetch :: .word _ :: .word n :: _ =>
      pair.target == .mysql && k.map Char.toUpper == "OFFSET".toList && m.all Char.isDigit
        && fetch.map Char.toUpper == "FETCH".toList && n.all Char.isDigit
    | _ => false

end Lexeme

open Lexeme

namespace Pair

/-- The rules of a pair leave a quoted name as it is, its quotes apart: nothing in it looks like a
call, a row limit or an operator, nor like the beginning of a literal or of another name. -/
def keepsName (pair : Pair) (q : Char) (body : List Char) : Bool :=
  !body.contains '\x27'
    && (q == pair.source.quote || pair.source.quote == pair.target.quote
      || !body.contains pair.source.quote)
    && nameQuotes.all fun quote =>
      (TextRule.renames pair ++ TextRule.rowLimits pair ++ TextRule.operators pair).all fun rule =>
        rule.run (enclose quote body) == enclose quote body

def areOrderly (pair : Pair) : List Lexeme → Bool
  | [] => true
  | .word k :: rest =>
    isOrderlyWord k && !breaksLimit pair k (rest.filter fun lexeme => !lexeme.isBlankMark)
      && pair.areOrderly rest
  | .quoted q body :: rest =>
    (q == '\x27' || pair.keepsName q body && !rest.head?.any isName) && pair.areOrderly rest
  | .mark c :: rest =>
    queryMarks.contains c && !beginsComment c rest && !runsOn c rest && !bindsStray c rest
      && pair.areOrderly rest

def isOrderly (pair : Pair) (s : List Char) : Bool := pair.areOrderly (lexemes s)

def Converts (pair : Pair) : Change := fun s w => pair.isOrderly s = true ∧ w = pair.converted s

end Pair

/-! What an orderly text begins with. -/

theorem queryMarks_apart :
    queryMarks.all (fun c => !isWordCharacter c && (!isBlank c || gapBlanks.contains c)) = true := by
  decide

theorem queryMark_not_word {c : Char} (listed : c ∈ queryMarks) : isWordCharacter c = false := by
  have apart := List.all_eq_true.mp queryMarks_apart c listed
  simp only [Bool.and_eq_true, Bool.not_eq_true'] at apart
  exact apart.1

theorem queryMark_blank {c : Char} (listed : c ∈ queryMarks) (blank : isBlank c = true) :
    c ∈ gapBlanks := by
  have apart := List.all_eq_true.mp queryMarks_apart c listed
  simpa [blank] using ((Bool.and_eq_true ..).mp apart).2

theorem opensWord_nameCharacter {c : Char} (opens : opensWord c = true) : isNameCharacter c = true := by
  rcases (Bool.or_eq_true ..).mp opens with start | digit
  · exact nameCharacter_of_nameStart c start
  · exact nameCharacter_of_isDigit c digit

theorem opensWord_of_not_word {c : Char} (outside : isNameCharacter c = false) :
    opensWord c = false := by
  cases opens : opensWord c with
  | false => rfl
  | true => exact (opensWord_nameCharacter opens).symm.trans outside

section Orderly

variable {pair : Pair} {s : List Char}

theorem orderly_mark {c : Char} (apart : opensWord c = false) (unquoted : Nesting.isQuote c = false)
    (orderly : pair.isOrderly (c :: s) = true) :
    c ∈ queryMarks ∧ beginsComment c (lexemes s) = false ∧ runsOn c (lexemes s) = false
      ∧ bindsStray c (lexemes s) = false ∧ pair.isOrderly s = true := by
  rw [Pair.isOrderly, lexemes_mark apart unquoted] at orderly
  simpa [Pair.areOrderly, Pair.isOrderly, and_assoc] using orderly

theorem orderly_word {k : List Char} (opens : k.head?.any opensWord = true)
    (inside : ∀ c ∈ k, isNameCharacter c = true) (ended : EndsWord s)
    (orderly : pair.isOrderly (k ++ s) = true) :
    isOrderlyWord k = true
      ∧ breaksLimit pair k ((lexemes s).filter fun lexeme => !lexeme.isBlankMark) = false
      ∧ pair.isOrderly s = true := by
  rw [Pair.isOrderly, lexemes_word opens inside ended] at orderly
  simpa [Pair.areOrderly, Pair.isOrderly, and_assoc] using orderly

theorem orderly_quoted {q : Char} (quote : Nesting.isQuote q = true) {body : List Char}
    (closed : s.head? ≠ some q) (orderly : pair.isOrderly (enclose q body ++ s) = true) :
    (q = '\x27' ∨ pair.keepsName q body = true ∧ (lexemes s).head?.any isName = false)
      ∧ pair.isOrderly s = true := by
  rw [Pair.isOrderly, lexemes_quoted quote body closed] at orderly
  simpa [Pair.areOrderly, Pair.isOrderly] using orderly

theorem orderly_wordCharacter {c : Char} (orderly : pair.isOrderly (c :: s) = true)
    (word : isWordCharacter c = true) : isNameCharacter c = true := by
  cases opens : opensWord c with
  | true => exact opensWord_nameCharacter opens
  | false =>
    have unquoted : Nesting.isQuote c = false := by
      cases quote : Nesting.isQuote c with
      | false => rfl
      | true => exact (quote_not_word quote).symm.trans word |>.symm
    have mark := queryMark_not_word (orderly_mark opens unquoted orderly).1
    rw [word] at mark
    cases mark

theorem orderly_endsRun (orderly : pair.isOrderly s = true) (ended : EndsWord s) : EndsRun s := by
  intro c first
  obtain ⟨t, rfl⟩ := List.head?_eq_some_iff.mp first
  cases word : isWordCharacter c with
  | false => rfl
  | true => exact (orderly_wordCharacter orderly word).symm.trans (ended c rfl)

theorem afterGap_opens {r : List Char} (opens : afterGap s = some r) :
    (∃ c ∈ gapBlanks, s.head? = some c) ∨ (∃ t, s = '-' :: '-' :: t) ∨ ∃ t, s = '/' :: '*' :: t := by
  unfold afterGap at opens
  split at opens
  · exact .inl ⟨' ', by decide, rfl⟩
  · exact .inl ⟨'\t', by decide, rfl⟩
  · exact .inl ⟨'\r', by decide, rfl⟩
  · exact .inl ⟨'\n', by decide, rfl⟩
  · exact .inr (.inl ⟨_, rfl⟩)
  · exact .inr (.inr ⟨_, rfl⟩)
  · cases opens

theorem orderly_uncommented (orderly : pair.isOrderly s = true) (t : List Char) :
    s ≠ '-' :: '-' :: t ∧ s ≠ '/' :: '*' :: t := by
  constructor
  · rintro rfl
    have alone := (orderly_mark rfl rfl orderly).2.1
    rw [lexemes_mark rfl rfl] at alone
    cases alone
  · rintro rfl
    have alone := (orderly_mark rfl rfl orderly).2.1
    rw [lexemes_mark rfl rfl] at alone
    cases alone

theorem blank_apart {c : Char} (blank : isBlank c = true) :
    isNameCharacter c = false ∧ Nesting.isQuote c = false := by
  have each : blankCodes.all (fun code => !isNameCharacter (Char.ofNat code)
      && !Nesting.isQuote (Char.ofNat code)) = true := by
    decide +kernel
  refine blank_cases (P := fun c => isNameCharacter c = false ∧ Nesting.isQuote c = false)
    (fun code member => ?_) c blank
  simpa using List.all_eq_true.mp each code member

theorem orderly_blank {c : Char} (blank : isBlank c = true) (orderly : pair.isOrderly (c :: s) = true) :
    c ∈ gapBlanks ∧ pair.isOrderly s = true := by
  obtain ⟨outside, unquoted⟩ := blank_apart blank
  obtain ⟨listed, _, _, _, later⟩ :=
    orderly_mark (opensWord_of_not_word outside) unquoted orderly
  exact ⟨queryMark_blank listed blank, later⟩

theorem orderly_gaps (orderly : pair.isOrderly s = true) : skipGaps s = s.dropWhile isBlank := by
  induction s with
  | nil => rfl
  | cons c s ih =>
    by_cases blank : isBlank c = true
    · obtain ⟨listed, later⟩ := orderly_blank blank orderly
      rw [skipGaps_blank listed, List.dropWhile_cons_of_pos blank, ih later]
    · rw [List.dropWhile_cons_of_neg blank]
      refine skipGaps_of_none _ ?_
      cases opens : afterGap (c :: s) with
      | none => rfl
      | some r =>
        rcases afterGap_opens opens with ⟨d, listed, first⟩ | ⟨t, comment⟩ | ⟨t, comment⟩
        · cases first
          have every : gapBlanks.all isBlank = true := by decide
          exact absurd (List.all_eq_true.mp every c listed) blank
        · exact absurd comment (orderly_uncommented orderly t).1
        · exact absurd comment (orderly_uncommented orderly t).2

theorem orderly_blanks {g : List Char} (blank : ∀ c ∈ g, isBlank c = true)
    (orderly : pair.isOrderly (g ++ s) = true) :
    (∀ c ∈ g, c ∈ gapBlanks) ∧ pair.isOrderly s = true := by
  induction g with
  | nil => exact ⟨nofun, orderly⟩
  | cons c g ih =>
    obtain ⟨first, others⟩ := List.forall_mem_cons.mp blank
    obtain ⟨listed, later⟩ := orderly_blank first orderly
    obtain ⟨known, last⟩ := ih others later
    exact ⟨List.forall_mem_cons.mpr ⟨listed, known⟩, last⟩

theorem orderly_dropBlanks (orderly : pair.isOrderly s = true) :
    pair.isOrderly (s.dropWhile isBlank) = true := by
  rw [← List.takeWhile_append_dropWhile (p := isBlank) (l := s)] at orderly
  exact (orderly_blanks (fun c member => List.mem_takeWhile_imp member) orderly).2

theorem orderly_gap {g : List Char} (orderly : pair.isOrderly (g ++ s) = true) (gap : Gap g s) :
    (∀ c ∈ g, isBlank c = true) ∧ pair.isOrderly s = true := by
  have rest : (g ++ s).dropWhile isBlank = s := by rw [← orderly_gaps orderly]; exact gap
  have later := orderly_dropBlanks orderly
  rw [rest] at later
  refine ⟨fun c member => ?_, later⟩
  have split := List.takeWhile_append_dropWhile (p := isBlank) (l := g ++ s)
  rw [rest] at split
  rw [← List.append_cancel_right split] at member
  exact List.mem_takeWhile_imp member

theorem orderly_uncontinued (orderly : pair.isOrderly s = true) (stop : Uncontinued s) :
    Uncalled s ∧ Uncounted s := by
  have front : ∀ {c}, (s.dropWhile isBlank).head? = some c → c ≠ '(' ∧ c.isDigit = false := by
    intro c first
    rw [← orderly_gaps orderly] at first
    exact stop c first
  refine ⟨fun opened => (front opened).1 rfl, fun c first => ?_⟩
  cases digit : isPatternDigit c with
  | false => rfl
  | true =>
    have later := orderly_dropBlanks orderly
    obtain ⟨t, split⟩ := List.head?_eq_some_iff.mp first
    rw [split] at later
    have decimal : isDecimalDigit c = true := ((Bool.and_eq_true ..).mp digit).1
    have word := wordCharacter_of_digit digit
    -- a word begins with a letter or with one of the digits 0 to 9
    have apart : opensWord c = false := by
      have under : c ≠ '_' := by
        rintro rfl
        cases digit
      simp [opensWord, isNameStart, not_alphabetic_of_decimalDigit decimal, under, (front first).2]
    have unquoted : Nesting.isQuote c = false := by
      cases quote : Nesting.isQuote c with
      | false => rfl
      | true => exact word.symm.trans (quote_not_word quote)
    have mark := queryMark_not_word (orderly_mark apart unquoted later).1
    rw [word] at mark
    cases mark

theorem orderly_keyword {word : String} (capital : Capital word) (nonempty : word.toList ≠ [])
    {k : List Char} (same : k.map Char.toUpper = word.toList) (ended : EndsWord s)
    (orderly : pair.isOrderly (k ++ s) = true) :
    breaksLimit pair k ((lexemes s).filter fun lexeme => !lexeme.isBlankMark) = false
      ∧ pair.isOrderly s = true := by
  have letters := capital_letters capital same
  have opens : k.head?.any opensWord = true := by
    cases k with
    | nil => exact absurd same.symm nonempty
    | cons c k => simp [opensWord, nameStart_of_isAlpha c (letters c List.mem_cons_self)]
  exact (orderly_word opens (fun c member => nameCharacter_of_isAlpha c (letters c member)) ended
    orderly).2

theorem orderly_digits {ds : List Char} (digits : IsDigits ds) (stop : EndsDigits s)
    (orderly : pair.isOrderly (ds ++ s) = true) : EndsWord s ∧ pair.isOrderly s = true := by
  have opens : ds.head?.any opensWord = true := by
    cases ds with
    | nil => exact absurd rfl digits.nonempty
    | cons c ds => simp [opensWord, digits.inside c List.mem_cons_self]
  have letters : ∀ c ∈ ds, isNameCharacter c = true :=
    fun c member => nameCharacter_of_isDigit c (digits.inside c member)
  have ended : EndsWord s := by
    intro c first
    by_contra inside
    have named : isNameCharacter c = true := by simpa using inside
    obtain ⟨t, rfl⟩ := List.head?_eq_some_iff.mp first
    -- the number and what follows it are one lexeme, and that is not a number
    have split := List.takeWhile_append_dropWhile (p := isNameCharacter) (l := t)
    have later : EndsWord (t.dropWhile isNameCharacter) := by
      intro d found
      have stops := List.head?_dropWhile_not isNameCharacter t
      simpa [found] using stops
    have whole : ds ++ c :: t = (ds ++ c :: t.takeWhile isNameCharacter)
        ++ t.dropWhile isNameCharacter := by
      rw [List.append_assoc, List.cons_append, split]
    rw [whole] at orderly
    have shape := (orderly_word (by cases ds <;> simp_all) (fun d member => by
      rcases List.mem_append.mp member with member | member
      · exact letters d member
      rcases List.mem_cons.mp member with rfl | member
      · exact named
      · exact List.mem_takeWhile_imp member) later orderly).1
    have start : (ds ++ c :: t.takeWhile isNameCharacter).head?.any isNameStart = false := by
      cases ds with
      | nil => exact absurd rfl digits.nonempty
      | cons d ds => simp [not_nameStart_of_isDigit d (digits.inside d List.mem_cons_self)]
    have every := ((Bool.and_eq_true ..).mp shape).1
    rw [start, Bool.false_or] at every
    have digit := List.all_eq_true.mp every c (by simp)
    rw [stop c rfl] at digit
    cases digit
  exact ⟨ended, (orderly_word opens letters ended orderly).2.2⟩

end Orderly

/-! What an orderly text ends with. -/

theorem areOrderly_behind {pair : Pair} {rest : List Lexeme} (wrong : pair.areOrderly rest = false)
    (lexeme : Lexeme) : pair.areOrderly (lexeme :: rest) = false := by
  cases lexeme <;> simp [Pair.areOrderly, wrong]

theorem scan_semicolon (pair : Pair) (s : List Char) :
    pair.areOrderly (scan .code (s ++ [';'])) = false
      ∧ (∀ letters, pair.areOrderly (scan (.word letters) (s ++ [';'])) = false)
      ∧ ∀ q body, Nesting.isQuote q = true →
        pair.areOrderly (scan (.quoted q body) (s ++ [';'])) = false
          ∧ pair.areOrderly (scan (.closing q body) (s ++ [';'])) = false := by
  have stray : ∀ {c : Char}, queryMarks.contains c = false → pair.areOrderly [.mark c] = false := by
    intro c outside
    rw [Pair.areOrderly, outside]
    rfl
  induction s with
  | nil =>
    have last := stray (c := ';') (by decide)
    refine ⟨last, fun letters => areOrderly_behind last _, fun q body quote => ?_⟩
    have other : ';' ≠ q := by
      rintro rfl
      cases quote
    have outside : queryMarks.contains q = false := by
      rcases (by simpa [Nesting.isQuote, or_assoc] using quote :
        q = '\x27' ∨ q = '"' ∨ q = '\x60') with rfl | rfl | rfl <;> decide
    constructor
    · rw [List.nil_append, scan, if_neg other]
      exact areOrderly_behind (stray outside) _
    · rw [List.nil_append, scan, if_neg other]
      exact areOrderly_behind last _
  | cons c s ih =>
    obtain ⟨code, word, quoted⟩ := ih
    have next : pair.areOrderly ((start c).1 ++ scan (start c).2 (s ++ [';'])) = false := by
      rw [start]
      split
      · exact word [c]
      · split
        · next quote => exact (quoted c [] quote).1
        · exact areOrderly_behind code _
    refine ⟨next, fun letters => ?_, fun q body quote => ⟨?_, ?_⟩⟩
    · rw [List.cons_append, scan]
      split
      · exact word _
      · exact areOrderly_behind next _
    · rw [List.cons_append, scan]
      split
      · exact (quoted q body quote).2
      · exact (quoted q _ quote).1
    · rw [List.cons_append, scan]
      split
      · exact (quoted q _ quote).1
      · exact areOrderly_behind next _

theorem orderly_last {pair : Pair} {s : List Char} (orderly : pair.isOrderly s = true) {c : Char}
    (last : s.getLast? = some c) : c ≠ ';' := by
  rintro rfl
  obtain ⟨t, rfl⟩ := List.getLast?_eq_some_iff.mp last
  rw [Pair.isOrderly, lexemes, (scan_semicolon pair t).1] at orderly
  cases orderly

/-! Words, as names and as patterns know them. -/

def lastWord (k : List Char) : List Char := (k.reverse.takeWhile isWordCharacter).reverse

theorem lastWord_behind (k : List Char) {c : Char} (mark : isWordCharacter c = false) (v : List Char) :
    lastWord (k ++ c :: v) = lastWord v := by
  rw [lastWord, lastWord, List.reverse_append, List.reverse_cons, List.append_assoc,
    List.takeWhile_append]
  split
  · next all =>
    have whole := (List.takeWhile_prefix isWordCharacter).eq_of_length all
    simp [mark, whole]
  · rfl

theorem lastWord_word {v : List Char} (letters : ∀ c ∈ v, isWordCharacter c = true) :
    lastWord v = v := by
  rw [lastWord, List.takeWhile_eq_self_iff.mpr (by simpa using letters), List.reverse_reverse]

theorem looksStray_iff {v : List Char} :
    looksStray v = false ↔ ∀ word ∈ strayWords, ¬ Same v word := by
  simp [looksStray, Same]

theorem orderlyWord_free {k : List Char} (orderly : isOrderlyWord k = true)
    (other : ∀ word ∈ strayWords, k.map Char.toUpper ≠ word.toList) :
    ∀ v ∈ patternWords k, looksStray v = false := by
  rcases (Bool.or_eq_true ..).mp ((Bool.and_eq_true ..).mp orderly).2 with free | same
  · simpa using List.all_eq_true.mp free
  · obtain ⟨word, listed, same⟩ := List.any_eq_true.mp same
    exact absurd (beq_iff_eq.mp same) (other word listed)

theorem strayWord_capital {word : String} (listed : word ∈ strayWords) : IsCapitalWord word := by
  have capital : strayWords.all
      (fun word => !word.toList.isEmpty && word.toList.all isCapital) = true := by decide
  exact isCapitalWord_of_check (List.all_eq_true.mp capital word listed)

theorem strayWord_upper {word : String} (listed : word ∈ strayWords) : Capital word := by
  have upper : strayWords.all (fun word => word.toList.all Char.isUpper) = true := by decide
  exact List.all_eq_true.mp upper word listed

theorem same_of_upper {word : String} (capital : Capital word) {k : List Char}
    (same : k.map Char.toUpper = word.toList) : Same k word := by
  have lower : ∀ {t : List Char}, (∀ c ∈ t, c.isAlpha = true) → t.map foldCase = t.map Char.toLower :=
    fun letters => List.map_congr_left fun c member => foldCase_plain (plain_of_isAlpha (letters c member))
  rw [Same, lower (capital_letters capital same),
    lower (capital_letters capital (capital_upper capital)), ← same]
  simp

theorem unreserved_unlike {k : List Char} (free : isReserved (String.ofList k) = false) {word : String}
    (listed : word ∈ strayWords) (same : k.map Char.toUpper = word.toList) : False := by
  have reserved : strayWords.all (fun word => reservedWords.contains word) = true := by decide
  have known : word ∈ reservedWords := by simpa using List.all_eq_true.mp reserved word listed
  have upper := (strayWord_capital listed).upper
  refine Bool.false_ne_true (free.symm.trans ?_)
  refine List.any_eq_true.mpr ⟨word, known, ?_⟩
  simp [sameIgnoringCase, Text.upper, same, upper]

theorem isWord_opens {k : List Char} (shape : IsWord k) : k.head?.any opensWord = true := by
  obtain ⟨c, first, start⟩ := shape.start
  simp [first, opensWord, start]

theorem mark_apart {c : Char} (mark : isMark c = true) :
    opensWord c = false ∧ Nesting.isQuote c = false ∧ isWordCharacter c = false := by
  simp only [isMark, isSolid, isOrdinary, Bool.and_eq_true, Bool.not_eq_true', Bool.or_eq_false_iff]
    at mark
  obtain ⟨⟨⟨⟨⟨unquoted, _⟩, _⟩, _⟩, _⟩, outside, start⟩ := mark
  refine ⟨?_, unquoted, outside⟩
  cases digit : c.isDigit with
  | false => simp [opensWord, start, digit]
  | true =>
    rw [wordCharacter_of_plain (plain_of_isDigit digit)] at outside
    cases outside

section Passing

variable {f : List Char → List Char} {starts : List String} {calls : Bool}
  (steps : Steps f starts calls)
include steps

theorem passes_word {u : List Char} (letters : ∀ d ∈ u, isWordCharacter d = true)
    (free : looksStray u = false) {c : Char} (mark : isWordCharacter c = false)
    (named : isNameCharacter c = true) (s : List Char) : f (u ++ c :: s) = u ++ c :: f s := by
  have solid : isBlank c = false := by
    cases blank : isBlank c with
    | false => rfl
    | true => exact named.symm.trans (blank_apart blank).1
  have unquoted : Nesting.isQuote c = false := by
    have ordinary := ordinary_nameCharacter named
    simp only [isOrdinary, Bool.and_eq_true, Bool.not_eq_true'] at ordinary
    exact ordinary.1.1.1
  by_cases empty : u = []
  · rw [empty, List.nil_append, List.nil_append, steps.mark mark unquoted]
  have next : ((c :: s).dropWhile isBlank).head? = some c := by
    rw [List.dropWhile_cons_of_neg (by simp [solid])]
    rfl
  have inert : Inert calls u (c :: s) :=
    { letters := ⟨empty, letters⟩
      ended := endsRun_cons mark _
      uncalled := by
        rintro - opened
        cases next.symm.trans opened
        cases named
      other := looksStray_iff.mp free
      uncounted := by
        intro word listed same d found
        cases next.symm.trans found
        cases digit : isPatternDigit c with
        | false => rfl
        | true => exact (wordCharacter_of_digit digit).symm.trans mark }
  rw [steps.inert inert, steps.mark mark unquoted]

theorem passes_front {k : List Char} (inside : ∀ c ∈ k, isNameCharacter c = true)
    (free : ∀ v ∈ patternWords k, looksStray v = false) :
    ∃ front, k = front ++ lastWord k ∧ (∀ c ∈ lastWord k, isWordCharacter c = true)
      ∧ looksStray (lastWord k) = false ∧ ∀ s, f (front ++ s) = front ++ f s := by
  induction size : k.length using Nat.strong_induction_on generalizing k with
  | _ n ih =>
    by_cases letters : ∀ c ∈ k, isWordCharacter c = true
    · have words : patternWords k = [k] := List.splitOnP_eq_singleton (by simpa using letters)
      rw [lastWord_word letters]
      exact ⟨[], rfl, letters, free k (by simp [words]), fun s => rfl⟩
    -- a word in front of a character that ends it, and the rest of the name
    have split := List.takeWhile_append_dropWhile (p := isWordCharacter) (l := k)
    have first : ∀ c ∈ k.takeWhile isWordCharacter, isWordCharacter c = true :=
      fun c member => List.mem_takeWhile_imp member
    cases rest : k.dropWhile isWordCharacter with
    | nil =>
      rw [rest, List.append_nil] at split
      rw [split] at first
      exact absurd first letters
    | cons c more =>
      rw [rest] at split
      have mark : isWordCharacter c = false := by
        have stop := List.head?_dropWhile_not isWordCharacter k
        simpa [rest] using stop
      generalize k.takeWhile isWordCharacter = u at split first
      subst split
      have named : isNameCharacter c = true := inside c (by simp)
      have words : patternWords (u ++ c :: more) = u :: patternWords more :=
        List.splitOnP_append_cons_of_forall_mem (by simpa using first) c (by simpa using mark) more
      rw [words] at free
      obtain ⟨front, whole, last, unlike, passed⟩ := ih more.length
        (by rw [← size, List.length_append, List.length_cons]; omega)
        (fun d member => inside d (by simp [member])) (fun v member => free v (.tail u member)) rfl
      refine ⟨u ++ c :: front, ?_, ?_, ?_, fun s => ?_⟩
      · rw [lastWord_behind u mark, List.append_assoc, List.cons_append, ← whole]
      · rwa [lastWord_behind u mark]
      · rwa [lastWord_behind u mark]
      · rw [List.append_assoc, List.cons_append,
          passes_word steps first (free u List.mem_cons_self) mark named, passed]
        simp

end Passing

/-! Quoted names. -/

def Unnamed (s : List Char) : Prop := ∀ c, s.head? = some c → c ∉ nameQuotes

theorem Steps.unnamed {f : List Char → List Char} {starts : List String} {calls : Bool}
    (steps : Steps f starts calls) {s : List Char} (unnamed : Unnamed s) : Unnamed (f s) := by
  intro d first
  obtain ⟨c, begins, rfl | ⟨_, upper⟩ | ⟨quote, _⟩⟩ := steps.head first
  · exact unnamed d begins
  · exact not_mem_of_all upper rfl
  · exact absurd quote (unnamed c begins)

section Rules

variable {rules : List TextRule}
  (seeking : ∀ rule ∈ rules, ∃ p write starts calls,
    rule.run = outsideLiterals (p.replaceAll write) ∧ Seeking p write starts calls)
include seeking

theorem runAll_unnamed {s : List Char} (unnamed : Unnamed s) :
    Unnamed (TextRule.runAll rules s) := by
  induction rules generalizing s with
  | nil => exact unnamed
  | cons rule rules ih =>
    obtain ⟨p, write, starts, calls, run, seeks⟩ := seeking rule List.mem_cons_self
    have steps := seeks.steps
    rw [← run] at steps
    rw [TextRule.runAll_cons]
    exact ih (fun found listed => seeking found (.tail rule listed)) (steps.unnamed unnamed)

theorem runAll_name {q : Char} (known : q ∈ nameQuotes) {body : List Char}
    (code : '\x27' ∉ body) (kept : ∀ rule ∈ rules, rule.run (enclose q body) = enclose q body)
    (s : List Char) :
    TextRule.runAll rules (enclose q body ++ s)
      = enclose q body ++ TextRule.runAll rules s := by
  induction rules generalizing s with
  | nil => rfl
  | cons rule rules ih =>
    obtain ⟨p, write, starts, calls, run, seeks⟩ := seeking rule List.mem_cons_self
    have same := kept rule List.mem_cons_self
    rw [show rule.run (enclose q body) = _ from congrFun run _] at same
    have first : rule.run (enclose q body ++ s) = enclose q body ++ rule.run s := by
      rw [show rule.run (enclose q body ++ s) = _ from congrFun run _, seeks.name known code same,
        show rule.run s = _ from congrFun run _]
    rw [TextRule.runAll_cons, TextRule.runAll_cons, first]
    exact ih (fun found listed => seeking found (.tail rule listed))
      (fun found listed => kept found (.tail rule listed)) _

end Rules

def Pair.requoted (pair : Pair) (q : Char) : Char :=
  if pair.source.quote = pair.target.quote then q
  else if q = pair.source.quote then pair.target.quote else q

theorem requoted_known (pair : Pair) {q : Char} (known : q ∈ nameQuotes) :
    pair.requoted q ∈ nameQuotes := by
  rw [Pair.requoted]
  split
  · exact known
  · split
    · exact quote_nameQuote pair.target
    · exact known

theorem quotes_name {pair : Pair} {q : Char} (known : q ∈ nameQuotes) {body : List Char}
    (code : '\x27' ∉ body)
    (foreign : q = pair.source.quote ∨ pair.source.quote = pair.target.quote
      ∨ pair.source.quote ∉ body) {s : List Char} (closed : s.head? ≠ some q) :
    TextRule.runAll (TextRule.quotes pair) (enclose q body ++ s)
      = enclose (pair.requoted q) body ++ TextRule.runAll (TextRule.quotes pair) s := by
  rw [TextRule.quotes, Pair.requoted]
  split
  · rfl
  · next other =>
    rw [TextRule.runAll_one, TextRule.runAll_one]
    refine requote_name (quote_nameQuote pair.source) known code ?_ closed
    rcases foreign with own | same | free
    · exact .inl own
    · exact absurd same other
    · exact .inr free

section Converted

variable {pair : Pair} (source : pair.source = .mysql ∨ pair.source = .postgresql)
  (different : pair.target ≠ pair.source)
include source

theorem wordRule_seeking {rule : TextRule}
    (listed : rule ∈ TextRule.renames pair ++ TextRule.rowLimits pair ++ TextRule.operators pair) :
    ∃ p write starts calls, rule.run = outsideLiterals (p.replaceAll write)
      ∧ Seeking p write starts calls := by
  rw [List.append_assoc] at listed
  rcases List.mem_append.mp listed with listed | listed
  · obtain ⟨mapping, member, made⟩ := List.mem_filterMap.mp listed
    obtain ⟨target, found, rfl⟩ := Option.map_eq_some_iff.mp made
    obtain ⟨renameable, capital⟩ := inTurn_listed (table_inTurn source) member
    obtain ⟨p, write, run, seeking⟩ := rename_seeking renameable (capital target found)
    exact ⟨p, write, _, _, run, seeking⟩
  rcases List.mem_append.mp listed with listed | listed
  · obtain ⟨p, write, starts, run, seeking, _⟩ := rowLimit_seeking listed
    exact ⟨p, write, starts, _, run, seeking⟩
  · obtain ⟨p, write, run, seeking⟩ := operator_seeking listed
    exact ⟨p, write, _, _, run, seeking⟩

omit source in
theorem keepsName_kept {q : Char} {body : List Char} (keeps : pair.keepsName q body = true) :
    '\x27' ∉ body
      ∧ (q = pair.source.quote ∨ pair.source.quote = pair.target.quote ∨ pair.source.quote ∉ body)
      ∧ ∀ quote ∈ nameQuotes, ∀ rule ∈ TextRule.renames pair ++ TextRule.rowLimits pair
        ++ TextRule.operators pair, rule.run (enclose quote body) = enclose quote body := by
  simp only [Pair.keepsName, Bool.and_eq_true] at keeps
  obtain ⟨⟨code, foreign⟩, kept⟩ := keeps
  refine ⟨by simpa using code, by simpa [or_assoc] using foreign, fun quote known rule listed => ?_⟩
  exact beq_iff_eq.mp (List.all_eq_true.mp (List.all_eq_true.mp kept quote known) rule listed)

include different

theorem converted_name {q : Char} (known : q ∈ nameQuotes) {body : List Char}
    (keeps : pair.keepsName q body = true) {s : List Char} (unnamed : Unnamed s) :
    pair.converted (enclose q body ++ s) = enclose (pair.requoted q) body ++ pair.converted s := by
  obtain ⟨code, foreign, kept⟩ := keepsName_kept keeps
  have split : ∀ s, pair.converted s = TextRule.runAll (TextRule.operators pair)
      (TextRule.runAll (TextRule.quotes pair)
        (TextRule.runAll (TextRule.renames pair ++ TextRule.rowLimits pair) s)) := by
    intro s
    rw [Pair.converted, pipeline_rules source different, ← List.append_assoc,
      TextRule.runAll_append _ (TextRule.quotes pair ++ TextRule.operators pair),
      TextRule.runAll_append (TextRule.quotes pair)]
  have early : ∀ rule ∈ TextRule.renames pair ++ TextRule.rowLimits pair, rule ∈
      TextRule.renames pair ++ TextRule.rowLimits pair ++ TextRule.operators pair :=
    fun rule listed => List.mem_append_left _ listed
  have late : ∀ rule ∈ TextRule.operators pair, rule ∈
      TextRule.renames pair ++ TextRule.rowLimits pair ++ TextRule.operators pair :=
    fun rule listed => List.mem_append_right _ listed
  have seeking := fun rule listed => @wordRule_seeking _ source rule listed
  have outside := runAll_unnamed (fun rule listed => seeking rule (early rule listed)) unnamed
  rw [split, split, runAll_name (fun rule listed => seeking rule (early rule listed)) known code
      (fun rule listed => kept q known rule (early rule listed)),
    quotes_name known code foreign (fun first => outside q first known),
    runAll_name (fun rule listed => seeking rule (late rule listed)) (requoted_known pair known) code
      (fun rule listed => kept _ (requoted_known pair known) rule (late rule listed))]

/-! The lexemes of an orderly text. -/

theorem converted_solid {s : List Char} (orderly : pair.isOrderly s = true)
    (solid : afterGap s = none) : afterGap (pair.converted s) = none := by
  have steps := converted_steps source different
  have first : ∀ {s : List Char} {c : Char}, (pair.converted s).head? = some c → c ∈ gapMarks ++ ['*'] →
      s.head? = some c := by
    intro s c first listed
    have marks : (gapMarks ++ ['*']).all (fun c => !isWordCharacter c && !nameQuotes.contains c)
        = true := by decide
    have apart := List.all_eq_true.mp marks c listed
    simp only [Bool.and_eq_true, Bool.not_eq_true'] at apart
    exact steps.head_mark first apart.1 (by simpa using apart.2)
  cases opens : afterGap (pair.converted s) with
  | none => rfl
  | some r =>
    exfalso
    rcases afterGap_opens opens with ⟨c, listed, begins⟩ | ⟨t, comment⟩ | ⟨t, comment⟩
    · obtain ⟨t, rfl⟩ := List.head?_eq_some_iff.mp
        (first begins (List.mem_append_left _ (mem_gapMarks listed)))
      simp only [gapBlanks, List.mem_cons, List.not_mem_nil, or_false] at listed
      rcases listed with rfl | rfl | rfl | rfl <;> cases solid
    · obtain ⟨u, rfl⟩ := List.head?_eq_some_iff.mp (first (by rw [comment]; rfl) (by decide))
      rw [steps.mark rfl rfl] at comment
      have next := first (by rw [(List.cons.inj comment).2]; rfl) (by decide)
      obtain ⟨v, rfl⟩ := List.head?_eq_some_iff.mp next
      exact (orderly_uncommented orderly v).1 rfl
    · obtain ⟨u, rfl⟩ := List.head?_eq_some_iff.mp (first (by rw [comment]; rfl) (by decide))
      rw [steps.mark rfl rfl] at comment
      have next := first (by rw [(List.cons.inj comment).2]; rfl) (by decide)
      obtain ⟨v, rfl⟩ := List.head?_eq_some_iff.mp next
      exact (orderly_uncommented orderly v).2 rfl

theorem converted_gap {s : List Char} (orderly : pair.isOrderly s = true) :
    skipGaps (pair.converted s) = pair.converted (skipGaps s) := by
  have steps := converted_steps source different
  induction s with
  | nil => exact (congrArg skipGaps steps.nil).trans steps.nil.symm
  | cons c s ih =>
    cases blank : isBlank c with
    | true =>
      obtain ⟨listed, later⟩ := orderly_blank blank orderly
      rw [steps.blank blank, skipGaps_blank listed, skipGaps_blank listed, ih later]
    | false =>
      have whole : skipGaps (c :: s) = c :: s := by
        rw [orderly_gaps orderly, List.dropWhile_cons_of_neg (by simp [blank])]
      have solid := converted_solid source different orderly (whole ▸ afterGap_skipGaps (c :: s))
      rw [whole, skipGaps_of_none _ solid]

theorem converted_alike {s : List Char} (orderly : pair.isOrderly s = true) :
    BeginsAlike s (pair.converted s) := by
  intro d first
  obtain ⟨c, begins, rfl | ⟨word, upper⟩ | ⟨quote, known⟩⟩ :=
    (converted_steps source different).head first
  · exact .inl begins
  · obtain ⟨t, rfl⟩ := List.head?_eq_some_iff.mp begins
    exact .inr (.inr (.inl ⟨nameStart_of_isAlpha d (by simp [Char.isAlpha, upper]), c, rfl,
      orderly_wordCharacter orderly word⟩))
  · exact .inr (.inr (.inr ⟨known, c, quote, begins⟩))

omit different in
theorem ruleWord_capital {start : String} (listed : start ∈ pair.ruleWords) : IsCapitalWord start := by
  rcases List.mem_append.mp listed with listed | listed
  · obtain ⟨mapping, member, rfl⟩ := List.mem_map.mp listed
    exact (inTurn_listed (table_inTurn source) member).1.capital
  · have capital : limitWords.all
        (fun word => !word.toList.isEmpty && word.toList.all isCapital) = true := by decide
    exact isCapitalWord_of_check (List.all_eq_true.mp capital start listed)

theorem converted_keyword {word : String} (capital : Capital word) (apart : word ∉ pair.ruleWords)
    {k s : List Char} (nonempty : k ≠ []) (same : k.map Char.toUpper = word.toList) (ended : EndsRun s) :
    pair.converted (k ++ s) = k ++ pair.converted s := by
  have letters := capital_letters capital same
  have run : IsRun (String.ofList k).toList := by
    rw [String.toList_ofList]
    exact ⟨nonempty, fun c member => plain_of_isAlpha (letters c member)⟩
  refine (converted_steps source different).other (by simpa using run.word) ended
    fun start listed looks => apart ?_
  rw [← String.toList_ofList (l := k)] at looks
  have upper := (same_iff run (ruleWord_capital source listed)).mp looks
  rw [Text.upper, String.toList_ofList, same, String.ofList_toList] at upper
  rwa [upper]

omit source different in
theorem queryWords_apart {word : String} (listed : word ∈ Change.queryWords) : word ∉ pair.ruleWords := by
  have apart : Change.queryWords.all (fun word => !pair.ruleWords.contains word) = true := by
    obtain ⟨source, target⟩ := pair
    cases source <;> cases target <;> decide +kernel
  simpa using List.all_eq_true.mp apart word listed

theorem converted_plain {k s : List Char} (inside : ∀ c ∈ k, isNameCharacter c = true)
    (free : ∀ v ∈ patternWords k, looksStray v = false) (orderly : pair.isOrderly s = true)
    (ended : EndsWord s) (stop : Uncontinued s) :
    pair.converted (k ++ s) = k ++ pair.converted s := by
  have steps := converted_steps source different
  obtain ⟨front, whole, letters, unlike, passed⟩ := passes_front steps inside free
  obtain ⟨uncalled, uncounted⟩ := orderly_uncontinued orderly stop
  have last : pair.converted (lastWord k ++ s) = lastWord k ++ pair.converted s := by
    by_cases empty : lastWord k = []
    · rw [empty]
      rfl
    exact steps.inert
      { letters := ⟨empty, letters⟩
        ended := orderly_endsRun orderly ended
        uncalled := fun _ => uncalled
        other := looksStray_iff.mp unlike
        uncounted := fun _ _ _ => uncounted }
  generalize lastWord k = v at whole last
  rw [whole, List.append_assoc, passed, last, List.append_assoc]

theorem converts_keeping : Keeping Change.queryWords Uncontinued pair.Converts where
  gap := by
    rintro s w ⟨orderly, rfl⟩
    refine ⟨?_, converted_gap source different orderly⟩
    rw [orderly_gaps orderly]
    exact orderly_dropBlanks orderly
  ended := by
    rintro w ⟨_, rfl⟩ _
    exact (converted_steps source different).nil
  begins := by
    rintro s w ⟨orderly, rfl⟩
    exact converted_alike source different orderly
  mark := by
    rintro c s w ⟨orderly, rfl⟩ mark
    obtain ⟨apart, unquoted, outside⟩ := mark_apart mark
    exact ⟨_, (converted_steps source different).mark outside unquoted s,
      (orderly_mark apart unquoted orderly).2.2.2.2, rfl⟩
  sign := by
    rintro c s w ⟨orderly, rfl⟩ sign _ _
    rcases sign with rfl | rfl
    · exact ⟨_, (converted_steps source different).mark rfl rfl s,
        (orderly_mark rfl rfl orderly).2.2.2.2, rfl⟩
    · exact ⟨_, (converted_steps source different).mark rfl rfl s,
        (orderly_mark rfl rfl orderly).2.2.2.2, rfl⟩
  digits := by
    rintro ds s w ⟨orderly, rfl⟩ inside stop
    by_cases empty : ds = []
    · subst empty
      exact ⟨_, rfl, orderly, rfl⟩
    have digits : IsDigits ds := ⟨empty, inside⟩
    obtain ⟨ended, later⟩ := orderly_digits digits stop orderly
    refine ⟨_, ?_, later, rfl⟩
    exact (converted_steps source different).other (digits_run digits).word
      (orderly_endsRun later ended) fun start listed =>
        digits_not_same digits (ruleWord_capital source listed)
  keyword := by
    rintro word k s w ⟨orderly, rfl⟩ listed same ended
    have shape : Change.queryWords.all (fun word => word.toList.all Char.isUpper && !word.toList.isEmpty)
        = true := by decide
    have capital := List.all_eq_true.mp shape word listed
    simp only [Bool.and_eq_true, Bool.not_eq_true', List.isEmpty_eq_false_iff] at capital
    have later := (orderly_keyword capital.1 capital.2 same ended orderly).2
    have nonempty : k ≠ [] := by
      rintro rfl
      exact capital.2 same.symm
    exact ⟨_, converted_keyword source different capital.1 (queryWords_apart listed) nonempty same
      (orderly_endsRun later ended), later, rfl⟩
  plain := by
    rintro k s w ⟨orderly, rfl⟩ shape free ended stop
    obtain ⟨word, _, later⟩ := orderly_word (isWord_opens shape) shape.inside ended orderly
    exact ⟨_, converted_plain source different shape.inside
      (orderlyWord_free word fun stray listed same => unreserved_unlike free listed same) later ended
      stop, later, rfl⟩
  bound := by
    rintro k s w ⟨orderly, rfl⟩ shape ended stop
    obtain ⟨_, _, _, unbound, named⟩ := orderly_mark rfl rfl orderly
    obtain ⟨word, _, later⟩ := orderly_word (isWord_opens shape) shape.inside ended named
    rw [lexemes_word (isWord_opens shape) shape.inside ended] at unbound
    have unlike : looksStray k = false := unbound
    have passed := converted_plain source different shape.inside
      (orderlyWord_free word fun stray listed same =>
        looksStray_iff.mp unlike stray listed (same_of_upper (strayWord_upper listed) same)) later ended
      stop
    exact ⟨_, by rw [(converted_steps source different).mark rfl rfl, passed], later, rfl⟩
  literal := by
    rintro body s w ⟨orderly, rfl⟩ closed
    exact ⟨_, (converted_steps source different).literal body s, (orderly_quoted rfl closed orderly).2,
      rfl⟩
  name := by
    rintro q body s w ⟨orderly, rfl⟩ either closed
    have known : q ∈ nameQuotes := List.mem_pair.mpr either
    have quote := nameQuote_quote known
    obtain ⟨literal | ⟨keeps, alone⟩, later⟩ := orderly_quoted quote closed orderly
    · subst literal
      cases either with
      | inl wrong => cases wrong
      | inr wrong => cases wrong
    have unnamed : Unnamed s := by
      intro c first member
      obtain ⟨t, rfl⟩ := List.head?_eq_some_iff.mp first
      obtain ⟨inner, found⟩ := lexemes_quote (nameQuote_quote member) t
      rw [found] at alone
      simp [isName, member] at alone
    refine ⟨_, _, List.mem_pair.mp (requoted_known pair known),
      converted_name source different known keeps unnamed, fun first => ?_, later, rfl⟩
    exact (converted_steps source different).unnamed unnamed _ first (requoted_known pair known)

end Converted

end SqlDialects
