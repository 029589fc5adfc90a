import SqlDialects.Proofs.Rules.TextRules

/-
The rules for reserved words. Names are never reserved, so these rules act on the row limit or on
`ILIKE` and nowhere else. Requoting finds no quotes in plain text.
-/
namespace SqlDialects

open Text Pattern Reader

def noName : String → Option String := fun _ => none

theorem word_rewrites {g : List Char → List Char} {change : BinaryOp → BinaryOp}
    (mark : ∀ c ∈ marks, ∀ s, g (c :: s) = c :: g s)
    (literal : ∀ body s, g (enclose '\x27' body ++ s) = enclose '\x27' body ++ g s)
    (keyword : ∀ word ∈ queryWords, ∀ s, EndsRun s → g (word.toList ++ s) = word.toList ++ g s)
    (digits : ∀ ds s, IsDigits ds → EndsRun s → g (ds ++ s) = ds ++ g s)
    (name : ∀ w s, IsRun w.toList → isReserved w = false → EndsRun s →
      g (w.toList ++ s) = w.toList ++ g s)
    (operator : ∀ op s, g (op.toSql.toList ++ ' ' :: s) = (change op).toSql.toList ++ ' ' :: g s) :
    Rewrites g noName change := by
  have called : ∀ w s, IsRun w.toList → isReserved w = false →
      g (w.toList ++ '(' :: s) = w.toList ++ '(' :: g s := by
    intro w s run free
    rw [name w _ run free (endsRun_cons rfl s), mark '(' (by simp [marks])]
  exact
    { mark
      literal
      keyword
      digits
      name := fun w s run free stops => name w s run free stops.ended
      uncalled := fun _ _ => rfl
      empty := fun w s run free => by
        rw [called w _ run free, mark ')' (by simp [marks]), rewrite_call]
        simp [Call.renamed, noName, written_call]
      filled := fun w s run free _ => called w s run free
      operator }

/-! Patterns of reserved words. -/

section Reserved

variable {p : Pattern} {starts : List String} (begins : BeginsWith p starts)
  (reserved : ∀ word ∈ starts, word ∈ reservedWords)
  (apart : ∀ word ∈ starts, word ∉ queryWords ++ operatorWords) {write : Match → List Char}
include begins reserved apart

omit apart in
theorem reserved_name {w : String} {s : List Char} (run : IsRun w.toList)
    (free : isReserved w = false) (ended : EndsRun s) :
    outsideLiterals (p.replaceAll write) (w.toList ++ s)
      = w.toList ++ outsideLiterals (p.replaceAll write) s := by
  refine outside_other begins run.word ended fun start listed same => ?_
  have capital := begins.capital start listed
  have upper := (same_iff run capital).mp same
  have found : isReserved w = true := by
    refine List.any_eq_true.mpr ⟨start, reserved start listed, ?_⟩
    rw [sameIgnoringCase, upper, Text.upper, capital.upper, String.ofList_toList]
    exact beq_self_eq_true start
  rw [free] at found
  cases found

theorem reserved_rewrites {change : BinaryOp → BinaryOp}
    (others : ∀ op, op ≠ .ilike → change op = op)
    (ilike : ∀ s, outsideLiterals (p.replaceAll write) ("ILIKE".toList ++ ' ' :: s)
      = (change .ilike).toSql.toList ++ ' ' :: outsideLiterals (p.replaceAll write) s) :
    Rewrites (outsideLiterals (p.replaceAll write)) noName change := by
  have word : ∀ word ∈ queryWords ++ operatorWords, ∀ s, EndsRun s →
      outsideLiterals (p.replaceAll write) (word.toList ++ s)
        = word.toList ++ outsideLiterals (p.replaceAll write) s := by
    intro word listed s ended
    exact outside_capital begins (canonicalWord (by
      rcases List.mem_append.mp listed with listed | listed <;> simp [canonicalWords, listed]))
      (fun start => apart word start listed) ended
  exact word_rewrites (fun c listed s => outside_mark begins listed s) (outside_literal begins)
    (fun name listed => word name (by simp [listed]))
    (fun ds s shape ended => outside_digits begins shape ended)
    (fun w s run free ended => reserved_name begins reserved run free ended)
    (operators_rewritten (fun c listed s => outside_mark begins listed s)
      (fun name listed => word name (by simp [listed])) others ilike)

theorem reserved_keeps (other : "ILIKE" ∉ starts) :
    Rewrites (outsideLiterals (p.replaceAll write)) noName id := by
  refine reserved_rewrites begins reserved apart (fun op _ => rfl) fun s => ?_
  rw [outside_capital begins (canonicalWord (by simp [canonicalWords])) other (endsRun_cons rfl s),
    outside_mark begins (by simp [marks])]
  rfl

end Reserved

/-! Quotes. -/

theorem requoteFrom_literal {source target : Char} (body s : List Char) :
    (requoteFrom source target .code (enclose '\x27' body ++ s)).1
      = enclose '\x27' body ++ (requoteFrom source target .code s).1 := by
  have inside : (requoteFrom source target .literal (double '\x27' body ++ '\x27' :: s)).1
      = double '\x27' body ++ '\x27' :: (requoteFrom source target .code s).1 := by
    induction body with
    | nil => simp [double, requoteFrom]
    | cons c body ih =>
      by_cases quote : c = '\x27'
      · simp [double, requoteFrom, quote, ih]
      · simp [double, requoteFrom, quote, ih]
  simp [enclose, requoteFrom, inside]

theorem requote_rewrites {source target : Char} (apostrophe : source ≠ '\x27')
    (foreign : source ∉ marks ∧ isPlain source = false) :
    Rewrites (fun s => (requote source target s).1) noName id := by
  have plain : ∀ {w : List Char}, IsRun w → ∀ s,
      (requote source target (w ++ s)).1 = w ++ (requote source target s).1 := by
    intro w run s
    rw [requote, requoteFrom_plain fun c member => ⟨word_code run.word c member, ?_⟩]
    · rfl
    · rintro rfl
      rw [run.inside _ member] at foreign
      cases foreign.2
  have mark : ∀ c ∈ marks, ∀ s,
      (requote source target (c :: s)).1 = c :: (requote source target s).1 := by
    intro c listed s
    have other : c ≠ '\x27' ∧ c ≠ source := by
      constructor
      · rintro rfl
        simp [marks] at listed
      · rintro rfl
        exact foreign.1 listed
    have step := @requoteFrom_plain _ target [c] (by simpa using other) s
    exact congrArg Prod.fst step
  have word : ∀ word ∈ canonicalWords, ∀ s,
      (requote source target (word.toList ++ s)).1 = word.toList ++ (requote source target s).1 :=
    fun word listed s => plain (canonicalWord listed).run s
  refine word_rewrites mark requoteFrom_literal
    (fun name listed s _ => word name (by simp [canonicalWords, listed]) s)
    (fun ds s shape _ => plain (digits_run shape) s) (fun w s run _ _ => plain run s)
    (operators_rewritten (g := fun s => (requote source target s).1) mark
      (fun name listed s _ => word name (by simp [canonicalWords, listed]) s)
      (fun op _ => (rfl : id op = op)) fun s => ?_)
  rw [word "ILIKE" (by simp [canonicalWords]), mark ' ' (by simp [marks])]
  rfl

/-! Row limits that are left alone. -/

inductive PageLexeme where
  | word (word : String)
  | count (n : UInt64)

def PageLexeme.written : PageLexeme → List Char
  | .word name => ' ' :: name.toList
  | .count n => countWritten n

def Page.lexemes (page : Page) : List PageLexeme :=
  let offset (rows : List PageLexeme) : List PageLexeme :=
    match page.offset with
    | some m => .word "OFFSET" :: .count m :: rows
    | none => []
  match page.limit with
  | some n => .word "LIMIT" :: .count n :: offset []
  | none =>
    offset (if page.fetch.isSome || page.offsetRows then [.word "ROWS"] else [])
      ++ match page.fetch with
        | some n => [.word "FETCH", .word "FIRST", .count n, .word "ROWS", .word "ONLY"]
        | none => []

theorem lexemes_written (page : Page) : page.lexemes.flatMap PageLexeme.written = page.written := by
  obtain ⟨limit, offset, fetch, rows⟩ := page
  cases limit <;> cases offset <;> cases fetch <;> cases rows <;>
    simp [Page.lexemes, Page.written, limitWritten, offsetWritten, fetchWritten, PageLexeme.written]

theorem lexemes_words {page : Page} {word : String} (listed : .word word ∈ page.lexemes) :
    word ∈ pageWords := by
  obtain ⟨limit, offset, fetch, rows⟩ := page
  cases limit <;> cases offset <;> cases fetch <;> cases rows <;>
    simp [Page.lexemes, pageWords] at listed ⊢ <;> grind

theorem lexemes_ended (lexemes : List PageLexeme) :
    EndsRun (lexemes.flatMap PageLexeme.written) := by
  cases lexemes with
  | nil => exact endsRun_nil
  | cons lexeme lexemes => cases lexeme <;> exact endsRun_cons rfl _

theorem lexemes_rewritten {g : List Char → List Char} {new? : String → Option String}
    {change : BinaryOp → BinaryOp} (rewrites : Rewrites g new? change) (nothing : g [] = [])
    {lexemes : List PageLexeme}
    (word : ∀ word rest, .word word :: rest <:+ lexemes →
      g (word.toList ++ rest.flatMap PageLexeme.written)
        = word.toList ++ g (rest.flatMap PageLexeme.written)) :
    g (lexemes.flatMap PageLexeme.written) = lexemes.flatMap PageLexeme.written := by
  induction lexemes with
  | nil => exact nothing
  | cons lexeme lexemes ih =>
    have later := ih fun found rest inside => word found rest (inside.trans (List.suffix_cons _ _))
    rw [List.flatMap_cons]
    cases lexeme with
    | word name =>
      have first := word name lexemes (List.suffix_refl _)
      rw [PageLexeme.written, List.cons_append, rewrites.blank, first, later]
    | count n =>
      rw [PageLexeme.written, countWritten, List.cons_append, rewrites.blank,
        rewrites.digits _ _ (count_digits n) (lexemes_ended lexemes), later]

/-- A rule for reserved words leaves a row limit alone if none of them is found there. -/
theorem page_kept {p : Pattern} {starts : List String} (begins : BeginsWith p starts)
    {write : Match → List Char} {new? : String → Option String} {change : BinaryOp → BinaryOp}
    (rewrites : Rewrites (outsideLiterals (p.replaceAll write)) new? change) {page : Page}
    (fails : ∀ word ∈ starts, ∀ rest, .word word :: rest <:+ page.lexemes →
      p.matchAt? none (word.toList ++ leadingCode (rest.flatMap PageLexeme.written)) = none) :
    outsideLiterals (p.replaceAll write) page.written = page.written := by
  rw [← lexemes_written]
  refine lexemes_rewritten rewrites (outside_nil begins) fun word rest inside => ?_
  have capital := @canonicalWord word (by
    simp [canonicalWords, lexemes_words (inside.subset List.mem_cons_self)])
  by_cases start : word ∈ starts
  · exact outside_word begins capital.run.word (lexemes_ended rest) (fails word start rest inside)
  · exact outside_capital begins capital start (lexemes_ended rest)

/-! Parts of a pattern that are not found. -/

theorem sequence_needs {p : Pattern} {test : Char → Prop}
    (needs : ∀ cursor, ∀ x ∈ p.ends cursor, ∃ c ∈ cursor.rest, test c) (before after : List Pattern)
    (cursor : Cursor) :
    ∀ x ∈ (sequence (before ++ p :: after)).ends cursor, ∃ c ∈ cursor.rest, test c := by
  intro x found
  induction before generalizing cursor with
  | nil =>
    obtain ⟨y, inside, _⟩ := mem_seq found
    exact needs cursor y inside
  | cons q before ih =>
    obtain ⟨y, first, later⟩ := mem_seq found
    obtain ⟨c, member, passed⟩ := ih y later
    exact ⟨c, (ends_suffix q first).subset member, passed⟩

theorem char_needs (c : Char) (cursor : Cursor) :
    ∀ x ∈ (Pattern.char c).ends cursor, ∃ d ∈ cursor.rest, foldCase d = foldCase c := by
  intro x found
  obtain ⟨d, same, split, _⟩ := mem_takeOne found
  exact ⟨d, by simp [split], congrArg foldCase (by simpa using same)⟩

theorem anyCase_needs {word : String} {c : Char} (letter : c ∈ word.toList) (cursor : Cursor) :
    ∀ x ∈ (anyCase word).ends cursor, ∃ d ∈ cursor.rest, foldCase d = foldCase c := by
  intro x found
  obtain ⟨k, split, same, _⟩ := mem_anyCase found
  have folded : foldCase c ∈ k.map foldCase := by
    rw [same]
    exact List.mem_map_of_mem letter
  obtain ⟨d, member, equal⟩ := List.mem_map.mp folded
  exact ⟨d, by rw [split]; exact List.mem_append_left _ member, equal⟩

theorem foldCase_digit {c : Char} (digit : c.isDigit = true) : foldCase c = c := by
  rw [foldCase_plain (plain_of_isDigit digit)]
  refine Char.toLower_eq_of_not_isUpper fun upper => ?_
  have other := not_isDigit_of_isAlpha c (by simp [Char.isAlpha, upper])
  rw [digit] at other
  cases other

theorem lexemes_lack {c : Char} (letter : foldCase c ≠ ' ' ∧ (foldCase c).isDigit = false)
    {lexemes : List PageLexeme}
    (words : ∀ word, .word word ∈ lexemes → ∀ d ∈ word.toList, foldCase d ≠ foldCase c) :
    ∀ d ∈ leadingCode (lexemes.flatMap PageLexeme.written), foldCase d ≠ foldCase c := by
  intro d member same
  obtain ⟨lexeme, listed, inside⟩ :=
    List.mem_flatMap.mp ((List.takeWhile_sublist _).subset member)
  have blank : d ≠ ' ' := by
    rintro rfl
    exact letter.1 (same.symm.trans (by decide))
  cases lexeme with
  | word word =>
    rcases List.mem_cons.mp inside with rfl | inside
    · exact blank rfl
    · exact words word listed d inside same
  | count n =>
    rcases List.mem_cons.mp inside with rfl | inside
    · exact blank rfl
    · have digit := (count_digits n).inside d inside
      rw [← same, foldCase_digit digit, digit] at letter
      cases letter.2

theorem wordThen_fails {word : String} (capital : IsCapitalWord word) {parts : List Pattern}
    (ended : EndsWordFirst parts) {c : Char}
    (needs : ∀ cursor, ∀ x ∈ (sequence parts).ends cursor, ∃ d ∈ cursor.rest, foldCase d = foldCase c)
    {a : List Char} (stop : EndsRun a) (lacks : ∀ d ∈ a, foldCase d ≠ foldCase c) :
    (wordThen word parts).matchAt? none (word.toList ++ a) = none := by
  cases found : (wordThen word parts).matchAt? none (word.toList ++ a) with
  | none => rfl
  | some m =>
    obtain ⟨cursor, x, rest, inside⟩ := wordThen_rest capital ended capital.run.word stop found
    obtain ⟨d, member, same⟩ := needs cursor x inside
    rw [rest] at member
    exact absurd same (lacks d member)

/-! Parts of a pattern that are found. -/

def StopsNumber (s : List Char) : Prop := ∀ c, s.head? = some c → isPatternDigit c = false

theorem stopsNumber_nil : StopsNumber [] := nofun

theorem stopsNumber_blank (s : List Char) : StopsNumber (' ' :: s) := by
  intro c first
  cases first
  rfl

def Solid (s : List Char) : Prop := ∀ c, s.head? = some c → isBlank c = false

theorem IsRun.solid {w : List Char} (run : IsRun w) (s : List Char) : Solid (w ++ s) := by
  intro c first
  cases w with
  | nil => exact absurd rfl run.nonempty
  | cons d w =>
    cases first
    exact solid_of_plain (run.inside _ (by simp))

section First

variable {before : Option Char} {groups : List (Nat × List Char)}

theorem gap_first {s : List Char} (solid : Solid s) :
    TextRule.gap.first ⟨before, ' ' :: s, groups⟩ = some ⟨some ' ', s, groups⟩ := by
  refine @first_plus .blank _ rfl ' ' [] _ (fun d member => ?_) solid _ rfl
  obtain rfl := List.mem_singleton.mp member
  rfl

theorem gap_then {p : Pattern} {parts : List Pattern} {s : List Char} {middle stop : Cursor}
    (solid : Solid s) (one : p.first ⟨some ' ', s, groups⟩ = some middle)
    (later : (sequence parts).first middle = some stop) :
    (sequence (TextRule.gap :: p :: parts)).first ⟨before, ' ' :: s, groups⟩ = some stop :=
  first_seq (gap_first solid) (first_seq one later)

theorem number_first (part : Nat) {ds s t : List Char} (shape : IsDigits ds)
    (ended : StopsNumber s) (split : t = ds ++ s) :
    (TextRule.number part).first ⟨before, t, groups⟩
      = some ⟨ds.getLast?.or before, s, (part, ds) :: groups⟩ := by
  subst split
  cases ds with
  | nil => exact absurd rfl shape.nonempty
  | cons c ds =>
    have digits := @first_plus .digit _ rfl c ds s
      (fun d member => patternDigit_of_isDigit (shape.inside d member)) ended
      ⟨before, c :: ds ++ s, groups⟩ rfl
    have grouped := @first_group part _ _ _ digits
    simp only [Cursor.past, between_append] at grouped
    exact grouped

theorem count_then (part : Nat) (n : UInt64) {parts : List Pattern} {s : List Char} {stop : Cursor}
    (ended : StopsNumber s)
    (later : (sequence parts).first ⟨(Page.countSql n).toList.getLast?.or (some ' '), s,
      (part, (Page.countSql n).toList) :: groups⟩ = some stop) :
    (sequence (TextRule.gap :: TextRule.number part :: parts)).first
      ⟨before, countWritten n ++ s, groups⟩ = some stop :=
  gap_then ((digits_run (count_digits n)).solid s) (number_first part (count_digits n) ended rfl)
    later

theorem word_then {word : String} (capital : IsCapitalWord word) {parts : List Pattern}
    {s : List Char} {stop : Cursor}
    (later : (sequence parts).first ⟨word.toList.getLast?.or (some ' '), s, groups⟩ = some stop) :
    (sequence (TextRule.gap :: anyCase word :: parts)).first
      ⟨before, ' ' :: word.toList ++ s, groups⟩ = some stop :=
  gap_then (capital.run.solid s) (first_anyCase rfl rfl) later

end First

theorem page_plain {page : Page} {c : Char} (member : c ∈ page.written) :
    c = ' ' ∨ isPlain c = true := by
  rw [← lexemes_written] at member
  obtain ⟨lexeme, listed, inside⟩ := List.mem_flatMap.mp member
  cases lexeme with
  | word name =>
    have capital := @canonicalWord name (by simp [canonicalWords, lexemes_words listed])
    exact (List.mem_cons.mp inside).imp id (capital.run.inside c)
  | count n => exact (List.mem_cons.mp inside).imp id ((digits_run (count_digits n)).inside c)

theorem page_code {page : Page} {c : Char} (member : c ∈ page.written) : c ≠ '\x27' := by
  rintro rfl
  rcases page_plain member with wrong | wrong <;> cases wrong

theorem page_found {p : Pattern} {starts : List String} (begins : BeginsWith p starts)
    {write : Match → List Char} {page : Page} {m : List Char} (split : page.written = ' ' :: m)
    {last : Option Char} {groups : List (Nat × List Char)}
    (found : p.first ⟨none, m, []⟩ = some ⟨last, [], groups⟩) :
    outsideLiterals (p.replaceAll write) page.written = ' ' :: write ⟨m, groups⟩ := by
  have matched : p.matchAt? none (m ++ leadingCode []) = some ⟨m, groups⟩ :=
    matchAt_of_first (s := leadingCode []) (by rwa [leadingCode, List.takeWhile_nil, List.append_nil]) rfl
  have whole := @outside_found _ _ begins write _ _ _
    (fun c member => @page_code page c (by rw [split]; exact .tail _ member)) matched rfl
    (.inr endsRun_nil)
  rw [List.append_nil, outside_nil begins, List.append_nil] at whole
  rw [split, outside_mark begins (by simp [marks]), whole]

/-! Limits. -/

def Page.fetching (page : Page) : Page :=
  match page.limit with
  | some n => { page with limit := none, fetch := some n }
  | none => page

def Page.limiting (page : Page) : Page :=
  match page.fetch with
  | some n => { page with limit := some n, fetch := none }
  | none => page

theorem limit_capital : IsCapitalWord "LIMIT" := canonicalWord (by simp [canonicalWords, pageWords])

theorem offset_capital : IsCapitalWord "OFFSET" :=
  canonicalWord (by simp [canonicalWords, pageWords])

theorem fetch_capital : IsCapitalWord "FETCH" := canonicalWord (by simp [canonicalWords, pageWords])

section Limits

variable (parts : List Pattern) (write : Match → List Char)

theorem limit_begins : BeginsWith (wordThen "LIMIT" (TextRule.gap :: parts)) ["LIMIT"] :=
  beginsWith_wordThen limit_capital (TextRule.ends_gap parts)

theorem limit_rewrites :
    Rewrites (outsideLiterals ((wordThen "LIMIT" (TextRule.gap :: parts)).replaceAll write))
      noName id :=
  reserved_keeps (limit_begins parts) (by decide) (by decide) (by decide)

theorem unlimited_kept {page : Page} (none : page.limit = none) :
    outsideLiterals ((wordThen "LIMIT" (TextRule.gap :: parts)).replaceAll write) page.written
      = page.written := by
  refine page_kept (limit_begins parts) (limit_rewrites parts write) fun word listed rest inside => ?_
  obtain rfl := List.mem_singleton.mp listed
  have found : .word "LIMIT" ∈ page.lexemes := inside.subset List.mem_cons_self
  obtain ⟨limit, offset, fetch, rows⟩ := page
  obtain rfl : limit = .none := none
  cases offset <;> cases fetch <;> cases rows <;> simp [Page.lexemes] at found

end Limits

theorem limitComma_kept (write : Match → List Char) (page : Page) :
    outsideLiterals (TextRule.limitComma.replaceAll write) page.written = page.written := by
  have commas : pageWords.all (fun word => word.toList.all fun d => foldCase d != foldCase ',')
      = true := by decide
  refine page_kept (limit_begins _) (limit_rewrites _ write) fun word listed rest inside => ?_
  obtain rfl := List.mem_singleton.mp listed
  refine wordThen_fails limit_capital (TextRule.ends_gap _) (sequence_needs (char_needs ',')
    [TextRule.gap, TextRule.number 1, TextRule.blanks] [TextRule.blanks, TextRule.number 2])
    (leadingCode_ended (lexemes_ended rest)) (lexemes_lack (by decide) fun name listed d letter => ?_)
  have known := lexemes_words (inside.subset (List.mem_cons_of_mem _ listed))
  simpa using List.all_eq_true.mp (List.all_eq_true.mp commas name known) d letter

theorem limitOffset_first (n m : UInt64) :
    (wordThen "LIMIT" [TextRule.gap, TextRule.number 1, TextRule.gap, anyCase "OFFSET", TextRule.gap,
      TextRule.number 2]).first ⟨none, "LIMIT".toList ++ (countWritten n
        ++ (' ' :: "OFFSET".toList ++ (countWritten m ++ []))), []⟩
      = some ⟨(Page.countSql m).toList.getLast?.or (some ' '), [],
        [(2, (Page.countSql m).toList), (1, (Page.countSql n).toList)]⟩ := by
  have last := @count_then ("OFFSET".toList.getLast?.or (some ' ')) [(1, (Page.countSql n).toList)]
    2 m [] _ _ stopsNumber_nil rfl
  exact first_word rfl limit_capital.run.word rfl
    (count_then 1 n (stopsNumber_blank _) (word_then offset_capital last))

theorem limitAlone_first (n : UInt64) :
    (wordThen "LIMIT" [TextRule.gap, TextRule.number 1]).first
      ⟨none, "LIMIT".toList ++ (countWritten n ++ []), []⟩
      = some ⟨(Page.countSql n).toList.getLast?.or (some ' '), [], [(1, (Page.countSql n).toList)]⟩ :=
  first_word rfl limit_capital.run.word rfl (count_then 1 n stopsNumber_nil rfl)

theorem limitOffset_page (page : Page) :
    (TextRule.limitOffsetRule).run page.written
      = (if page.offset.isSome then page.fetching else page).written := by
  change outsideLiterals ((wordThen "LIMIT" [TextRule.gap, TextRule.number 1, TextRule.gap,
    anyCase "OFFSET", TextRule.gap, TextRule.number 2]).replaceAll _) page.written = _
  obtain ⟨limit, offset, fetch, rows⟩ := page
  cases limit with
  | none =>
    refine (unlimited_kept _ _ rfl).trans ?_
    cases offset <;> rfl
  | some n =>
    cases offset with
    | none =>
      refine page_kept (limit_begins _) (limit_rewrites _ _) fun word listed rest inside => ?_
      obtain rfl := List.mem_singleton.mp listed
      refine wordThen_fails limit_capital (TextRule.ends_gap _) (sequence_needs
        (@anyCase_needs "OFFSET" 'O' (by simp))
        [TextRule.gap, TextRule.number 1, TextRule.gap] [TextRule.gap, TextRule.number 2])
        (leadingCode_ended (lexemes_ended rest)) (lexemes_lack (by decide) fun name listed => ?_)
      have known := inside.subset (List.mem_cons_of_mem _ listed)
      obtain rfl : name = "LIMIT" := by simpa [Page.lexemes] using known
      have letters : ("LIMIT".toList.all fun d => foldCase d != foldCase 'O') = true := by
        decide
      intro d letter
      simpa using List.all_eq_true.mp letters d letter
    | some m =>
      have split : (Page.mk (some n) (some m) fetch rows).written = ' ' :: ("LIMIT".toList
          ++ (countWritten n ++ (' ' :: "OFFSET".toList ++ (countWritten m ++ [])))) := by
        simp [Page.written, limitWritten]
      have written : (Page.mk none (some m) (some n) rows).written = ' ' ::
          ("OFFSET ".toList ++ (Page.countSql m).toList ++ " ROWS ".toList
            ++ ("FETCH FIRST ".toList ++ (Page.countSql n).toList ++ " ROWS ONLY".toList)) := by
        simp [Page.written, offsetWritten, fetchWritten, countWritten]
      exact (page_found (limit_begins _) split (limitOffset_first n m)).trans written.symm

theorem limitAlone_page {page : Page} (alone : page.limit.isSome = true → page.offset = none) :
    (TextRule.limitAloneRule).run page.written = page.fetching.written := by
  change outsideLiterals ((wordThen "LIMIT" [TextRule.gap, TextRule.number 1]).replaceAll _)
    page.written = _
  obtain ⟨limit, offset, fetch, rows⟩ := page
  cases limit with
  | none => exact unlimited_kept _ _ rfl
  | some n =>
    obtain rfl : offset = none := alone rfl
    have split : (Page.mk (some n) none fetch rows).written
        = ' ' :: ("LIMIT".toList ++ (countWritten n ++ [])) := by
      simp [Page.written, limitWritten]
    have written : (Page.mk none none (some n) rows).written
        = ' ' :: ("FETCH FIRST ".toList ++ (Page.countSql n).toList ++ " ROWS ONLY".toList) := by
      simp [Page.written, offsetWritten, fetchWritten, countWritten]
    exact (page_found (limit_begins _) split (limitAlone_first n)).trans written.symm

/-! Fetch clauses. -/

def offsetPart : Pattern :=
  wordThen "OFFSET" [TextRule.gap, TextRule.number 1, TextRule.gap, TextRule.rowOrRows, TextRule.gap]

def fetchPart : Pattern :=
  wordThen "FETCH" [TextRule.gap, .either (anyCase "FIRST") (anyCase "NEXT"), TextRule.gap,
    TextRule.number 2, TextRule.gap, TextRule.rowOrRows, TextRule.gap, anyCase "ONLY"]

theorem fetchFirst_parts : TextRule.fetchFirst = .seq (.either offsetPart .empty) fetchPart := rfl

theorem fetchFirst_ends (cursor : Cursor) : TextRule.fetchFirst.ends cursor
    = (offsetPart.ends cursor).flatMap fetchPart.ends ++ fetchPart.ends cursor := by
  rw [fetchFirst_parts, ends, ends, ends, List.flatMap_append, List.flatMap_singleton]

theorem fetch_begins : BeginsWith TextRule.fetchFirst ["OFFSET", "FETCH"] where
  capital word listed := by
    rcases List.mem_pair.mp listed with rfl | rfl
    · exact offset_capital
    · exact fetch_capital
  insensitive before other s same := by
    refine matchAt_congr ?_
    rw [fetchFirst_ends, fetchFirst_ends]
    exact congr (congrArg _ (congrArg (List.flatMap _)
      (wordThen_insensitive offset_capital.nonempty _ same s)))
      (wordThen_insensitive fetch_capital.nonempty _ same s)
  begun before s m found := by
    obtain ⟨x, inside, text⟩ := matchAt_ends found
    rw [fetchFirst_ends] at inside
    rcases List.mem_append.mp inside with inside | inside
    · obtain ⟨y, first, later⟩ := List.mem_flatMap.mp inside
      obtain ⟨aside, shorter, k, rest, split, same, stop, _⟩ :=
        begun_wordThen offset_capital (TextRule.ends_gap _) first
      have further := (ends_suffix _ later).length_le
      refine ⟨aside, ?_, "OFFSET", by simp, k, rest, split, same, stop⟩
      rw [text]
      exact between_ne_nil (Nat.lt_of_le_of_lt further shorter)
    · obtain ⟨aside, shorter, k, rest, split, same, stop, _⟩ :=
        begun_wordThen fetch_capital (TextRule.ends_gap _) inside
      refine ⟨aside, ?_, "FETCH", by simp, k, rest, split, same, stop⟩
      rw [text]
      exact between_ne_nil shorter

theorem fetch_rewrites (write : Match → List Char) :
    Rewrites (outsideLiterals (TextRule.fetchFirst.replaceAll write)) noName id :=
  reserved_keeps fetch_begins (by decide) (by decide) (by decide)

theorem unfetched_kept (write : Match → List Char) {page : Page} (unfetched : page.fetch = none) :
    outsideLiterals (TextRule.fetchFirst.replaceAll write) page.written = page.written := by
  refine page_kept fetch_begins (fetch_rewrites write) fun word listed rest inside => ?_
  have lacking : ∀ name, .word name ∈ page.lexemes → ∀ d ∈ name.toList, foldCase d ≠ foldCase 'H' := by
    have letters : ["LIMIT", "OFFSET", "ROWS"].all
        (fun word => word.toList.all fun d => foldCase d != foldCase 'H') = true := by decide
    intro name known d letter
    have listed : name ∈ ["LIMIT", "OFFSET", "ROWS"] := by
      obtain ⟨limit, offset, fetch, rows⟩ := page
      obtain rfl : fetch = none := unfetched
      cases limit <;> cases offset <;> cases rows <;> simp [Page.lexemes] at known ⊢ <;> grind
    simpa using List.all_eq_true.mp (List.all_eq_true.mp letters name listed) d letter
  have lacks : ∀ d ∈ word.toList ++ leadingCode (rest.flatMap PageLexeme.written),
      foldCase d ≠ foldCase 'H' := by
    intro d member
    rcases List.mem_append.mp member with member | member
    · exact lacking word (inside.subset List.mem_cons_self) d member
    · exact lexemes_lack (by decide)
        (fun name listed => lacking name (inside.subset (List.mem_cons_of_mem _ listed))) d member
  have none : ∀ cursor : Cursor, (∀ d ∈ cursor.rest, foldCase d ≠ foldCase 'H') →
      fetchPart.ends cursor = [] := by
    intro cursor lacks
    refine List.eq_nil_iff_forall_not_mem.mpr fun x found => ?_
    obtain ⟨d, member, same⟩ := sequence_needs (@anyCase_needs "FETCH" 'H' (by simp))
      [.boundary] _ cursor x found
    exact lacks d member same
  refine matchAt_none fun x found => ?_
  rw [fetchFirst_ends, none _ lacks, List.append_nil] at found
  obtain ⟨y, first, later⟩ := List.mem_flatMap.mp found
  rw [none y fun d member => lacks d ((ends_suffix _ first).subset member)] at later
  cases later

section Found

variable {before : Option Char} {groups : List (Nat × List Char)}

theorem first_either {p q : Pattern} {cursor : Cursor} :
    (Pattern.either p q).first cursor = (p.first cursor).or (q.first cursor) := by
  rw [first, ends_either, List.head?_append]
  rfl

theorem optional_taken {p : Pattern} {cursor stop : Cursor} (found : p.first cursor = some stop) :
    (Pattern.optional p).first cursor = some stop := by
  rw [Pattern.optional, first_either, found]
  rfl

theorem optional_skipped {p : Pattern} {cursor : Cursor} (missing : p.first cursor = none) :
    (Pattern.optional p).first cursor = some cursor := by
  rw [Pattern.optional, first_either, missing]
  rfl

theorem rows_then {parts : List Pattern} {s : List Char} {stop : Cursor}
    (later : (sequence parts).first ⟨some 'S', s, groups⟩ = some stop) :
    (sequence (TextRule.gap :: TextRule.rowOrRows :: parts)).first
      ⟨before, ' ' :: "ROWS".toList ++ s, groups⟩ = some stop := by
  have rows : IsCapitalWord "ROWS" := canonicalWord (by simp [canonicalWords, pageWords])
  refine gap_then (rows.run.solid s) ?_ later
  have row : (anyCase "ROW").first ⟨some ' ', "ROW".toList ++ 'S' :: s, groups⟩
      = some ⟨some 'W', 'S' :: s, groups⟩ := first_anyCase rfl rfl
  have letter : (Pattern.letter 'S').first ⟨some 'W', 'S' :: s, groups⟩
      = some ⟨some 'S', s, groups⟩ := by
    rw [first, ends_letter, first_takeOne rfl (by simp)]
    rfl
  exact first_seq row (first_seq (optional_taken letter) rfl)

theorem fetchPart_first (aside : before.any isWordCharacter = false) (n : UInt64) :
    fetchPart.first ⟨before, "FETCH".toList ++ (' ' :: "FIRST".toList ++ (countWritten n
      ++ (' ' :: "ROWS".toList ++ (' ' :: "ONLY".toList ++ [])))), groups⟩
      = some ⟨"ONLY".toList.getLast?.or (some ' '), [],
        (2, (Page.countSql n).toList) :: groups⟩ := by
  have only : IsCapitalWord "ONLY" := canonicalWord (by simp [canonicalWords, pageWords])
  have first : IsCapitalWord "FIRST" := canonicalWord (by simp [canonicalWords, pageWords])
  have either : (Pattern.either (anyCase "FIRST") (anyCase "NEXT")).first ⟨some ' ', "FIRST".toList
      ++ (countWritten n ++ (' ' :: "ROWS".toList ++ (' ' :: "ONLY".toList ++ []))), groups⟩
      = some ⟨"FIRST".toList.getLast?.or (some ' '), countWritten n
        ++ (' ' :: "ROWS".toList ++ (' ' :: "ONLY".toList ++ [])), groups⟩ := by
    rw [first_either, first_anyCase rfl rfl]
    rfl
  exact first_word aside fetch_capital.run.word rfl (gap_then (first.run.solid _) either
    (count_then 2 n (stopsNumber_blank _) (rows_then (word_then only rfl))))

theorem offsetPart_first (m : UInt64) {s : List Char} (solid : Solid s) :
    offsetPart.first ⟨none, "OFFSET".toList ++ (countWritten m ++ (' ' :: "ROWS".toList ++ ' ' :: s)), []⟩
      = some ⟨some ' ', s, [(1, (Page.countSql m).toList)]⟩ :=
  first_word rfl offset_capital.run.word rfl (count_then 1 m (stopsNumber_blank _)
    (rows_then (first_seq (gap_first solid) rfl)))

end Found

theorem fetchFirst_page {page : Page} (single : page.fetch.isSome = true → page.limit = none) :
    (TextRule.fetchFirstRule).run page.written = page.limiting.written := by
  change outsideLiterals (TextRule.fetchFirst.replaceAll _) page.written = _
  obtain ⟨limit, offset, fetch, rows⟩ := page
  cases fetch with
  | none => exact unfetched_kept _ rfl
  | some n =>
    obtain rfl : limit = none := single rfl
    cases offset with
    | none =>
      have unmarked : offsetPart.first ⟨none, "FETCH".toList ++ (' ' :: "FIRST".toList
          ++ (countWritten n ++ (' ' :: "ROWS".toList ++ (' ' :: "ONLY".toList ++ [])))), []⟩
          = none := by
        rw [first, List.head?_eq_none_iff]
        refine List.eq_nil_iff_forall_not_mem.mpr fun x found => ?_
        obtain ⟨_, k, rest, split, same, _⟩ := mem_wordThen found
        cases k with
        | nil => cases same
        | cons c k =>
          obtain rfl : 'F' = c := (List.cons.inj split).1
          exact absurd (List.cons.inj same).1 (by decide)
      have split : (Page.mk none none (some n) rows).written = ' ' :: ("FETCH".toList
          ++ (' ' :: "FIRST".toList ++ (countWritten n
          ++ (' ' :: "ROWS".toList ++ (' ' :: "ONLY".toList ++ []))))) := by
        simp [Page.written, offsetWritten, fetchWritten]
      have both := first_seq (optional_skipped unmarked) (@fetchPart_first none _ rfl n)
      have written : (Page.mk (some n) none none rows).written
          = ' ' :: ("LIMIT ".toList ++ (Page.countSql n).toList) := by
        simp [Page.written, limitWritten, countWritten]
      exact (page_found fetch_begins split both).trans written.symm
    | some m =>
      have split : (Page.mk none (some m) (some n) rows).written = ' ' :: ("OFFSET".toList
          ++ (countWritten m ++ (' ' :: "ROWS".toList ++ ' ' :: ("FETCH".toList
          ++ (' ' :: "FIRST".toList ++ (countWritten n
          ++ (' ' :: "ROWS".toList ++ (' ' :: "ONLY".toList ++ [])))))))) := by
        simp [Page.written, offsetWritten, fetchWritten]
      have both := first_seq (optional_taken (offsetPart_first m (fetch_capital.run.solid _)))
        (@fetchPart_first (some ' ') _ rfl n)
      have written : (Page.mk (some n) (some m) none rows).written
          = ' ' :: ("LIMIT ".toList ++ (Page.countSql n).toList ++ " OFFSET ".toList
            ++ (Page.countSql m).toList) := by
        simp [Page.written, limitWritten, countWritten]
      exact (page_found fetch_begins split both).trans written.symm

/-! Operators. -/

def BinaryOp.caseless : BinaryOp → BinaryOp
  | .ilike => .like
  | op => op

theorem ilike_begins : BeginsWith (wordThen "ILIKE" [.boundary]) ["ILIKE"] :=
  beginsWith_wordThen (canonicalWord (by simp [canonicalWords])) TextRule.ends_boundary

theorem ilike_rewrites : Rewrites (outsideLiterals ((wordThen "ILIKE" [.boundary]).replaceAll
    fun _ => "LIKE".toList)) noName BinaryOp.caseless := by
  refine reserved_rewrites ilike_begins (by decide) (by decide) (fun op other => ?_) fun s => ?_
  · cases op <;> first | rfl | exact absurd rfl other
  · have capital : IsCapitalWord "ILIKE" := canonicalWord (by simp [canonicalWords])
    have found : (wordThen "ILIKE" [.boundary]).first ⟨none, "ILIKE".toList ++ leadingCode (' ' :: s), []⟩
        = some _ := first_word rfl capital.run.word rfl (first_seq (first_boundary rfl) rfl)
    have matched := matchAt_of_first found rfl
    rw [outside_found ilike_begins (word_code capital.run.word) matched rfl (.inr (endsRun_cons rfl s)),
      outside_mark ilike_begins (by simp [marks])]
    rfl

end SqlDialects
