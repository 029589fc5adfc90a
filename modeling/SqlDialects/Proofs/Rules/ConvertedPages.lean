import SqlDialects.Proofs.Canonical.Spelled
import SqlDialects.Proofs.Rules.SpacedLimits

/-
What becomes of the row limit of an orderly text. Each pair of dialects has its own rules for row
limits, and each form of a row limit is either put in the form of the target or left alone; the text
that comes of it asks for the same rows in one of the forms that can be read. An offset without a
count and a fetch clause without a count are left alone.
-/
namespace SqlDialects

open Text Pattern Reader Spelling Change Lexeme

/-! Row limits before and after the rules. -/

def Page.count (page : Page) : Option UInt64 := page.limit.or page.fetch

abbrev countOf (ds : List Char) : UInt64 := UInt64.ofNat (digitsValue ds)

def Reader.uncountedFetch : Reader Unit := do
  keyword "FETCH"
  keyword "FIRST" <|> keyword "NEXT"
  rowsKeyword
  keyword "ONLY"

def endsUncounted (s : List Char) : Bool :=
  s.tails.any fun u => match uncountedFetch u with
    | .ok (_, rest) => (skipGaps rest).isEmpty
    | .error _ => false

theorem endsUncounted_of_read {u body rest : List Char} (inside : u <:+ body)
    (read : uncountedFetch u = .ok ((), rest)) (atEnd : AtEnd rest) : endsUncounted body = true := by
  refine List.any_eq_true.mpr ⟨u, (List.mem_tails u body).mpr inside, ?_⟩
  have ended : skipGaps rest = [] := atEnd
  simp [read, ended]

structure Page.Converted (pair : Pair) (body : List Char) (page found : Page) : Prop where
  count : found.count = page.count
  offset : found.offset = page.offset
  unlimited : pair.target.rowLimit = .fetchFirst → found.limit = none
  unfetched : pair.target = .mysql → endsUncounted body = false → found.fetch = none
  marked : page.count = none → found.offsetRows = page.offsetRows

section Converted

variable {pair : Pair} {body : List Char} {page : Page} {count : UInt64} {offset : Option UInt64}

theorem rows_kept (unlimited : page.limit = none)
    (fetched : pair.target = .mysql → endsUncounted body = false → page.fetch = none) :
    page.Converted pair body page :=
  ⟨rfl, rfl, fun _ => unlimited, fetched, fun _ => rfl⟩

theorem limit_kept (limits : pair.target.rowLimit = .limit) :
    Page.Converted pair body { limit := some count, offset } { limit := some count, offset } := by
  refine ⟨rfl, rfl, fun fetches => ?_, fun _ _ => rfl, fun _ => rfl⟩
  rw [limits] at fetches
  cases fetches

theorem limit_fetched (fetches : pair.target.rowLimit = .fetchFirst) {rows : Bool} :
    Page.Converted pair body { limit := some count, offset }
      { fetch := some count, offset, offsetRows := rows } := by
  refine ⟨rfl, rfl, fun _ => rfl, fun mysql _ => ?_, nofun⟩
  rw [mysql] at fetches
  cases fetches

theorem fetch_taken (mysql : pair.target = .mysql) {skipped : Option (UInt64 × Bool)} :
    (Page.ofOffset skipped (some count)).Converted pair body
      { limit := some count, offset := skipped.map (·.1) } := by
  refine ⟨rfl, rfl, fun fetches => ?_, fun _ _ => rfl, nofun⟩
  rw [mysql] at fetches
  cases fetches

end Converted

/-! The parts of a row limit. -/

theorem madeOf_parts {letters s t : List Char} :
    MadeOf letters (s ++ t) ↔ MadeOf letters s ∧ MadeOf letters t := List.forall_mem_append

theorem gapBlanks_blank {g : List Char} (blank : ∀ c ∈ g, c ∈ gapBlanks) : ∀ c ∈ g, isBlank c = true := by
  have every : gapBlanks.all isBlank = true := by decide
  exact fun c member => List.all_eq_true.mp every c (blank c member)

section Parts

variable {pair : Pair} {t rest : List Char}

theorem keyword_parts {word : String} (listed : word ∈ pageKeywords)
    (spelled : KeywordText word () t rest) (orderly : pair.isOrderly (t ++ rest) = true) :
    ∃ g k, t = g ++ k ∧ (∀ c ∈ g, c ∈ gapBlanks) ∧ IsKeyword word k ∧ EndsWord rest
      ∧ breaksLimit pair k ((lexemes rest).filter fun lexeme => !lexeme.isBlankMark) = false
      ∧ pair.isOrderly rest = true := by
  obtain ⟨gap, same, ended⟩ := spelled
  rw [List.append_assoc] at orderly
  obtain ⟨blank, later⟩ := orderly_gap orderly gap
  obtain ⟨capital, nonempty, _⟩ := pageKeyword_capital listed
  obtain ⟨unbroken, last⟩ := orderly_keyword capital nonempty same ended later
  exact ⟨_, _, rfl, (orderly_blanks blank orderly).1, ⟨listed, same⟩, ended, unbroken, last⟩

theorem either_parts {one other : String} (first : one ∈ pageKeywords) (second : other ∈ pageKeywords)
    (spelled : EitherWord one other () t rest) (orderly : pair.isOrderly (t ++ rest) = true) :
    ∃ g k, t = g ++ k ∧ (∀ c ∈ g, isBlank c = true) ∧ (IsKeyword one k ∨ IsKeyword other k)
      ∧ EndsWord rest ∧ pair.isOrderly rest = true := by
  rcases spelled with spelled | spelled
  · obtain ⟨g, k, rfl, blank, keyword, ended, _, later⟩ := keyword_parts first spelled orderly
    exact ⟨g, k, rfl, gapBlanks_blank blank, .inl keyword, ended, later⟩
  · obtain ⟨g, k, rfl, blank, keyword, ended, _, later⟩ := keyword_parts second spelled orderly
    exact ⟨g, k, rfl, gapBlanks_blank blank, .inr keyword, ended, later⟩

theorem count_parts {count : UInt64} (spelled : CountText count t rest)
    (orderly : pair.isOrderly (t ++ rest) = true) :
    ∃ g ds, t = g ++ ds ∧ (∀ c ∈ g, isBlank c = true) ∧ IsDigits ds ∧ digitsValue ds < UInt64.size
      ∧ count = countOf ds ∧ EndsWord rest ∧ pair.isOrderly rest = true := by
  obtain ⟨gap, digits, bound, stop⟩ := spelled
  rw [List.append_assoc] at orderly
  obtain ⟨blank, later⟩ := orderly_gap orderly gap
  obtain ⟨ended, last⟩ := orderly_digits digits stop later
  exact ⟨_, _, rfl, blank, digits, bound, rfl, ended, last⟩

theorem comma_parts (spelled : SymbolText "," () t rest) (orderly : pair.isOrderly (t ++ rest) = true) :
    ∃ g, t = g ++ [','] ∧ (∀ c ∈ g, isBlank c = true) ∧ pair.isOrderly rest = true := by
  obtain ⟨gap⟩ := spelled
  rw [List.append_assoc] at orderly
  obtain ⟨blank, later⟩ := orderly_gap orderly gap
  have comma : pair.isOrderly (',' :: rest) = true := later
  exact ⟨_, rfl, blank, (orderly_mark rfl rfl comma).2.2.2.2⟩

end Parts

theorem space_between {g k s : List Char} (blank : ∀ c ∈ g, isBlank c = true) (run : IsRun k)
    (ended : EndsWord (g ++ (k ++ s))) : IsSpace g := by
  refine ⟨?_, blank⟩
  rintro rfl
  cases k with
  | nil => exact run.nonempty rfl
  | cons c k =>
    have outside := ended c rfl
    rcases plain_cases (run.inside c List.mem_cons_self) with letter | digit | rfl
    · rw [nameCharacter_of_isAlpha c letter] at outside
      cases outside
    · rw [nameCharacter_of_isDigit c digit] at outside
      cases outside
    · cases outside

/-! Row limits that can be read. -/

def IsLimit (wanted : Page → Prop) (rest w : List Char) : Prop :=
  ∃ page t, w = t ++ rest ∧ PageText page t rest ∧ MadeOf pageLetters t ∧ wanted page

theorem IsLimit.of_eq {wanted : Page → Prop} {page : Page} {rest w : List Char}
    (limit : IsLimit (Eq page) rest w) (asks : wanted page) : IsLimit wanted rest w := by
  obtain ⟨_, t, split, spelled, made, rfl⟩ := limit
  exact ⟨page, t, split, spelled, made, asks⟩

theorem run_solid {k : List Char} (run : IsRun k) (s : List Char) : afterGap (k ++ s) = none := by
  cases k with
  | nil => exact absurd rfl run.nonempty
  | cons c k => exact solid_of_head _ (not_mem_of_all (run.inside c List.mem_cons_self) rfl)

section Written

variable {g ds es rest : List Char} {wanted : Page → Prop}

theorem pageWord_behind (blank : ∀ c ∈ g, c ∈ gapBlanks) {word : String} (listed : word ∈ pageKeywords)
    {s : List Char} (ended : EndsWord s) : KeywordText word () (g ++ word.toList) s := by
  have keyword : IsKeyword word word.toList :=
    ⟨listed, capital_upper (pageKeyword_capital listed).1⟩
  exact .mk (gap_blanks blank (run_solid keyword.run s)) keyword.same ended

theorem pageWord_next {word : String} (listed : word ∈ pageKeywords) {s : List Char} (ended : EndsWord s) :
    KeywordText word () ([' '] ++ word.toList) s :=
  pageWord_behind (by simp [gapBlanks]) listed ended

theorem count_next (digits : IsDigits ds) (bound : digitsValue ds < UInt64.size)
    (ended : EndsWord rest) : CountText (countOf ds) ([' '] ++ ds) rest := by
  refine .mk (gap_blank (run_solid (digits_run digits) rest)) digits bound ?_
  intro c first
  cases digit : c.isDigit with
  | false => rfl
  | true => exact (nameCharacter_of_isDigit c digit).symm.trans (ended c first)

theorem fetchText_split : g ++ TextRule.fetchText ds = g ++ "FETCH".toList ++ ([' '] ++ "FIRST".toList
    ++ ([' '] ++ ds ++ ([' '] ++ "ROWS".toList ++ ([' '] ++ "ONLY".toList)))) := by
  have parts : TextRule.fetchText ds = "FETCH".toList ++ ([' '] ++ ("FIRST".toList ++ [' '])) ++ ds
      ++ ([' '] ++ ("ROWS".toList ++ ([' '] ++ "ONLY".toList))) := rfl
  rw [parts]
  simp only [List.append_assoc]

theorem fetchText_made (digits : IsDigits ds) : MadeOf fetchLetters (TextRule.fetchText ds) :=
  madeOf_append (madeOf_append (madeOf_text rfl) (madeOf_digits digits)) (madeOf_text rfl)

theorem offsetFetchText_made (others : IsDigits es) (digits : IsDigits ds) :
    MadeOf fetchLetters (TextRule.offsetFetchText es ds) :=
  madeOf_append (madeOf_append (madeOf_append (madeOf_text rfl) (madeOf_digits others)) (madeOf_text rfl))
    (fetchText_made digits)

variable (blank : ∀ c ∈ g, c ∈ gapBlanks) (ended : EndsWord rest)
  (digits : IsDigits ds) (bound : digitsValue ds < UInt64.size)
  (others : IsDigits es) (limited : digitsValue es < UInt64.size)

include blank ended digits bound

theorem limit_written (asks : wanted { limit := some (countOf ds) }) :
    IsLimit wanted rest (g ++ ("LIMIT ".toList ++ ds ++ rest)) := by
  have spelled := @PageText.limit _ none (g ++ "LIMIT".toList) ([' '] ++ ds) [] rest
    (pageWord_behind blank (by decide) (endsWord_blank _)) (count_next digits bound ended) (.missing rest)
  have split : g ++ ("LIMIT ".toList ++ ds ++ rest)
      = g ++ "LIMIT".toList ++ ([' '] ++ ds ++ []) ++ rest := by
    simp
  refine ⟨_, _, split, spelled, ?_, asks⟩
  exact madeOf_append (madeOf_append (madeOf_blanks (gapBlanks_blank blank)) (madeOf_text rfl))
    (madeOf_append (madeOf_append (madeOf_text rfl) (madeOf_digits digits)) (madeOf_text rfl))

theorem fetchClause_spelled :
    FetchText (countOf ds) (g ++ TextRule.fetchText ds) rest := by
  have spelled := @FetchText.mk (some (countOf ds)) (g ++ "FETCH".toList)
    ([' '] ++ "FIRST".toList) ([' '] ++ ds) ([' '] ++ "ROWS".toList) ([' '] ++ "ONLY".toList) rest
    (pageWord_behind blank (by decide) (endsWord_blank _))
    (.inl (pageWord_next (by decide) (endsWord_blank _)))
    (.there (count_next digits bound (endsWord_blank _)))
    (.inl (pageWord_next (by decide) (endsWord_blank _)))
    (pageWord_next (by decide) ended)
  rw [fetchText_split]
  exact spelled

theorem fetch_written (asks : wanted { fetch := some (countOf ds) }) :
    IsLimit wanted rest (g ++ (TextRule.fetchText ds ++ rest)) := by
  have spelled := @PageText.offset none _ [] (g ++ TextRule.fetchText ds) rest (.missing _)
    (.there (fetchClause_spelled blank ended digits bound))
  refine ⟨_, _, by simp only [List.nil_append, List.append_assoc], spelled, ?_, asks⟩
  exact madeOf_append (madeOf_text rfl) (madeOf_append (madeOf_blanks (gapBlanks_blank blank))
    ((fetchText_made digits).more rfl))

include others limited

theorem limitOffset_written (asks : wanted
      { limit := some (countOf ds), offset := some (countOf es) }) :
    IsLimit wanted rest (g ++ (TextRule.limitText ds es ++ rest)) := by
  have spelled := @PageText.limit _ (some _) (g ++ "LIMIT".toList) ([' '] ++ ds)
    ([' '] ++ "OFFSET".toList ++ ([' '] ++ es)) rest
    (pageWord_behind blank (by decide) (endsWord_blank _)) (count_next digits bound (endsWord_blank _))
    (.there ⟨(), [' '] ++ "OFFSET".toList, [' '] ++ es, rfl, pageWord_next (by decide) (endsWord_blank _),
      count_next others limited ended⟩)
  have split : g ++ (TextRule.limitText ds es ++ rest) = g ++ "LIMIT".toList ++ ([' '] ++ ds
      ++ ([' '] ++ "OFFSET".toList ++ ([' '] ++ es))) ++ rest := by
    have parts : TextRule.limitText ds es = "LIMIT".toList ++ [' '] ++ ds
      ++ ([' '] ++ ("OFFSET".toList ++ [' '])) ++ es := rfl
    rw [parts]
    simp only [List.append_assoc]
  refine ⟨_, _, split, spelled, ?_, asks⟩
  simp only [madeOf_parts]
  exact ⟨⟨madeOf_blanks (gapBlanks_blank blank), madeOf_text rfl⟩, ⟨madeOf_text rfl, madeOf_digits digits⟩,
    ⟨madeOf_text rfl, madeOf_text rfl⟩, madeOf_text rfl, madeOf_digits others⟩

theorem offsetFetch_written (asks : wanted
      { fetch := some (countOf ds), offset := some (countOf es)
        offsetRows := true }) :
    IsLimit wanted rest (g ++ (TextRule.offsetFetchText es ds ++ rest)) := by
  have clause := @fetchClause_spelled [' '] ds rest (by simp [gapBlanks]) ended digits bound
  have offset := @OffsetText.mk _ true (g ++ "OFFSET".toList) ([' '] ++ es) ([' '] ++ "ROWS".toList)
    ([' '] ++ TextRule.fetchText ds ++ rest) (pageWord_behind blank (by decide) (endsWord_blank _))
    (count_next others limited (endsWord_blank _))
    (.there (.inl (pageWord_next (by decide) (endsWord_blank _))))
  have spelled := PageText.offset (.there offset) (.there clause)
  have split : g ++ (TextRule.offsetFetchText es ds ++ rest) = g ++ "OFFSET".toList ++ ([' '] ++ es
      ++ ([' '] ++ "ROWS".toList)) ++ ([' '] ++ TextRule.fetchText ds) ++ rest := by
    have parts : TextRule.offsetFetchText es ds = "OFFSET".toList ++ [' '] ++ es
      ++ ([' '] ++ ("ROWS".toList ++ [' '])) ++ TextRule.fetchText ds := rfl
    rw [parts]
    simp only [List.append_assoc]
  refine ⟨_, _, split, spelled, ?_, asks⟩
  exact madeOf_append (madeOf_append (madeOf_append (madeOf_blanks (gapBlanks_blank blank)) (madeOf_text rfl))
    (madeOf_append (madeOf_append (madeOf_text rfl) (madeOf_digits others)) (madeOf_text rfl)))
    (madeOf_append (madeOf_text rfl) ((fetchText_made digits).more rfl))

end Written

/-! The rules of a pair. -/

theorem rowLimits_cases {pair : Pair} (source : pair.source = .mysql ∨ pair.source = .postgresql)
    (different : pair.target ≠ pair.source) :
    pair.source = .mysql ∧ pair.target.rowLimit = .limit
        ∧ TextRule.rowLimits pair = [TextRule.limitCommaRule .limit]
      ∨ pair.source = .mysql ∧ pair.target.rowLimit = .fetchFirst
        ∧ TextRule.rowLimits pair = [TextRule.limitCommaRule .fetchFirst, TextRule.limitOffsetRule,
          TextRule.limitAloneRule]
      ∨ pair.source = .postgresql ∧ pair.target.rowLimit = .fetchFirst
        ∧ TextRule.rowLimits pair = [TextRule.limitOffsetRule, TextRule.limitAloneRule]
      ∨ pair.source = .postgresql ∧ pair.target = .mysql
        ∧ TextRule.rowLimits pair = [TextRule.fetchFirstRule] := by
  obtain ⟨first, second⟩ := pair
  rcases source with rfl | rfl
  · cases second with
    | mysql => exact absurd rfl different
    | postgresql => exact .inl ⟨rfl, rfl, rfl⟩
    | tibero => exact .inr (.inl ⟨rfl, rfl, rfl⟩)
    | oracle => exact .inr (.inl ⟨rfl, rfl, rfl⟩)
  · cases second with
    | mysql => exact .inr (.inr (.inr ⟨rfl, rfl, rfl⟩))
    | postgresql => exact absurd rfl different
    | tibero => exact .inr (.inr (.inl ⟨rfl, rfl, rfl⟩))
    | oracle => exact .inr (.inr (.inl ⟨rfl, rfl, rfl⟩))

theorem limits_made {s : List Char} (made : MadeOf fetchLetters s) :
    TextRule.runAll [TextRule.limitOffsetRule, TextRule.limitAloneRule] s = s := by
  have offset : TextRule.limitOffsetRule.run s = s := limit_made made (by decide)
  have alone : TextRule.limitAloneRule.run s = s := limit_made made (by decide)
  rw [TextRule.runAll_cons, TextRule.runAll_one, offset, alone]

theorem fetch_limited {pair : Pair} (source : pair.source = .mysql ∨ pair.source = .postgresql)
    (different : pair.target ≠ pair.source) {body s rest : List Char} {page : Page}
    (made : MadeOf fetchLetters s) (unlimited : page.limit = none) (kept : IsLimit (Eq page) rest s)
    (fetched : pair.source = .postgresql → pair.target = .mysql →
      IsLimit (page.Converted pair body) rest (TextRule.fetchFirstRule.run s)) :
    IsLimit (page.Converted pair body) rest (TextRule.runAll (TextRule.rowLimits pair) s) := by
  have comma : ∀ form, (TextRule.limitCommaRule form).run s = s := by
    intro form
    cases form <;> exact limit_made made (by decide)
  have same : pair.target ≠ .mysql → IsLimit (page.Converted pair body) rest s :=
    fun other => kept.of_eq (rows_kept unlimited fun mysql => absurd mysql other)
  rcases rowLimits_cases source different with
    ⟨mysql, _, rules⟩ | ⟨mysql, _, rules⟩ | ⟨_, fetches, rules⟩ | ⟨postgresql, mysql, rules⟩
  · rw [rules, TextRule.runAll_one, comma]
    exact same (mysql ▸ different)
  · rw [rules, TextRule.runAll_cons, comma, limits_made made]
    exact same (mysql ▸ different)
  · rw [rules, limits_made made]
    refine same fun mysql => ?_
    rw [mysql] at fetches
    cases fetches
  · rw [rules, TextRule.runAll_one]
    exact fetched postgresql mysql

theorem limit_limited {pair : Pair} (source : pair.source = .mysql ∨ pair.source = .postgresql)
    (different : pair.target ≠ pair.source) {body s rest : List Char} {count : UInt64}
    {offset : Option UInt64} (made : MadeOf limitLetters s) (plain : ',' ∉ s)
    (kept : IsLimit (Eq { limit := some count, offset }) rest s)
    (limited : pair.target.rowLimit = .fetchFirst →
      IsLimit (Page.Converted pair body { limit := some count, offset }) rest
        (TextRule.runAll [TextRule.limitOffsetRule, TextRule.limitAloneRule] s)) :
    IsLimit (Page.Converted pair body { limit := some count, offset }) rest
      (TextRule.runAll (TextRule.rowLimits pair) s) := by
  have comma : ∀ form, (TextRule.limitCommaRule form).run s = s := by
    intro form
    cases form <;> exact limitComma_made made plain
  have fetch : TextRule.fetchFirstRule.run s = s := fetchFirst_made made (by decide)
  rcases rowLimits_cases source different with
    ⟨_, limits, rules⟩ | ⟨_, fetches, rules⟩ | ⟨_, fetches, rules⟩ | ⟨_, mysql, rules⟩
  · rw [rules, TextRule.runAll_one, comma]
    exact kept.of_eq (limit_kept limits)
  · rw [rules, TextRule.runAll_cons, comma]
    exact limited fetches
  · rw [rules]
    exact limited fetches
  · rw [rules, TextRule.runAll_one, fetch]
    exact kept.of_eq (limit_kept (by rw [mysql]; rfl))

/-! Limits. -/

theorem blanks_plain {g : List Char} (blank : ∀ c ∈ g, isBlank c = true) : ',' ∉ g :=
  fun member => absurd (blank _ member) (by decide)

theorem run_plain {k : List Char} (run : IsRun k) : ',' ∉ k :=
  fun member => absurd (run.inside _ member) (by decide)

theorem endsWord_blanks {g : List Char} (blank : ∀ c ∈ g, isBlank c = true) : EndsWord g :=
  fun c first => (blank_apart (blank c (List.mem_of_head? first))).1

section Limits

variable {pair : Pair} (source : pair.source = .mysql ∨ pair.source = .postgresql)
  (different : pair.target ≠ pair.source) {g l a ds b o c es rest : List Char}
  (blank : ∀ c ∈ g, c ∈ gapBlanks) (behind : ∀ d ∈ rest, isBlank d = true)
  (limit : IsKeyword "LIMIT" l) (space : IsSpace a) (digits : IsDigits ds)
  (bound : digitsValue ds < UInt64.size) {body w : List Char} {page : Page}
include source different blank behind limit space digits bound

theorem limitAlone_limited (text : w = g ++ (l ++ (a ++ (ds ++ rest))))
    (shown : page = { limit := some (countOf ds) }) (kept : IsLimit (Eq page) rest w) :
    IsLimit (page.Converted pair body) rest (TextRule.runAll (TextRule.rowLimits pair) w) := by
  have blanks := gapBlanks_blank blank
  have made : MadeOf "LIMT".toList w := by
    simp only [text, madeOf_parts]
    exact ⟨madeOf_blanks blanks, limit.madeOf rfl, madeOf_blanks space.inside, madeOf_digits digits,
      madeOf_blanks behind⟩
  have plain : ',' ∉ w := by
    simp [text, blanks_plain blanks, run_plain limit.run, blanks_plain space.inside,
      run_plain (digits_run digits), blanks_plain behind]
  have offset : TextRule.limitOffsetRule.run w = w := limitOffset_made made (by decide)
  subst shown
  refine limit_limited source different (made.more rfl) plain kept fun fetches => ?_
  rw [TextRule.runAll_cons, offset, TextRule.runAll_one, text,
    limitAlone_run blanks behind space digits limit]
  exact fetch_written blank (endsWord_blanks behind) digits bound (limit_fetched fetches)

variable (others : IsDigits es) (limited : digitsValue es < UInt64.size)
include others limited

theorem limitOffset_limited (before : IsSpace b) (offset : IsKeyword "OFFSET" o) (after : IsSpace c)
    (text : w = g ++ (l ++ (a ++ (ds ++ (b ++ (o ++ (c ++ (es ++ rest))))))))
    (shown : page = { limit := some (countOf ds), offset := some (countOf es) })
    (kept : IsLimit (Eq page) rest w) :
    IsLimit (page.Converted pair body) rest (TextRule.runAll (TextRule.rowLimits pair) w) := by
  have blanks := gapBlanks_blank blank
  have made : MadeOf limitLetters w := by
    simp only [text, madeOf_parts]
    exact ⟨madeOf_blanks blanks, limit.madeOf rfl, madeOf_blanks space.inside, madeOf_digits digits,
      madeOf_blanks before.inside, offset.madeOf rfl, madeOf_blanks after.inside, madeOf_digits others,
      madeOf_blanks behind⟩
  have plain : ',' ∉ w := by
    simp [text, blanks_plain blanks, run_plain limit.run, blanks_plain space.inside,
      run_plain (digits_run digits), blanks_plain before.inside, run_plain offset.run,
      blanks_plain after.inside, run_plain (digits_run others), blanks_plain behind]
  subst shown
  refine limit_limited source different made plain kept fun fetches => ?_
  have alone : TextRule.limitAloneRule.run (g ++ (TextRule.offsetFetchText es ds ++ rest)) = _ :=
    limit_made (madeOf_append (madeOf_blanks blanks)
      (madeOf_append (offsetFetchText_made others digits) (madeOf_blanks behind))) (by decide)
  rw [TextRule.runAll_cons, text, limitOffset_run blanks behind space digits others limit before
    offset after, TextRule.runAll_one, alone]
  exact offsetFetch_written blank (endsWord_blanks behind) digits bound others limited
    (limit_fetched fetches)

/-- An offset and a limit with a comma between them, where the source has it or no rule looks for a
limit. -/
theorem limitComma_limited (before : ∀ d ∈ b, isBlank d = true) (after : ∀ d ∈ c, isBlank d = true)
    (known : pair.source = .mysql ∨ pair.target = .mysql)
    (text : w = g ++ (l ++ (a ++ (ds ++ (b ++ (',' :: (c ++ (es ++ rest))))))))
    (shown : page = { limit := some (countOf es), offset := some (countOf ds) })
    (kept : IsLimit (Eq page) rest w) :
    IsLimit (page.Converted pair body) rest (TextRule.runAll (TextRule.rowLimits pair) w) := by
  have blanks := gapBlanks_blank blank
  have ended := endsWord_blanks behind
  subst shown
  rcases rowLimits_cases source different with
    ⟨_, limits, rules⟩ | ⟨_, fetches, rules⟩ | ⟨postgresql, fetches, rules⟩ | ⟨_, mysql, rules⟩
  · have writes : ∀ m : Match, ∃ d w, TextRule.limitText (m.group 2) (m.group 1) = d :: w
        ∧ d.isUpper = true := fun _ => ⟨'L', _, rfl, rfl⟩
    obtain ⟨m, found⟩ := limitComma_found blanks behind space digits others limit before after writes
    have run : (TextRule.limitCommaRule .limit).run _ = _ := found
    rw [text, rules, TextRule.runAll_one, run]
    exact limitOffset_written blank ended others limited digits bound (limit_kept limits)
  · have writes : ∀ m : Match, ∃ d w, TextRule.offsetFetchText (m.group 1) (m.group 2) = d :: w
        ∧ d.isUpper = true := fun _ => ⟨'O', _, rfl, rfl⟩
    obtain ⟨m, found⟩ := limitComma_found blanks behind space digits others limit before after writes
    have run : (TextRule.limitCommaRule .fetchFirst).run _
      = g ++ (TextRule.offsetFetchText ds es ++ rest) := found
    rw [text, rules, TextRule.runAll_cons, run, limits_made (madeOf_append (madeOf_blanks blanks)
      (madeOf_append (offsetFetchText_made digits others) (madeOf_blanks behind)))]
    exact offsetFetch_written blank ended others limited digits bound (limit_fetched fetches)
  · rcases known with mysql | mysql
    · rw [mysql] at postgresql
      cases postgresql
    · rw [mysql] at fetches
      cases fetches
  · have made : MadeOf limitLetters w := by
      rw [text, ← List.singleton_append]
      simp only [madeOf_parts]
      exact ⟨madeOf_blanks blanks, limit.madeOf rfl, madeOf_blanks space.inside, madeOf_digits digits,
        madeOf_blanks before, madeOf_text rfl, madeOf_blanks after, madeOf_digits others,
        madeOf_blanks behind⟩
    have fetch : TextRule.fetchFirstRule.run w = w := fetchFirst_made made (by decide)
    rw [rules, TextRule.runAll_one, fetch]
    exact kept.of_eq (limit_kept (by rw [mysql]; rfl))

end Limits

/-! Offsets and fetch clauses. -/

theorem lexemes_blanks {g : List Char} (blank : ∀ c ∈ g, isBlank c = true) (s : List Char) :
    (lexemes (g ++ s)).filter (fun lexeme => !lexeme.isBlankMark)
      = (lexemes s).filter fun lexeme => !lexeme.isBlankMark := by
  induction g with
  | nil => rfl
  | cons c g ih =>
    have first := blank c List.mem_cons_self
    obtain ⟨outside, unquoted⟩ := blank_apart first
    rw [List.cons_append, lexemes_mark (opensWord_of_not_word outside) unquoted,
      List.filter_cons_of_neg (by simp [isBlankMark, first]), ih fun d member => blank d (.tail c member)]

theorem lexemes_behind {g k s : List Char} (blank : ∀ c ∈ g, isBlank c = true) (run : IsRun k)
    (ended : EndsWord s) :
    (lexemes (g ++ (k ++ s))).filter (fun lexeme => !lexeme.isBlankMark)
      = .word k :: (lexemes s).filter fun lexeme => !lexeme.isBlankMark := by
  have named : ∀ c ∈ k, opensWord c = true ∧ isNameCharacter c = true := by
    intro c member
    rcases plain_cases (run.inside c member) with letter | digit | rfl
    · exact ⟨by simp [opensWord, nameStart_of_isAlpha c letter], nameCharacter_of_isAlpha c letter⟩
    · exact ⟨by simp [opensWord, digit], nameCharacter_of_isDigit c digit⟩
    · exact ⟨rfl, rfl⟩
  have opens : k.head?.any opensWord = true := by
    cases k with
    | nil => exact absurd rfl run.nonempty
    | cons c k => simpa using (named c List.mem_cons_self).1
  rw [lexemes_blanks blank, lexemes_word opens (fun c member => (named c member).2) ended]
  rfl

theorem FetchesRows.spaced {g ds m rest : List Char} (clause : FetchesRows ds m)
    (blank : ∀ c ∈ g, isBlank c = true) (ended : EndsWord (g ++ (m ++ rest))) : IsSpace g := by
  obtain ⟨fetch, _⟩ := clause
  rw [List.append_assoc] at ended
  exact space_between blank fetch.run ended

structure FetchesOne (m : List Char) : Prop where
  made : MadeOf fetchLetters m
  uncounted : ∀ d ∈ m, d.isDigit = false

section Clauses

variable {pair : Pair} {t rest : List Char}

theorem either_run {one other : String} {k : List Char} (either : IsKeyword one k ∨ IsKeyword other k) :
    IsRun k := by
  rcases either with keyword | keyword
  · exact keyword.run
  · exact keyword.run

theorem keyword_uncounted {word : String} {k : List Char} (keyword : IsKeyword word k) :
    ∀ d ∈ k, d.isDigit = false := fun d member =>
  not_isDigit_of_isAlpha d (capital_letters (pageKeyword_capital keyword.listed).1 keyword.same d member)

theorem blanks_uncounted {g : List Char} (blank : ∀ c ∈ g, isBlank c = true) :
    ∀ d ∈ g, d.isDigit = false := by
  intro d member
  have outside := (blank_apart (blank d member)).1
  cases digit : d.isDigit with
  | false => rfl
  | true => exact (nameCharacter_of_isDigit d digit).symm.trans outside

theorem counted_parts {word : String} (listed : word ∈ pageKeywords) {count : UInt64} {l n s : List Char}
    (one : KeywordText word () l (n ++ s)) (two : CountText count n s)
    (orderly : pair.isOrderly (l ++ (n ++ s)) = true) :
    ∃ g k a ds, l = g ++ k ∧ n = a ++ ds ∧ (∀ c ∈ g, c ∈ gapBlanks) ∧ IsKeyword word k ∧ IsSpace a
      ∧ IsDigits ds ∧ digitsValue ds < UInt64.size ∧ count = countOf ds ∧ EndsWord s
      ∧ pair.isOrderly s = true ∧ breaksLimit pair k
        (.word ds :: (lexemes s).filter fun lexeme => !lexeme.isBlankMark) = false := by
  obtain ⟨g, k, rfl, blank, keyword, ended, unbroken, orderly⟩ := keyword_parts listed one orderly
  obtain ⟨a, ds, rfl, between, digits, bound, value, endedCount, orderly⟩ := count_parts two orderly
  rw [List.append_assoc] at ended unbroken
  have space := space_between between (digits_run digits) ended
  rw [lexemes_behind between (digits_run digits) endedCount] at unbroken
  exact ⟨g, k, a, ds, rfl, rfl, blank, keyword, space, digits, bound, value, endedCount, orderly,
    unbroken⟩

theorem fetch_parts {count : UInt64} (spelled : FetchText count t rest)
    (orderly : pair.isOrderly (t ++ rest) = true) :
    ∃ g m, t = g ++ m ∧ (∀ c ∈ g, c ∈ gapBlanks) ∧ pair.isOrderly rest = true
      ∧ (FetchesOne m ∧ uncountedFetch (t ++ rest) = .ok ((), rest)
        ∨ ∃ ds, FetchesRows ds m ∧ digitsValue ds < UInt64.size ∧ count = countOf ds
        ∧ ∃ f n more, f.map Char.toUpper = "FETCH".toList
          ∧ (lexemes (m ++ rest)).filter (fun lexeme => !lexeme.isBlankMark)
            = .word f :: .word n :: .word ds :: more) := by
  cases spelled with
  | @mk number f n c r o rest one two counted three four =>
    simp only [List.append_assoc] at orderly
    have alone : c = [] → uncountedFetch ((f ++ (n ++ (c ++ (r ++ o)))) ++ rest) = .ok ((), rest) := by
      rintro rfl
      simp only [List.append_assoc, List.nil_append] at one two three ⊢
      rw [uncountedFetch, bind_of_ok (keyword_complete one rfl),
        bind_of_ok (either_complete two rfl rfl (by decide)), bind_of_ok (rows_complete three)]
      exact keyword_complete four rfl
    obtain ⟨g, k, rfl, blank, fetch, ended, _, orderly⟩ := keyword_parts (by decide) one orderly
    obtain ⟨a, w, rfl, first, next, endedNext, orderly⟩ :=
      either_parts (by decide) (by decide) two orderly
    rw [List.append_assoc] at ended
    have space := space_between first (either_run next) ended
    cases counted with
    | missing =>
      rw [List.nil_append] at orderly endedNext ended
      obtain ⟨d, x, rfl, third, rows, endedRows, orderly⟩ :=
        either_parts (by decide) (by decide) three orderly
      obtain ⟨e, y, rfl, fourth, only, _, _, orderly⟩ := keyword_parts (by decide) four orderly
      have last := gapBlanks_blank fourth
      refine ⟨g, k ++ (a ++ (w ++ (d ++ (x ++ (e ++ y))))), by simp, blank, orderly,
        .inl ⟨⟨?_, ?_⟩, alone rfl⟩⟩
      · simp only [madeOf_parts]
        exact ⟨fetch.madeOf rfl, madeOf_blanks first, either_made next rfl rfl, madeOf_blanks third,
          either_made rows rfl rfl, madeOf_blanks last, only.madeOf rfl⟩
      · simp only [List.forall_mem_append]
        exact ⟨keyword_uncounted fetch, blanks_uncounted first,
          next.elim keyword_uncounted keyword_uncounted, blanks_uncounted third,
          rows.elim keyword_uncounted keyword_uncounted, blanks_uncounted last, keyword_uncounted only⟩
    | there number =>
      obtain ⟨b, ds, rfl, second, digits, bound, value, endedCount, orderly⟩ := count_parts number orderly
      obtain ⟨d, x, rfl, third, rows, endedRows, orderly⟩ :=
        either_parts (by decide) (by decide) three orderly
      obtain ⟨e, y, rfl, fourth, only, _, _, orderly⟩ := keyword_parts (by decide) four orderly
      have last := gapBlanks_blank fourth
      simp only [List.append_assoc] at ended endedNext endedCount endedRows
      have counted := space_between second (digits_run digits) endedNext
      have listed := space_between third (either_run rows) endedCount
      have closed := space_between last only.run endedRows
      have shown := @lexemes_behind [] k _ nofun fetch.run ended
      rw [lexemes_behind first (either_run next) endedNext,
        lexemes_behind second (digits_run digits) endedCount] at shown
      refine ⟨g, k ++ (a ++ (w ++ (b ++ (ds ++ (d ++ (x ++ (e ++ y))))))), by simp, blank, orderly,
        .inr ⟨ds, .mk fetch space next counted digits listed rows closed only, bound, value, k, w, _,
          fetch.same, by simp only [List.append_assoc]; exact shown⟩⟩

theorem offset_parts {count : UInt64} {rows : Bool} (spelled : OffsetText (count, rows) t rest)
    (orderly : pair.isOrderly (t ++ rest) = true) :
    ∃ g m, t = g ++ m ∧ (∀ c ∈ g, c ∈ gapBlanks) ∧ pair.isOrderly rest = true ∧ EndsWord rest
      ∧ MadeOf offsetLetters m ∧ ∃ es, digitsValue es < UInt64.size
        ∧ count = countOf es ∧ ((∀ c, IsSpace c → SkipsRows es (m ++ c))
          ∨ IsDigits es ∧ ∃ k, k.map Char.toUpper = "OFFSET".toList ∧ breaksLimit pair k
            (.word es :: (lexemes rest).filter fun lexeme => !lexeme.isBlankMark) = false) := by
  cases spelled with
  | @mk count rows o c r rest one two three =>
    simp only [List.append_assoc] at orderly
    obtain ⟨g, k, a, es, rfl, rfl, blank, offset, space, digits, bound, value, endedCount, orderly,
      unbroken⟩ := counted_parts (by decide) one two orderly
    cases three with
    | missing =>
      rw [List.nil_append] at orderly endedCount unbroken
      refine ⟨g, k ++ (a ++ es), by simp, blank, orderly, endedCount, ?_, es, bound,
        value, .inr ⟨digits, k, offset.same, unbroken⟩⟩
      exact madeOf_append (offset.madeOf rfl) (madeOf_append (madeOf_blanks space.inside) (madeOf_digits digits))
    | there shown =>
      obtain ⟨b, x, rfl, second, listed, endedRows, orderly⟩ :=
        either_parts (by decide) (by decide) shown orderly
      rw [List.append_assoc] at endedCount
      have between := space_between second (either_run listed) endedCount
      refine ⟨g, k ++ (a ++ (es ++ (b ++ x))), by simp, blank, orderly, endedRows, ?_, es, bound,
        value, .inl fun c last => ?_⟩
      · simp only [madeOf_parts]
        exact ⟨offset.madeOf rfl, madeOf_blanks space.inside, madeOf_digits digits, madeOf_blanks second,
          either_made listed rfl rfl⟩
      · simp only [List.append_assoc]
        exact .mk offset space digits between listed last

end Clauses

theorem orderly_atEnd {pair : Pair} {rest : List Char} (orderly : pair.isOrderly rest = true)
    (atEnd : AtEnd rest) : ∀ d ∈ rest, isBlank d = true := by
  rw [AtEnd, orderly_gaps orderly] at atEnd
  exact List.dropWhile_eq_nil_iff.mp atEnd

theorem uncounted_kept {pair : Pair} {page : Page} {letters body u h n rest : List Char}
    (front : MadeOf letters u) (missing : 'H' ∉ letters) (spaces : ∀ c ∈ h, isBlank c = true)
    (alone : FetchesOne n) (behind : ∀ d ∈ rest, isBlank d = true) (atEnd : AtEnd rest)
    (inside : h ++ n ++ rest <:+ body) (read : uncountedFetch (h ++ n ++ rest) = .ok ((), rest))
    (unlimited : page.limit = none) (kept : IsLimit (Eq page) rest (u ++ (h ++ n ++ rest))) :
    IsLimit (page.Converted pair body) rest
      (TextRule.fetchFirstRule.run (u ++ (h ++ n ++ rest))) := by
  have same : TextRule.fetchFirstRule.run (u ++ (h ++ n ++ rest)) = _ :=
    fetchFirst_uncounted front missing (madeOf_append (madeOf_append (madeOf_blanks spaces)
      alone.made) (madeOf_blanks behind)) (List.forall_mem_append.mpr
        ⟨List.forall_mem_append.mpr ⟨blanks_uncounted spaces, alone.uncounted⟩, blanks_uncounted behind⟩)
  have uncounted := endsUncounted_of_read inside read atEnd
  rw [same]
  exact kept.of_eq (rows_kept unlimited fun _ counted => by rw [uncounted] at counted; cases counted)

theorem loneFetch_limited {pair : Pair} {fetch : Option UInt64} {body f rest : List Char}
    (atEnd : AtEnd rest) (inside : f ++ rest <:+ body) (clause : Maybe FetchText fetch f rest)
    (orderly : pair.isOrderly (f ++ rest) = true) :
    pair.isOrderly rest = true ∧ MadeOf fetchLetters f
      ∧ (pair.target = .mysql → IsLimit (Eq (.ofOffset none fetch)) rest (f ++ rest) →
        IsLimit ((Page.ofOffset none fetch).Converted pair body) rest
          (TextRule.fetchFirstRule.run (f ++ rest))) := by
  cases clause with
  | missing =>
    refine ⟨orderly, nofun, fun _ kept => ?_⟩
    have bare : MadeOf [] ([] ++ rest) := madeOf_blanks (orderly_atEnd orderly atEnd)
    have same : TextRule.fetchFirstRule.run ([] ++ rest) = [] ++ rest := fetchFirst_made bare nofun
    rw [same]
    exact kept.of_eq (rows_kept rfl fun _ _ => rfl)
  | there clause =>
    obtain ⟨g, m, rfl, blank, last, found⟩ := fetch_parts clause orderly
    have behind := orderly_atEnd last atEnd
    have blanks := gapBlanks_blank blank
    rcases found with ⟨alone, read⟩ | ⟨ds, rows, bound, rfl, _⟩
    · exact ⟨last, madeOf_append (madeOf_blanks blanks) alone.made, fun _ kept =>
        @uncounted_kept _ _ [] _ [] _ _ _ nofun nofun blanks alone behind atEnd inside read rfl kept⟩
    · refine ⟨last, madeOf_append (madeOf_blanks blanks) rows.made, fun mysql _ => ?_⟩
      rw [List.append_assoc, fetch_run blanks behind rows]
      exact limit_written blank (endsWord_blanks behind) rows.digits bound (fetch_taken mysql)

theorem offset_limited {pair : Pair} {offset : UInt64 × Bool} {fetch : Option UInt64}
    {body o f rest : List Char} (atEnd : AtEnd rest) (inside : o ++ (f ++ rest) <:+ body)
    (one : OffsetText offset o (f ++ rest)) (two : Maybe FetchText fetch f rest)
    (orderly : pair.isOrderly (o ++ (f ++ rest)) = true) :
    pair.isOrderly rest = true ∧ MadeOf fetchLetters (o ++ f)
      ∧ (pair.source = .postgresql → pair.target = .mysql →
        IsLimit (Eq (.ofOffset (some offset) fetch)) rest (o ++ (f ++ rest)) →
        IsLimit ((Page.ofOffset (some offset) fetch).Converted pair body) rest
          (TextRule.fetchFirstRule.run (o ++ (f ++ rest)))) := by
  obtain ⟨count, shown⟩ := offset
  obtain ⟨g, m, rfl, blank, orderly, endedOffset, made, es, limited, rfl, rows⟩ := offset_parts one orderly
  have blanks := gapBlanks_blank blank
  have front : MadeOf offsetLetters (g ++ m) := madeOf_append (madeOf_blanks blanks) made
  cases two with
  | missing =>
    have behind := orderly_atEnd orderly atEnd
    refine ⟨orderly, madeOf_append (front.more rfl) nofun, fun _ _ kept => ?_⟩
    have same : TextRule.fetchFirstRule.run (g ++ m ++ rest) = g ++ m ++ rest :=
      fetchFirst_made (madeOf_append front (madeOf_blanks behind)) (by decide)
    rw [List.nil_append] at kept ⊢
    rw [same]
    exact kept.of_eq (rows_kept rfl fun _ _ => rfl)
  | there clause =>
    obtain ⟨h, n, rfl, between, last, found⟩ := fetch_parts clause orderly
    have behind := orderly_atEnd last atEnd
    have spaces := gapBlanks_blank between
    rcases found with ⟨alone, read⟩ | ⟨ds, counted, bound, rfl, fetch, next, more, word, shown⟩
    · exact ⟨last, madeOf_append (front.more rfl) (madeOf_append (madeOf_blanks spaces) alone.made),
        fun _ _ => uncounted_kept front (by decide) spaces alone behind atEnd
          ((List.suffix_append _ _).trans inside) read rfl⟩
    · refine ⟨last, madeOf_append (front.more rfl) (madeOf_append (madeOf_blanks spaces) counted.made),
        fun postgresql mysql _ => ?_⟩
      rw [List.append_assoc h] at endedOffset
      rcases rows with skips | ⟨others, k, offset, unbroken⟩
      · have skipped := skips h (counted.spaced spaces endedOffset)
        have run := offsetFetch_run blanks behind counted skipped
        simp only [List.append_assoc] at run ⊢
        rw [run]
        exact limitOffset_written blank (endsWord_blanks behind) counted.digits bound skipped.digits
          limited (fetch_taken mysql)
      · -- an offset without its word in front of such a clause is not orderly
        rw [List.append_assoc, lexemes_blanks spaces, shown] at unbroken
        simp [breaksLimit, postgresql, mysql, offset, word, List.all_eq_true.mpr others.inside,
          List.all_eq_true.mpr counted.digits.inside] at unbroken

/-! All forms of a row limit. -/

section Pages

variable {pair : Pair} (source : pair.source = .mysql ∨ pair.source = .postgresql)
  (different : pair.target ≠ pair.source) {body : List Char}
include source different

theorem page_limited {page : Page} {t rest : List Char} (spelled : PageText page t rest)
    (atEnd : AtEnd rest) (inside : t ++ rest <:+ body) (orderly : pair.isOrderly (t ++ rest) = true) :
    pair.isOrderly rest = true ∧ MadeOf pageLetters t
      ∧ IsLimit (page.Converted pair body) rest
        (TextRule.runAll (TextRule.rowLimits pair) (t ++ rest)) := by
  have kept : MadeOf pageLetters t → IsLimit (Eq page) rest (t ++ rest) :=
    fun made => ⟨page, t, rfl, spelled, made, rfl⟩
  cases spelled with
  | @comma skipped count l m c n rest one two three four =>
    simp only [List.append_assoc] at orderly
    obtain ⟨g, k, a, ds, rfl, rfl, blank, limit, space, digits, bound, rfl, _, orderly, unbroken⟩ :=
      counted_parts (by decide) one two orderly
    obtain ⟨b, rfl, before, orderly⟩ := comma_parts three orderly
    obtain ⟨c, es, rfl, after, others, limited, rfl, _, last⟩ := count_parts four orderly
    have made : MadeOf pageLetters (g ++ k ++ (a ++ ds ++ (b ++ [','] ++ (c ++ es)))) := by
      simp only [madeOf_parts]
      exact ⟨⟨madeOf_blanks (gapBlanks_blank blank), limit.made⟩, ⟨madeOf_blanks space.inside,
        madeOf_digits digits⟩, ⟨madeOf_blanks before, madeOf_text rfl⟩, madeOf_blanks after,
        madeOf_digits others⟩
    have known : pair.source = .mysql ∨ pair.target = .mysql := by
      refine source.imp id fun postgresql => ?_
      by_contra other
      rw [List.append_assoc, lexemes_blanks before, List.cons_append, lexemes_mark rfl rfl,
        List.filter_cons_of_pos rfl] at unbroken
      simp [breaksLimit, postgresql, other, limit.same, List.all_eq_true.mpr digits.inside] at unbroken
    exact ⟨last, made, limitComma_limited source different blank (orderly_atEnd last atEnd) limit space
      digits bound others limited before after known (by simp) rfl (kept made)⟩
  | @limit count offset l n o rest one two three =>
    simp only [List.append_assoc] at orderly
    obtain ⟨g, k, a, ds, rfl, rfl, blank, limit, space, digits, bound, rfl, endedCount, orderly, _⟩ :=
      counted_parts (by decide) one two orderly
    have front : MadeOf pageLetters (g ++ k ++ (a ++ ds)) :=
      madeOf_append (madeOf_append (madeOf_blanks (gapBlanks_blank blank)) limit.made)
        (madeOf_append (madeOf_blanks space.inside) (madeOf_digits digits))
    cases three with
    | missing =>
      rw [List.append_nil] at kept ⊢
      exact ⟨orderly, front, limitAlone_limited source different blank (orderly_atEnd orderly atEnd)
        limit space digits bound (by simp) rfl (kept front)⟩
    | there shown =>
      obtain ⟨_, m, v, rfl, four, five⟩ := shown
      rw [List.append_assoc] at orderly endedCount
      obtain ⟨b, x, c, es, rfl, rfl, second, offset, after, others, limited, rfl, _, last, _⟩ :=
        counted_parts (by decide) four five orderly
      have before := gapBlanks_blank second
      rw [List.append_assoc] at endedCount
      have made := madeOf_append front (madeOf_append (madeOf_append (madeOf_blanks before) offset.made)
        (madeOf_append (madeOf_blanks after.inside) (madeOf_digits others)))
      rw [List.append_assoc] at made
      exact ⟨last, made, limitOffset_limited source different blank (orderly_atEnd last atEnd) limit space
        digits bound others limited (space_between before offset.run endedCount) offset after (by simp)
        rfl (kept made)⟩
  | @offset offset fetch o f rest one two =>
    have clauses : pair.isOrderly rest = true ∧ MadeOf fetchLetters (o ++ f)
        ∧ (pair.source = .postgresql → pair.target = .mysql →
          IsLimit (Eq (.ofOffset offset fetch)) rest (o ++ f ++ rest) →
          IsLimit ((Page.ofOffset offset fetch).Converted pair body) rest
            (TextRule.fetchFirstRule.run (o ++ f ++ rest))) := by
      rw [List.append_assoc] at orderly inside ⊢
      cases one with
      | missing =>
        obtain ⟨last, made, fetched⟩ := loneFetch_limited atEnd inside two orderly
        exact ⟨last, made, fun _ => fetched⟩
      | there clause => exact offset_limited atEnd inside clause two orderly
    obtain ⟨last, made, fetched⟩ := clauses
    have behind := orderly_atEnd last atEnd
    have readable : MadeOf pageLetters (o ++ f) := made.more rfl
    exact ⟨last, readable, fetch_limited source different (madeOf_append made (madeOf_blanks behind)) rfl
      (kept readable) fun postgresql mysql => fetched postgresql mysql (kept readable)⟩

/-- The row limit of an orderly text is found again as one that asks for the same rows. -/
theorem converts_page {page : Page} {t rest : List Char} (spelled : PageText page t rest)
    (atEnd : AtEnd rest) (inside : t ++ rest <:+ body) (orderly : pair.isOrderly (t ++ rest) = true) :
    pair.Converts.Finds PageText (page.Converted pair body) rest (pair.converted (t ++ rest)) := by
  obtain ⟨last, made, found, t', split, limit, again, asks⟩ :=
    page_limited source different spelled atEnd inside orderly
  have behind := orderly_atEnd last atEnd
  have blanks : MadeOf pageLetters rest := madeOf_blanks behind
  have whole := converted_page source different (madeOf_append made blanks) split
    (madeOf_append again blanks)
  have steps := converted_steps source different
  have kept : pair.converted rest = rest := by
    have passed := steps.blanks behind []
    rwa [List.append_nil, steps.nil, List.append_nil] at passed
  exact ⟨found, t', rest, whole, limit, asks, last, kept.symm⟩

end Pages

end SqlDialects
