import SqlDialects.Proofs.Rules.Orderly

/-
Row limits in an orderly text. However its words and counts are spaced, the rules of a pair put a row
limit in the form of the target or leave it alone, and either can be read. Rules that find nothing are
told by a letter or a sign that they need and the row limit lacks.
-/
namespace SqlDialects

open Text Pattern Reader Change

/-! Texts in which a pattern finds nothing. -/

theorem outside_failing {p : Pattern} {write : Match → List Char} {s : List Char} (code : '\x27' ∉ s)
    (fails : ∀ before t, t <:+ s → p.matchAt? before t = none) :
    outsideLiterals (p.replaceAll write) s = s := by
  have same : ∀ (t : List Char) before, t <:+ s → replaceFrom p write before 0 false t = t := by
    intro t
    induction t with
    | nil => exact fun before inside => by rw [replaceFrom_nil, fails before [] inside]
    | cons c t ih =>
      intro before inside
      rw [replaceFrom_step (fails before _ inside), ih _ ((List.suffix_cons c t).trans inside)]
  rw [outsideLiterals_code _ code]
  exact same s none (List.suffix_refl s)

theorem outside_lacking {p : Pattern} {write : Match → List Char} {test : Char → Prop}
    (needs : ∀ cursor, ∀ x ∈ p.ends cursor, ∃ d ∈ cursor.rest, test d) {s : List Char}
    (code : '\x27' ∉ s) (lacks : ∀ d ∈ s, ¬ test d) : outsideLiterals (p.replaceAll write) s = s := by
  refine outside_failing code fun before t inside => matchAt_none fun x found => ?_
  obtain ⟨d, member, passed⟩ := needs _ x found
  exact lacks d (inside.subset member) passed

/-! The characters of a row limit. -/

def MadeOf (letters : List Char) (s : List Char) : Prop :=
  ∀ d ∈ s, isBlank d = true ∨ d.isDigit = true ∨ d = ',' ∨ d.isAlpha = true ∧ d.toUpper ∈ letters

section MadeOf

variable {letters s t : List Char}

theorem madeOf_append (first : MadeOf letters s) (second : MadeOf letters t) :
    MadeOf letters (s ++ t) := by
  intro d member
  rcases List.mem_append.mp member with member | member
  · exact first d member
  · exact second d member

theorem madeOf_blanks (blank : ∀ c ∈ s, isBlank c = true) : MadeOf letters s :=
  fun d member => .inl (blank d member)

theorem madeOf_digits (digits : IsDigits s) : MadeOf letters s :=
  fun d member => .inr (.inl (digits.inside d member))

theorem madeOf_text (check : (s.all fun d => isBlank d || d.isDigit || d == ','
    || d.isAlpha && letters.contains d.toUpper) = true) : MadeOf letters s := by
  intro d member
  simpa [or_assoc] using List.all_eq_true.mp check d member

theorem MadeOf.more {others : List Char} (made : MadeOf letters s)
    (known : letters.all others.contains = true) : MadeOf others s :=
  fun d member => (made d member).imp id fun other => other.imp id fun other =>
    other.imp id fun letter => ⟨letter.1, by simpa using List.all_eq_true.mp known _ letter.2⟩

theorem madeOf_keyword {word : String} (capital : Capital word) (same : s.map Char.toUpper = word.toList)
    (known : ∀ c ∈ word.toList, c ∈ letters) : MadeOf letters s := by
  intro d member
  refine .inr (.inr (.inr ⟨capital_letters capital same d member, known _ ?_⟩))
  rw [← same]
  exact List.mem_map_of_mem member

section Made

variable (made : MadeOf letters s)
include made

theorem MadeOf.ne {c : Char} (solid : isBlank c = false) (other : c.isDigit = false)
    (mark : c ≠ ',') (sign : c.isAlpha = false) : c ∉ s := by
  intro member
  rcases made c member with blank | digit | comma | ⟨letter, _⟩
  · rw [solid] at blank
    cases blank
  · rw [other] at digit
    cases digit
  · exact mark comma
  · rw [sign] at letter
    cases letter

theorem MadeOf.lacks {c : Char} (upper : c.isUpper = true) (missing : c ∉ letters) :
    ∀ d ∈ s, foldCase d ≠ foldCase c := by
  intro d member same
  have letter : c.isAlpha = true := by simp [Char.isAlpha, upper]
  have folded : foldCase c = c.toLower := foldCase_plain (plain_of_isAlpha letter)
  rcases made d member with blank | digit | rfl | ⟨alpha, known⟩
  · have word := wordCharacter_of_fold same (by simp [isCapital, upper])
    rw [not_wordCharacter_of_blank blank] at word
    cases word
  · rw [foldCase_digit digit] at same
    have other := not_isDigit_of_isAlpha c.toLower (by simpa using letter)
    rw [← folded, ← same, digit] at other
    cases other
  · have word := wordCharacter_of_fold same (by simp [isCapital, upper])
    cases word
  · rw [foldCase_plain (plain_of_isAlpha alpha), folded] at same
    have raised : d.toUpper = c.toUpper := by simpa using congrArg Char.toUpper same
    rw [raised, Char.toUpper_eq_of_not_isLower (Char.not_isLower_of_isUpper upper)] at known
    exact missing known

end Made

end MadeOf

def pageLetters : List Char := "LIMTOFSERWCHNXY".toList

def limitLetters : List Char := "LIMTOFSE".toList

def offsetLetters : List Char := "OFSETRW".toList

def fetchLetters : List Char := "LITOFSERWCHNXY".toList

/-! Rules that leave a row limit alone. -/

theorem char_found (c : Char) (cursor : Cursor) :
    ∀ x ∈ (Pattern.char c).ends cursor, ∃ d ∈ cursor.rest, d = c := by
  intro x found
  obtain ⟨d, same, split, _⟩ := mem_takeOne found
  exact ⟨d, by simp [split], by simpa using same⟩

section Kept

variable {letters s : List Char} (made : MadeOf letters s)
include made

theorem MadeOf.code : '\x27' ∉ s := made.ne rfl rfl (by decide) rfl

theorem renamedBy_made (table : List FunctionMapping) : renamedBy table s = s := by
  have rename : ∀ source target, (TextRule.renameRule source target).run s = s := by
    intro source target
    have kept : ∀ parts write, outsideLiterals ((wordThen source
        (TextRule.blanks :: .char '(' :: parts)).replaceAll write) s = s := by
      intro parts write
      refine outside_lacking (sequence_needs (char_found '(') [.boundary, anyCase source, TextRule.blanks]
        parts) made.code ?_
      rintro d member rfl
      exact made.ne rfl rfl (by decide) rfl member
    cases niladic : isNiladic target with
    | false => exact (congrFun (renameRule_called niladic) s).trans (kept _ _)
    | true => exact (congrFun (renameRule_bare niladic) s).trans (kept _ _)
  induction table with
  | nil => rfl
  | cons mapping table ih =>
    rw [renamedBy_cons]
    cases mapping.action.target? with
    | none => exact ih
    | some target =>
      simp only
      rw [rename, ih]

theorem quotes_made (pair : Pair) : TextRule.runAll (TextRule.quotes pair) s = s := by
  rw [TextRule.quotes]
  split
  · rfl
  · rw [TextRule.runAll_one]
    have plain : ∀ c ∈ s, c ≠ '\x27' ∧ c ≠ pair.source.quote := by
      refine fun c member => ⟨fun wrong => made.code (wrong ▸ member), fun wrong => ?_⟩
      rw [wrong] at member
      rcases List.mem_pair.mp (quote_nameQuote pair.source) with quote | quote
      · rw [quote] at member
        exact made.ne rfl rfl (by decide) rfl member
      · rw [quote] at member
        exact made.ne rfl rfl (by decide) rfl member
    have kept := @requote_plain _ pair.target.quote _ plain []
    rw [List.append_nil] at kept
    exact kept.trans (List.append_nil s)

theorem operators_made (pair : Pair) (missing : 'K' ∉ letters) :
    TextRule.runAll (TextRule.operators pair) s = s := by
  rw [TextRule.operators]
  split
  · rw [TextRule.runAll_one]
    exact outside_lacking (sequence_needs (@anyCase_needs "ILIKE" 'K' (by decide)) [.boundary] [.boundary])
      made.code (made.lacks rfl missing)
  · rfl

theorem limit_made {parts : List Pattern} {write : Match → List Char} (missing : 'M' ∉ letters) :
    outsideLiterals ((wordThen "LIMIT" parts).replaceAll write) s = s :=
  outside_lacking (sequence_needs (@anyCase_needs "LIMIT" 'M' (by decide)) [.boundary] parts) made.code
    (made.lacks rfl missing)

theorem limitComma_made {write : Match → List Char} (missing : ',' ∉ s) :
    outsideLiterals (TextRule.limitComma.replaceAll write) s = s :=
  outside_lacking (sequence_needs (char_found ',') [.boundary, anyCase "LIMIT", TextRule.gap,
    TextRule.number 1, TextRule.blanks] [TextRule.blanks, TextRule.number 2]) made.code
    (fun _ member same => missing (same ▸ member))

theorem limitOffset_made {write : Match → List Char} (missing : 'O' ∉ letters) :
    outsideLiterals (TextRule.limitOffset.replaceAll write) s = s :=
  outside_lacking (sequence_needs (@anyCase_needs "OFFSET" 'O' (by decide)) [.boundary, anyCase "LIMIT",
    TextRule.gap, TextRule.number 1, TextRule.gap] [TextRule.gap, TextRule.number 2]) made.code
    (made.lacks rfl missing)

theorem fetchFirst_made {write : Match → List Char} (missing : 'H' ∉ letters) :
    outsideLiterals (TextRule.fetchFirst.replaceAll write) s = s :=
  outside_lacking (sequence_needs (@anyCase_needs "FETCH" 'H' (by decide))
    [.either offsetPart .empty, .boundary] _) made.code (made.lacks rfl missing)

end Kept

theorem converted_page {pair : Pair} (source : pair.source = .mysql ∨ pair.source = .postgresql)
    (different : pair.target ≠ pair.source) {s w : List Char} (made : MadeOf pageLetters s)
    (limited : TextRule.runAll (TextRule.rowLimits pair) s = w) (again : MadeOf pageLetters w) :
    pair.converted s = w := by
  rw [converted_eq source different, renamedBy_made made, Pair.finished, TextRule.runAll_append,
    limited, TextRule.runAll_append, quotes_made again, operators_made again pair (by decide)]

/-! Patterns over the parts of a row limit. -/

structure IsSpace (g : List Char) : Prop where
  nonempty : g ≠ []
  inside : ∀ c ∈ g, isBlank c = true

def Takes (p : Pattern) (m rest : List Char) (groups found : List (Nat × List Char)) : Prop :=
  ∀ before, p.first ⟨before, m ++ rest, groups⟩ = some ⟨m.getLast?.or before, rest, found⟩

section Takes

variable {m n rest : List Char} {groups middle found : List (Nat × List Char)}

theorem takes_cons {p : Pattern} {parts : List Pattern} (one : Takes p m (n ++ rest) groups middle)
    (later : Takes (sequence parts) n rest middle found) :
    Takes (sequence (p :: parts)) (m ++ n) rest groups found := by
  intro before
  rw [List.append_assoc, List.getLast?_append, Option.or_assoc]
  exact first_seq (one before) (later _)

theorem takes_last {p : Pattern} (one : Takes p m rest groups found) :
    Takes (sequence [p]) m rest groups found :=
  fun before => first_seq (one before) rfl

theorem takes_gap (space : IsSpace m) (solid : Solid rest) : Takes TextRule.gap m rest groups groups := by
  intro before
  cases m with
  | nil => exact absurd rfl space.nonempty
  | cons c m => exact @first_plus .blank _ rfl c m _ space.inside solid _ rfl

theorem takes_blanks (blank : ∀ c ∈ m, isBlank c = true) (solid : Solid rest) :
    Takes TextRule.blanks m rest groups groups :=
  fun _ => @first_star .blank _ rfl m _ blank solid _ rfl

theorem takes_number (part : Nat) (digits : IsDigits m) (stop : StopsNumber rest) :
    Takes (TextRule.number part) m rest groups ((part, m) :: groups) :=
  fun _ => number_first part digits stop rfl

theorem takes_word {word : String} (same : Same m word) : Takes (anyCase word) m rest groups groups :=
  fun _ => first_anyCase same rfl

theorem takes_char (c : Char) : Takes (.char c) [c] rest groups groups :=
  fun _ => first_char rfl

theorem takes_wordThen {word : String} {parts : List Pattern} {k : List Char} {before : Option Char}
    (aside : before.any isWordCharacter = false) (letters : IsPatternWord k) (same : Same k word)
    (later : Takes (sequence parts) n rest groups found) :
    (wordThen word parts).first ⟨before, k ++ (n ++ rest), groups⟩
      = some ⟨(k ++ n).getLast?.or before, rest, found⟩ := by
  rw [List.getLast?_append, Option.or_assoc]
  exact first_word aside letters same (later _)

end Takes

theorem limit_found {p : Pattern} {write : Match → List Char} {starts : List String} {calls : Bool}
    (seeking : Seeking p write starts calls) {g m rest : List Char} {last : Option Char}
    {groups : List (Nat × List Char)} (blank : ∀ c ∈ g, isBlank c = true) (code : '\x27' ∉ m)
    (behind : ∀ c ∈ rest, isBlank c = true)
    (first : p.first ⟨none, m ++ rest, []⟩ = some ⟨last, rest, groups⟩) :
    outsideLiterals (p.replaceAll write) (g ++ (m ++ rest)) = g ++ (write ⟨m, groups⟩ ++ rest) := by
  have steps := seeking.steps
  have leading : leadingCode rest = rest := by
    refine List.takeWhile_eq_self_iff.mpr fun c member => ?_
    rw [Bool.not_eq_true', beq_eq_false_iff_ne]
    rintro rfl
    cases behind _ member
  have ended : EndsRun rest := by
    intro c begins
    exact not_wordCharacter_of_blank (behind c (List.mem_of_head? begins))
  have kept : outsideLiterals (p.replaceAll write) rest = rest := by
    have passed := steps.blanks behind []
    rwa [List.append_nil, steps.nil, List.append_nil] at passed
  have matched : p.matchAt? none (m ++ leadingCode rest) = some ⟨m, groups⟩ := by
    rw [leading]
    exact matchAt_of_first first rfl
  rw [steps.blanks blank, outside_found seeking.begins (fun c member wrong => code (wrong ▸ member))
    matched rfl (.inr ended), kept]

theorem stopsNumber_blanks {g : List Char} (blank : ∀ c ∈ g, isBlank c = true) {s : List Char}
    (next : StopsNumber s) : StopsNumber (g ++ s) := by
  intro c first
  cases g with
  | nil => exact next c first
  | cons d g =>
    cases first
    cases digit : isPatternDigit c with
    | false => rfl
    | true => exact (blank c List.mem_cons_self).symm.trans (solid_of_digit digit)

theorem stopsNumber_space {g : List Char} (space : IsSpace g) (s : List Char) :
    StopsNumber (g ++ s) := by
  intro c first
  cases g with
  | nil => exact absurd rfl space.nonempty
  | cons d g => exact stopsNumber_blanks (s := []) space.inside stopsNumber_nil c (by simpa using first)

structure IsKeyword (word : String) (k : List Char) : Prop where
  listed : word ∈ pageKeywords
  same : k.map Char.toUpper = word.toList

theorem pageKeyword_capital {word : String} (listed : word ∈ pageKeywords) :
    Capital word ∧ word.toList ≠ [] ∧ word.toList.all pageLetters.contains = true := by
  have check : pageKeywords.all (fun word => word.toList.all Char.isUpper && !word.toList.isEmpty
      && word.toList.all pageLetters.contains) = true := by decide
  have known := List.all_eq_true.mp check word listed
  simp only [Bool.and_eq_true, Bool.not_eq_true', List.isEmpty_eq_false_iff] at known
  exact ⟨known.1.1, known.1.2, known.2⟩

namespace IsKeyword

variable {word : String} {k : List Char} (keyword : IsKeyword word k)
include keyword

theorem looks : Same k word := same_of_upper (pageKeyword_capital keyword.listed).1 keyword.same

theorem run : IsRun k := by
  obtain ⟨capital, nonempty, _⟩ := pageKeyword_capital keyword.listed
  refine ⟨?_, fun c member => plain_of_isAlpha (capital_letters capital keyword.same c member)⟩
  rintro rfl
  exact nonempty keyword.same.symm

theorem madeOf {letters : List Char} (known : word.toList.all letters.contains = true) :
    MadeOf letters k :=
  madeOf_keyword (pageKeyword_capital keyword.listed).1 keyword.same (by simpa using known)

theorem made : MadeOf pageLetters k := keyword.madeOf (pageKeyword_capital keyword.listed).2.2

end IsKeyword

section Found

variable {g l a ds b o c es rest : List Char} (blank : ∀ d ∈ g, isBlank d = true)
  (behind : ∀ d ∈ rest, isBlank d = true) (space : IsSpace a) (digits : IsDigits ds)
  (others : IsDigits es) (limit : IsKeyword "LIMIT" l)

include blank behind limit in
theorem limit_taken {parts : List Pattern} {write : Match → List Char}
    (seeking : Seeking (wordThen "LIMIT" parts) write ["LIMIT"] false)
    {n : List Char} {groups : List (Nat × List Char)} (taken : Takes (sequence parts) n rest [] groups)
    (made : MadeOf pageLetters n) :
    outsideLiterals ((wordThen "LIMIT" parts).replaceAll write) (g ++ (l ++ (n ++ rest)))
      = g ++ (write ⟨l ++ n, groups⟩ ++ rest) := by
  have first := @takes_wordThen n rest [] groups "LIMIT" parts l none rfl limit.run.word limit.looks
    taken
  rw [← List.append_assoc] at first
  rw [← List.append_assoc l]
  exact limit_found seeking blank (madeOf_append limit.made made).code behind first

theorem stopsNumber_end (behind : ∀ d ∈ rest, isBlank d = true) : StopsNumber rest := by
  rw [← List.append_nil rest]
  exact stopsNumber_blanks behind stopsNumber_nil

include space digits in
theorem takes_count (part : Nat) {groups : List (Nat × List Char)} (stop : StopsNumber rest) :
    Takes (sequence [TextRule.gap, TextRule.number part]) (a ++ ds) rest groups ((part, ds) :: groups) :=
  takes_cons (takes_gap space ((digits_run digits).solid _)) (takes_last (takes_number part digits stop))

include blank behind space digits limit in
theorem limitAlone_run :
    TextRule.limitAloneRule.run (g ++ (l ++ (a ++ (ds ++ rest))))
      = g ++ (TextRule.fetchText ds ++ rest) := by
  have found := limit_taken blank behind limit
    (@limit_seeking [] (fun found => TextRule.fetchText (found.group 1))
      (fun _ => ⟨'F', _, rfl, rfl⟩) (nameQuotes_both rfl rfl))
    (takes_count space digits 1 (stopsNumber_end behind))
    (madeOf_append (madeOf_blanks space.inside) (madeOf_digits digits))
  rw [List.append_assoc] at found
  exact found

include blank behind space digits limit others in
theorem limitComma_found (first : ∀ d ∈ b, isBlank d = true) (second : ∀ d ∈ c, isBlank d = true)
    {write : Match → List Char} (writes : ∀ m, ∃ d w, write m = d :: w ∧ d.isUpper = true) :
    ∃ m, outsideLiterals (TextRule.limitComma.replaceAll write)
        (g ++ (l ++ (a ++ (ds ++ (b ++ (',' :: (c ++ (es ++ rest))))))))
      = g ++ (write ⟨m, [(2, es), (1, ds)]⟩ ++ rest) := by
  have comma : ∀ {s}, Solid (',' :: s) := by
    intro s d found
    cases found
    rfl
  have stop : StopsNumber (',' :: (c ++ (es ++ rest))) := by
    intro d found
    cases found
    rfl
  have taken : Takes (sequence [TextRule.gap, TextRule.number 1, TextRule.blanks, .char ',',
      TextRule.blanks, TextRule.number 2]) (a ++ (ds ++ (b ++ ([','] ++ (c ++ es))))) rest []
      [(2, es), (1, ds)] := by
    refine takes_cons (takes_gap space ?_) (takes_cons (takes_number 1 digits ?_) (takes_cons
      (takes_blanks first comma) (takes_cons (takes_char ',') (takes_cons (takes_blanks second ?_)
        (takes_last (takes_number 2 others (stopsNumber_end behind)))))))
    · rw [List.append_assoc]
      exact (digits_run digits).solid _
    · simp only [List.append_assoc]
      exact stopsNumber_blanks first stop
    · exact (digits_run others).solid _
  have found := limit_taken blank behind limit (@limit_seeking _ write writes (nameQuotes_both rfl rfl))
    taken (madeOf_append (madeOf_blanks space.inside) (madeOf_append (madeOf_digits digits)
      (madeOf_append (madeOf_blanks first) (madeOf_append (madeOf_text rfl)
        (madeOf_append (madeOf_blanks second) (madeOf_digits others))))))
  simp only [List.append_assoc, List.cons_append, List.nil_append] at found
  exact ⟨_, found⟩

include blank behind space digits limit others in
theorem limitOffset_run (before : IsSpace b) (offset : IsKeyword "OFFSET" o) (after : IsSpace c) :
    TextRule.limitOffsetRule.run (g ++ (l ++ (a ++ (ds ++ (b ++ (o ++ (c ++ (es ++ rest))))))))
      = g ++ (TextRule.offsetFetchText es ds ++ rest) := by
  have taken : Takes (sequence [TextRule.gap, TextRule.number 1, TextRule.gap, anyCase "OFFSET",
      TextRule.gap, TextRule.number 2]) (a ++ (ds ++ (b ++ (o ++ (c ++ es))))) rest []
      [(2, es), (1, ds)] := by
    refine takes_cons (takes_gap space ?_) (takes_cons (takes_number 1 digits ?_) (takes_cons
      (takes_gap before ?_) (takes_cons (takes_word offset.looks)
        (takes_count after others 2 (stopsNumber_end behind)))))
    · rw [List.append_assoc]
      exact (digits_run digits).solid _
    · simpa only [List.append_assoc] using stopsNumber_space before _
    · rw [List.append_assoc]
      exact offset.run.solid _
  have found := limit_taken blank behind limit
    (@limit_seeking _ (fun found => TextRule.offsetFetchText (found.group 2) (found.group 1))
      (fun _ => ⟨'O', _, rfl, rfl⟩) (nameQuotes_both rfl rfl))
    taken (madeOf_append (madeOf_blanks space.inside) (madeOf_append (madeOf_digits digits)
      (madeOf_append (madeOf_blanks before.inside) (madeOf_append offset.made
        (madeOf_append (madeOf_blanks after.inside) (madeOf_digits others))))))
  simp only [List.append_assoc] at found
  exact found

end Found

/-! Fetch clauses. -/

theorem takes_rows {r rest : List Char} (rows : IsKeyword "ROWS" r ∨ IsKeyword "ROW" r)
    (ended : EndsRun rest) {groups : List (Nat × List Char)} :
    Takes TextRule.rowOrRows r rest groups groups := by
  have letter : ∀ {m more : List Char} {groups found : List (Nat × List Char)},
      Takes (Pattern.optional (.letter 'S')) m more groups found →
      ∀ {k}, Same k "ROW" → Takes TextRule.rowOrRows (k ++ m) more groups found :=
    fun last _ same => takes_cons (takes_word same) (takes_last last)
  rcases rows with rows | rows
  · have same : r.map foldCase = "ROW".toList.map foldCase ++ [foldCase 'S'] := rows.looks
    obtain ⟨k, m, rfl, row, last⟩ := List.map_eq_append_iff.mp same
    obtain ⟨d, rfl, fold⟩ := List.map_eq_singleton_iff.mp last
    refine letter (fun before => optional_taken ?_) row
    rw [first, ends_letter, first_takeOne rfl (by simpa using fold)]
    rfl
  · rw [← List.append_nil r]
    refine letter (fun before => optional_skipped ?_) rows.looks
    rw [first, List.head?_eq_none_iff]
    refine List.eq_nil_iff_forall_not_mem.mpr fun x found => ?_
    obtain ⟨d, same, split, _⟩ := mem_takeOne found
    have word := wordCharacter_of_fold (c := d) (d := 'S') (by simpa using same) rfl
    rw [ended d (by rw [show rest = _ from split]; rfl)] at word
    cases word

theorem same_head {k : List Char} {word : String} (nonempty : word.toList ≠ []) (same : Same k word)
    (rest : List Char) : (k ++ rest).head?.map foldCase = word.toList.head?.map foldCase := by
  cases k with
  | nil => exact absurd (by simpa [Same] using same.symm) nonempty
  | cons c k =>
    cases split : word.toList with
    | nil => exact absurd split nonempty
    | cons d w =>
      rw [Same, split] at same
      exact congrArg some (List.cons.inj same).1

theorem takes_next {n rest : List Char} (next : IsKeyword "FIRST" n ∨ IsKeyword "NEXT" n)
    {groups : List (Nat × List Char)} :
    Takes (.either (anyCase "FIRST") (anyCase "NEXT")) n rest groups groups := by
  intro before
  rw [first_either]
  rcases next with next | next
  · rw [takes_word next.looks before]
    rfl
  · have none : (anyCase "FIRST").first ⟨before, n ++ rest, groups⟩ = none := by
      rw [first, List.head?_eq_none_iff]
      refine List.eq_nil_iff_forall_not_mem.mpr fun x found => ?_
      obtain ⟨k, split, same, _⟩ := mem_anyCase found
      have heads := same_head (by decide) next.looks rest
      rw [show n ++ rest = _ from split, same_head (by decide) same] at heads
      exact absurd heads (by decide)
    rw [none, takes_word next.looks before]
    rfl

theorem endsRun_space {g : List Char} (space : IsSpace g) (s : List Char) : EndsRun (g ++ s) := by
  cases g with
  | nil => exact absurd rfl space.nonempty
  | cons c g => exact endsRun_cons (not_wordCharacter_of_blank (space.inside c List.mem_cons_self)) _

inductive FetchesRows (ds : List Char) : List Char → Prop
  | mk {f a n b c r d k : List Char} (fetch : IsKeyword "FETCH" f) (space : IsSpace a)
      (next : IsKeyword "FIRST" n ∨ IsKeyword "NEXT" n) (gap : IsSpace b) (digits : IsDigits ds)
      (behind : IsSpace c) (rows : IsKeyword "ROWS" r ∨ IsKeyword "ROW" r) (last : IsSpace d)
      (only : IsKeyword "ONLY" k) :
      FetchesRows ds (f ++ (a ++ (n ++ (b ++ (ds ++ (c ++ (r ++ (d ++ k))))))))

inductive SkipsRows (es : List Char) : List Char → Prop
  | mk {o a b r c : List Char} (offset : IsKeyword "OFFSET" o) (space : IsSpace a) (digits : IsDigits es)
      (behind : IsSpace b) (rows : IsKeyword "ROWS" r ∨ IsKeyword "ROW" r) (last : IsSpace c) :
      SkipsRows es (o ++ (a ++ (es ++ (b ++ (r ++ c)))))

theorem either_made {one other : String} {letters k : List Char}
    (either : IsKeyword one k ∨ IsKeyword other k) (known : one.toList.all letters.contains = true)
    (also : other.toList.all letters.contains = true) : MadeOf letters k := by
  rcases either with keyword | keyword
  · exact keyword.madeOf known
  · exact keyword.madeOf also

theorem either_solid {one other : String} {k : List Char} (either : IsKeyword one k ∨ IsKeyword other k)
    (s : List Char) : Solid (k ++ s) := by
  rcases either with keyword | keyword
  · exact keyword.run.solid s
  · exact keyword.run.solid s

namespace FetchesRows

variable {ds m : List Char} (clause : FetchesRows ds m)
include clause

theorem digits : IsDigits ds := by
  obtain ⟨_, _, _, _, digits, _⟩ := clause
  exact digits

theorem made : MadeOf fetchLetters m := by
  obtain ⟨fetch, space, next, gap, digits, behind, rows, last, only⟩ := clause
  exact madeOf_append (fetch.madeOf rfl) (madeOf_append (madeOf_blanks space.inside)
    (madeOf_append (either_made next rfl rfl) (madeOf_append (madeOf_blanks gap.inside)
      (madeOf_append (madeOf_digits digits) (madeOf_append (madeOf_blanks behind.inside)
        (madeOf_append (either_made rows rfl rfl)
          (madeOf_append (madeOf_blanks last.inside) (only.madeOf rfl))))))))

theorem begins (rest : List Char) : (m ++ rest).head?.map foldCase = some 'f' ∧ Solid (m ++ rest) := by
  obtain ⟨fetch, _⟩ := clause
  rw [List.append_assoc]
  exact ⟨same_head (by decide) fetch.looks _, fetch.run.solid _⟩

theorem taken {before : Option Char} (aside : before.any isWordCharacter = false) (rest : List Char)
    (groups : List (Nat × List Char)) : ∃ stop, fetchPart.first ⟨before, m ++ rest, groups⟩
      = some ⟨stop, rest, (2, ds) :: groups⟩ := by
  obtain ⟨fetch, space, next, gap, digits, behind, rows, last, only⟩ := clause
  rw [List.append_assoc]
  refine ⟨_, takes_wordThen aside fetch.run.word fetch.looks (takes_cons (takes_gap space ?_)
    (takes_cons (takes_next next) (takes_cons (takes_gap gap ?_) (takes_cons (takes_number 2 digits ?_)
      (takes_cons (takes_gap behind ?_) (takes_cons (takes_rows rows ?_)
        (takes_cons (takes_gap last (only.run.solid _)) (takes_last (takes_word only.looks)))))))))⟩
  · rw [List.append_assoc]
    exact either_solid next _
  · rw [List.append_assoc]
    exact (digits_run digits).solid _
  · rw [List.append_assoc]
    exact stopsNumber_space behind _
  · rw [List.append_assoc]
    exact either_solid rows _
  · rw [List.append_assoc]
    exact endsRun_space last _

end FetchesRows

namespace SkipsRows

variable {es m : List Char} (offset : SkipsRows es m)
include offset

theorem digits : IsDigits es := by
  obtain ⟨_, _, digits, _⟩ := offset
  exact digits

theorem made : MadeOf offsetLetters m := by
  obtain ⟨word, space, digits, behind, rows, last⟩ := offset
  exact madeOf_append (word.madeOf rfl) (madeOf_append (madeOf_blanks space.inside)
    (madeOf_append (madeOf_digits digits) (madeOf_append (madeOf_blanks behind.inside)
      (madeOf_append (either_made rows rfl rfl) (madeOf_blanks last.inside)))))

theorem taken {rest : List Char} (solid : Solid rest) :
    ∃ stop, offsetPart.first ⟨none, m ++ rest, []⟩ = some ⟨stop, rest, [(1, es)]⟩
      ∧ stop.any isWordCharacter = false := by
  obtain @⟨o, a, b, r, c, word, space, digits, behind, rows, last⟩ := offset
  rw [List.append_assoc]
  refine ⟨_, takes_wordThen rfl word.run.word word.looks (takes_cons (takes_gap space ?_)
    (takes_cons (takes_number 1 digits ?_) (takes_cons (takes_gap behind ?_)
      (takes_cons (takes_rows rows (endsRun_space last _)) (takes_last (takes_gap last solid)))))), ?_⟩
  · rw [List.append_assoc]
    exact (digits_run digits).solid _
  · rw [List.append_assoc]
    exact stopsNumber_space behind _
  · rw [List.append_assoc]
    exact either_solid rows _
  · simp only [List.getLast?_append, Option.or_none,
      List.getLast?_eq_getLast_of_ne_nil last.nonempty, Option.some_or]
    exact not_wordCharacter_of_blank (last.inside _ (List.getLast_mem last.nonempty))

end SkipsRows

section FetchFirst

variable {g m n ds es rest : List Char} (blank : ∀ d ∈ g, isBlank d = true)
  (behind : ∀ d ∈ rest, isBlank d = true) (clause : FetchesRows ds n)
include blank behind clause

theorem fetch_run : TextRule.fetchFirstRule.run (g ++ (n ++ rest))
    = g ++ ("LIMIT ".toList ++ ds ++ rest) := by
  have unmarked : offsetPart.first ⟨none, n ++ rest, []⟩ = none := by
    rw [first, List.head?_eq_none_iff]
    refine List.eq_nil_iff_forall_not_mem.mpr fun x found => ?_
    obtain ⟨_, k, more, split, same, _⟩ := mem_wordThen found
    have heads := (clause.begins rest).1
    rw [show n ++ rest = _ from split, same_head (by decide) same] at heads
    exact absurd heads (by decide)
  obtain ⟨stop, taken⟩ := @FetchesRows.taken _ _ clause none rfl rest []
  have both := first_seq (optional_skipped unmarked) taken
  exact limit_found fetch_seeking blank clause.made.code behind both

theorem offsetFetch_run (offset : SkipsRows es m) :
    TextRule.fetchFirstRule.run (g ++ (m ++ (n ++ rest)))
      = g ++ (TextRule.limitText ds es ++ rest) := by
  obtain ⟨middle, skipped, aside⟩ := offset.taken (clause.begins rest).2
  obtain ⟨stop, taken⟩ := clause.taken aside rest [(1, es)]
  have both := first_seq (optional_taken skipped) taken
  rw [← List.append_assoc m] at both ⊢
  exact limit_found fetch_seeking blank (madeOf_append (offset.made.more rfl) clause.made).code behind both

end FetchFirst

theorem fetchPart_order {cursor x : Cursor} (found : x ∈ fetchPart.ends cursor) :
    ∃ u h v, cursor.rest = u ++ h :: v ∧ foldCase h = foldCase 'H'
      ∧ ∃ d ∈ v, isPatternDigit d = true := by
  obtain ⟨_, k, rest, split, same, later⟩ := mem_wordThen found
  have number : ∀ cursor, ∀ x ∈ (TextRule.number 2).ends cursor,
      ∃ d ∈ cursor.rest, isPatternDigit d = true := by
    intro cursor x found
    obtain ⟨y, inside, _⟩ := mem_group found
    obtain ⟨d, ds, digits, more, _⟩ := @mem_plus .digit isPatternDigit rfl _ _ inside
    exact ⟨d, by simp [more], digits d List.mem_cons_self⟩
  obtain ⟨d, member, digit⟩ := sequence_needs number
    [TextRule.gap, .either (anyCase "FIRST") (anyCase "NEXT"), TextRule.gap] _ _ x later
  have letters : k.map foldCase = "FETC".toList.map foldCase ++ [foldCase 'H'] := same
  obtain ⟨u, m, rfl, _, last⟩ := List.map_eq_append_iff.mp letters
  obtain ⟨h, rfl, fold⟩ := List.map_eq_singleton_iff.mp last
  exact ⟨u, h, rest, by simpa using split, fold, d, member, digit⟩

theorem MadeOf.digit {letters s : List Char} (made : MadeOf letters s) {d : Char} (member : d ∈ s)
    (digit : isPatternDigit d = true) : d.isDigit = true := by
  rcases made d member with blank | plain | rfl | ⟨letter, _⟩
  · exact absurd (blank.symm.trans (solid_of_digit digit)) (by decide)
  · exact plain
  · cases digit
  · exact absurd (digit.symm.trans (letter_not_digit letter)) (by decide)

theorem fetchFirst_uncounted {write : Match → List Char} {letters u v : List Char}
    (front : MadeOf letters u) (missing : 'H' ∉ letters) (made : MadeOf fetchLetters v)
    (uncounted : ∀ d ∈ v, d.isDigit = false) :
    outsideLiterals (TextRule.fetchFirst.replaceAll write) (u ++ v) = u ++ v := by
  have none : ∀ {cursor x : Cursor}, cursor.rest <:+ u ++ v → x ∉ fetchPart.ends cursor := by
    intro cursor x inside found
    obtain ⟨p, h, q, split, fold, d, member, digit⟩ := fetchPart_order found
    obtain ⟨before, whole⟩ := inside
    rw [split, ← List.append_assoc] at whole
    -- the letter is not in front of the clause, so the number is in it
    rcases List.append_eq_append_iff.mp whole with ⟨w, rfl, rest⟩ | ⟨w, _, rfl⟩
    · cases w with
      | nil =>
        rw [List.nil_append] at rest
        have plain := made.digit (by rw [← rest]; exact .tail h member) digit
        rw [uncounted d (by rw [← rest]; exact .tail h member)] at plain
        cases plain
      | cons e w =>
        obtain rfl := (List.cons.inj rest).1
        exact front.lacks rfl missing h (by simp) fold
    · have inside : d ∈ w ++ h :: q := by simp [member]
      have plain := made.digit inside digit
      rw [uncounted d inside] at plain
      cases plain
  have code : '\x27' ∉ u ++ v := fun member =>
    (List.mem_append.mp member).elim front.code made.code
  refine outside_failing code fun before t inside => matchAt_none fun x found => ?_
  rw [fetchFirst_ends] at found
  rcases List.mem_append.mp found with found | found
  · obtain ⟨y, first, later⟩ := List.mem_flatMap.mp found
    exact none ((ends_suffix _ first).trans inside) later
  · exact none inside found

end SqlDialects
