import SqlDialects.Proofs.Rules.Patterns
import SqlDialects.Proofs.Rules.RegisteredRules
import SqlDialects.Proofs.Rules.Rewriting
import SqlDialects.Proofs.Text.Requoting

/-
What each text rule does to the lexemes of a canonical text: a renaming rule renames the calls of
one function, the rules for row limits and operators act on reserved words only, and requoting
leaves plain text as it is.
-/
namespace SqlDialects

open Text Pattern Reader

def operatorWords : List String := ["OR", "AND", "LIKE", "NOT"]

def pageWords : List String := ["LIMIT", "OFFSET", "ROWS", "FETCH", "FIRST", "ONLY"]

def canonicalWords : List String := "ILIKE" :: (queryWords ++ operatorWords ++ pageWords)

theorem canonicalWords_capital :
    canonicalWords.all
      (fun word => !word.toList.isEmpty && word.toList.all isCapital) = true := by
  decide

theorem canonicalWord {word : String} (listed : word ∈ canonicalWords) :
    IsCapitalWord word :=
  isCapitalWord_of_check (List.all_eq_true.mp canonicalWords_capital word listed)

theorem Pattern.IsCapitalWord.run {word : String} (capital : IsCapitalWord word) : IsRun word.toList :=
  ⟨capital.nonempty, fun c member => plain_of_capital (capital.inside c member)⟩

theorem Pattern.IsCapitalWord.upper {word : String} (capital : IsCapitalWord word) :
    word.toList.map Char.toUpper = word.toList := by
  rw [List.map_congr_left (g := id), List.map_id]
  intro c member
  refine Char.toUpper_eq_of_not_isLower ?_
  rcases (Bool.or_eq_true ..).mp (capital.inside c member) with upper | low
  · exact Char.not_isLower_of_isUpper upper
  · obtain rfl : c = '_' := by simpa using low
    decide

theorem same_iff {w word : String} (run : IsRun w.toList) (capital : IsCapitalWord word) :
    Same w.toList word ↔ Text.upper w = word := by
  have first : w.toList.map foldCase = w.toList.map Char.toLower :=
    List.map_congr_left fun c member => foldCase_plain (run.inside c member)
  have second : word.toList.map foldCase = word.toList.map Char.toLower :=
    List.map_congr_left fun c member => foldCase_plain (capital.run.inside c member)
  have raised : ∀ t : List Char, (t.map Char.toLower).map Char.toUpper = t.map Char.toUpper := by
    simp
  have lowered : ∀ t : List Char, (t.map Char.toUpper).map Char.toLower = t.map Char.toLower := by
    simp
  rw [Same, first, second, Text.upper]
  constructor
  · intro same
    have upper := congrArg (List.map Char.toUpper) same
    rw [raised, raised, capital.upper] at upper
    rw [upper, String.ofList_toList]
  · intro same
    have upper : w.toList.map Char.toUpper = word.toList := by
      rw [← same, String.toList_ofList]
    rw [← lowered, upper]

theorem digits_run {ds : List Char} (shape : IsDigits ds) : IsRun ds :=
  ⟨shape.nonempty, fun c member => plain_of_isDigit (shape.inside c member)⟩

theorem digits_not_same {ds : List Char} (shape : IsDigits ds) {word : String}
    (capital : IsCapitalWord word) : ¬ Same ds word := by
  intro same
  have plain := (digits_run shape).inside
  rw [← String.toList_ofList (l := ds)] at same plain
  have upper := (same_iff ⟨by simpa using shape.nonempty, plain⟩ capital).mp same
  cases ds with
  | nil => exact absurd rfl shape.nonempty
  | cons c ds =>
    have digit := shape.inside c (by simp)
    have same : c.toUpper = c := by
      refine Char.toUpper_eq_of_not_isLower fun lower => ?_
      have other := not_isDigit_of_isAlpha c (by simp [Char.isAlpha, lower])
      rw [digit] at other
      cases other
    have letter := capital.inside c (by rw [← upper]; simp [Text.upper, same])
    have other : c ∉ ['_'] := Text.not_mem_of_all digit rfl
    rcases (Bool.or_eq_true ..).mp letter with capital | low
    · have wrong := not_isDigit_of_isAlpha c (by simp [Char.isAlpha, capital])
      rw [digit] at wrong
      cases wrong
    · simp [beq_iff_eq.mp low] at other

theorem marks_outside : marks.all (fun c => !isWordCharacter c && !(c == '\x27')) = true := by
  decide

/-! Rules that put something for the matches of a pattern. -/

section Replacing

variable {p : Pattern} {starts : List String} (begins : BeginsWith p starts)
  {write : Match → List Char}
include begins

theorem outside_nil : outsideLiterals (p.replaceAll write) [] = [] := by
  simpa [outsideLiterals, segments, Segment.scan, Segment.changed] using replaceAll_nil begins

theorem outside_mark {c : Char} (listed : c ∈ marks) (s : List Char) :
    outsideLiterals (p.replaceAll write) (c :: s) = c :: outsideLiterals (p.replaceAll write) s := by
  have outside := List.all_eq_true.mp marks_outside c listed
  simp only [Bool.and_eq_true, Bool.not_eq_true', beq_eq_false_iff_ne] at outside
  exact @outsideLiterals_lift _ [c] [c] _ (by simpa using outside.2)
    (replaceAll_mark begins outside.1 _)

theorem outside_literal (body s : List Char) :
    outsideLiterals (p.replaceAll write) (enclose '\x27' body ++ s)
      = enclose '\x27' body ++ outsideLiterals (p.replaceAll write) s :=
  outsideLiterals_literal (replaceAll_nil begins) body s

omit begins in
theorem word_code {w : List Char} (letters : IsPatternWord w) : ∀ c ∈ w, c ≠ '\x27' := by
  rintro c member rfl
  cases letters.inside _ member

theorem outside_word {w s : List Char} (letters : IsPatternWord w) (ended : EndsRun s)
    (fails : p.matchAt? none (w ++ leadingCode s) = none) :
    outsideLiterals (p.replaceAll write) (w ++ s) = w ++ outsideLiterals (p.replaceAll write) s :=
  outsideLiterals_lift (word_code letters)
    (replaceAll_word begins letters (leadingCode_ended ended) fails)

theorem outside_other {w s : List Char} (letters : IsPatternWord w) (ended : EndsRun s)
    (other : ∀ word ∈ starts, ¬ Same w word) :
    outsideLiterals (p.replaceAll write) (w ++ s) = w ++ outsideLiterals (p.replaceAll write) s :=
  outside_word begins letters ended (no_match_word begins letters (leadingCode_ended ended) other none)

theorem outside_found {m s : List Char} {found : Match} (code : ∀ c ∈ m, c ≠ '\x27')
    (matched : p.matchAt? none (m ++ leadingCode s) = some found) (text : found.text = m)
    (apart : m.getLast?.any isWordCharacter = false ∨ EndsRun s) :
    outsideLiterals (p.replaceAll write) (m ++ s)
      = write found ++ outsideLiterals (p.replaceAll write) s :=
  outsideLiterals_lift code (replaceAll_found begins matched text (apart.imp id leadingCode_ended))

theorem outside_digits {ds s : List Char} (shape : IsDigits ds) (ended : EndsRun s) :
    outsideLiterals (p.replaceAll write) (ds ++ s) = ds ++ outsideLiterals (p.replaceAll write) s :=
  outside_other begins (digits_run shape).word ended fun word listed =>
    digits_not_same shape (begins.capital word listed)

theorem outside_capital {word : String} (capital : IsCapitalWord word)
    (other : word ∉ starts) {s : List Char} (ended : EndsRun s) :
    outsideLiterals (p.replaceAll write) (word.toList ++ s)
      = word.toList ++ outsideLiterals (p.replaceAll write) s := by
  refine outside_other begins capital.run.word ended fun start listed same => other ?_
  have upper := (same_iff capital.run (begins.capital start listed)).mp same
  rw [Text.upper, capital.upper, String.ofList_toList] at upper
  rwa [upper]

end Replacing

theorem operators_rewritten {g : List Char → List Char} {change : BinaryOp → BinaryOp}
    (mark : ∀ c ∈ marks, ∀ s, g (c :: s) = c :: g s)
    (word : ∀ word ∈ operatorWords, ∀ s, EndsRun s → g (word.toList ++ s) = word.toList ++ g s)
    (others : ∀ op, op ≠ .ilike → change op = op)
    (ilike : ∀ s, g ("ILIKE".toList ++ ' ' :: s) = (change .ilike).toSql.toList ++ ' ' :: g s)
    (op : BinaryOp) (s : List Char) :
    g (op.toSql.toList ++ ' ' :: s) = (change op).toSql.toList ++ ' ' :: g s := by
  have blank : ∀ s, g (' ' :: s) = ' ' :: g s := mark ' ' (by simp [marks])
  have words : ∀ name ∈ operatorWords, g (name.toList ++ ' ' :: s) = name.toList ++ ' ' :: g s := by
    intro name listed
    rw [word name listed _ (endsRun_cons rfl s), blank]
  have one : ∀ c ∈ marks, g (c :: ' ' :: s) = c :: ' ' :: g s := by
    intro c listed
    rw [mark c listed, blank]
  have two : ∀ c ∈ marks, ∀ d ∈ marks, g (c :: d :: ' ' :: s) = c :: d :: ' ' :: g s := by
    intro c first d second
    rw [mark c first, mark d second, blank]
  by_cases kept : op = .ilike
  · subst kept
    exact ilike s
  rw [others op kept]
  cases op with
  | or => exact words "OR" (by simp [operatorWords])
  | and => exact words "AND" (by simp [operatorWords])
  | like => exact words "LIKE" (by simp [operatorWords])
  | ilike => exact absurd rfl kept
  | notLike =>
    have first := word "NOT" (by simp [operatorWords]) (' ' :: ("LIKE".toList ++ ' ' :: s))
      (endsRun_cons rfl _)
    rw [blank, words "LIKE" (by simp [operatorWords])] at first
    exact first
  | eq => exact one '=' (by simp [marks])
  | lt => exact one '<' (by simp [marks])
  | gt => exact one '>' (by simp [marks])
  | plus => exact one '+' (by simp [marks])
  | minus => exact one '-' (by simp [marks])
  | times => exact one '*' (by simp [marks])
  | divide => exact one '/' (by simp [marks])
  | modulo => exact one '%' (by simp [marks])
  | ne => exact two '<' (by simp [marks]) '>' (by simp [marks])
  | le => exact two '<' (by simp [marks]) '=' (by simp [marks])
  | ge => exact two '>' (by simp [marks]) '=' (by simp [marks])
  | concat => exact two '|' (by simp [marks]) '|' (by simp [marks])

/-! Renaming. -/

def newName (source target name : String) : Option String :=
  if Text.upper name = source then some target else none

/-- A function that a rule can rename: no keyword of canonical texts, and none that is written
without parentheses. -/
structure Renameable (source : String) : Prop where
  capital : IsCapitalWord source
  called : isNiladic source = false
  apart : source ∉ canonicalWords

section Renaming

variable {source target : String} (renameable : Renameable source)
include renameable

theorem call_begins (parts : List Pattern) :
    BeginsWith (wordThen source (TextRule.blanks :: .char '(' :: parts)) [source] :=
  beginsWith_wordThen renameable.capital (TextRule.ends_call parts)

omit renameable in
theorem leadingCode_split {s g r : List Char} {c : Char} (split : leadingCode s = g ++ c :: r) :
    ∃ t, s = g ++ c :: t := by
  refine ⟨r ++ s.dropWhile fun c => !(c == '\x27'), ?_⟩
  rw [← List.cons_append, ← List.append_assoc, ← split]
  exact (List.takeWhile_append_dropWhile).symm

theorem call_fails {parts : List Pattern} {w s : List Char} (letters : IsPatternWord w)
    (ended : EndsRun s) (uncalled : Uncalled s) :
    (wordThen source (TextRule.blanks :: .char '(' :: parts)).matchAt? none
      (w ++ leadingCode s) = none := by
  cases found : (wordThen source (TextRule.blanks :: .char '(' :: parts)).matchAt? none
      (w ++ leadingCode s) with
  | none => rfl
  | some m =>
    obtain ⟨cursor, x, rest, inside⟩ := wordThen_rest renameable.capital (TextRule.ends_call parts)
      letters (leadingCode_ended ended) found
    obtain ⟨g, y, blank, split, _⟩ := TextRule.mem_parenthesis '(' inside
    obtain ⟨t, whole⟩ := leadingCode_split (rest.symm.trans split)
    refine absurd ?_ uncalled
    rw [whole, List.dropWhile_append_of_pos blank]
    rfl

omit renameable in
theorem leadingCode_blanks {g : List Char} (blank : ∀ c ∈ g, isBlank c = true) {c : Char}
    (code : c ≠ '\x27') (s : List Char) :
    leadingCode (g ++ c :: s) = g ++ c :: leadingCode s := by
  rw [leadingCode, List.takeWhile_append_of_pos, List.takeWhile_cons_of_pos (by simpa using code)]
  · rfl
  · intro d member
    rw [Bool.not_eq_true', beq_eq_false_iff_ne]
    rintro rfl
    cases blank _ member

omit renameable in
theorem endsRun_blanks {g : List Char} (blank : ∀ c ∈ g, isBlank c = true) {c : Char}
    (mark : isWordCharacter c = false) (s : List Char) : EndsRun (g ++ c :: s) := by
  cases g with
  | nil => exact endsRun_cons mark s
  | cons d g => exact endsRun_cons (not_wordCharacter_of_blank (blank d (by simp))) _

def Unclosed (s : List Char) : Prop := (s.dropWhile isBlank).head? ≠ some ')'

theorem filled_fails {w g s : List Char} (letters : IsPatternWord w)
    (blank : ∀ c ∈ g, isBlank c = true) (unclosed : Unclosed s) :
    (wordThen source [TextRule.blanks, .char '(', TextRule.blanks, .char ')']).matchAt? none
      (w ++ leadingCode (g ++ '(' :: s)) = none := by
  cases found : (wordThen source [TextRule.blanks, .char '(', TextRule.blanks,
      .char ')']).matchAt? none (w ++ leadingCode (g ++ '(' :: s)) with
  | none => rfl
  | some m =>
    obtain ⟨cursor, x, rest, inside⟩ := wordThen_rest renameable.capital (TextRule.ends_call _) letters
      (leadingCode_ended (endsRun_blanks blank rfl s)) found
    obtain ⟨g', y, blank', split, later⟩ := TextRule.mem_parenthesis '(' inside
    have same : g ++ '(' :: leadingCode s = g' ++ '(' :: y.rest := by
      rw [← leadingCode_blanks blank (by decide), ← split, rest]
    have behind : leadingCode s = y.rest := by
      have first := congrArg (List.dropWhile isBlank) same
      rw [List.dropWhile_append_of_pos blank, List.dropWhile_append_of_pos blank'] at first
      exact (List.cons.inj first).2
    obtain ⟨h, z, blanks, closed, _⟩ := TextRule.mem_parenthesis ')' later
    obtain ⟨t, whole⟩ := leadingCode_split (behind.trans closed)
    refine absurd ?_ unclosed
    rw [whole, List.dropWhile_append_of_pos blanks]
    rfl

theorem Renameable.uncalled (w : String) (niladic : isNiladic w = true) :
    newName source target w = none := by
  rw [newName, if_neg]
  rintro rfl
  have same : ∀ name, sameIgnoringCase (Text.upper w) name = sameIgnoringCase w name := by
    intro name
    simp [sameIgnoringCase, Text.upper, Function.comp_def]
  have called := renameable.called
  rw [isNiladic, funext same] at called
  rw [isNiladic, called] at niladic
  cases niladic

theorem call_rewrites {parts : List Pattern} {text : List Char} {g : List Char → List Char}
    (rule : g = outsideLiterals ((wordThen source (TextRule.blanks :: .char '(' :: parts)).replaceAll
      fun _ => text))
    (empty : ∀ w s, IsRun w → Same w source → g (w ++ '(' :: ')' :: s)
      = (if isNiladic target then target.toList else target.toList ++ ['(', ')']) ++ g s)
    (filled : ∀ w s, IsRun w → Same w source → Filled s → g (w ++ '(' :: s)
      = (if isNiladic target then w else target.toList) ++ '(' :: g s) :
    Rewrites g (newName source target) id := by
  have begins := call_begins renameable parts
  have mark : ∀ c ∈ marks, ∀ s, g (c :: s) = c :: g s := by
    subst rule
    exact fun c listed s => outside_mark begins listed s
  have word : ∀ word ∈ canonicalWords, ∀ s, EndsRun s →
      g (word.toList ++ s) = word.toList ++ g s := by
    subst rule
    refine fun word listed s ended => outside_capital begins (canonicalWord listed) ?_ ended
    rintro same
    obtain rfl := List.mem_singleton.mp same
    exact renameable.apart listed
  have other : ∀ (w : String) (s : List Char), IsRun w.toList → Text.upper w ≠ source →
      g (w.toList ++ '(' :: s) = w.toList ++ '(' :: g s := by
    intro w s run other
    have passed : g (w.toList ++ '(' :: s) = w.toList ++ g ('(' :: s) := by
      subst rule
      refine outside_other begins run.word (endsRun_cons rfl s) fun start listed same => other ?_
      obtain rfl := List.mem_singleton.mp listed
      exact (same_iff run renameable.capital).mp same
    rw [passed, mark '(' (by simp [marks])]
  exact
    { mark
      literal := by
        subst rule
        exact outside_literal begins
      keyword := fun name listed => word name (by simp [canonicalWords, listed])
      digits := by
        subst rule
        exact fun ds s shape ended => outside_digits begins shape ended
      name := by
        subst rule
        exact fun w s run free stops =>
          outside_word begins run.word stops.ended
            (call_fails renameable run.word stops.ended stops.uncalled)
      uncalled := renameable.uncalled
      empty := by
        intro w s run free
        rw [rewrite_call, Call.renamed, newName]
        by_cases named : Text.upper w = source
        · rw [empty w.toList s run ((same_iff run renameable.capital).mpr named), if_pos named]
          cases niladic : isNiladic target with
          | true => simp [losesArguments, Call.rename, niladic, written_bare]
          | false => simp [losesArguments, Call.rename, niladic, written_call]
        · rw [other w _ run named, mark ')' (by simp [marks]), if_neg named]
          simp [written_call]
      filled := by
        intro w s run free arguments
        rw [newName]
        by_cases named : Text.upper w = source
        · rw [filled w.toList s run ((same_iff run renameable.capital).mpr named) arguments,
            if_pos named]
          cases niladic : isNiladic target <;> simp [niladic]
        · rw [other w s run named, if_neg named]
      operator := operators_rewritten mark
        (fun name listed => word name (by simp [canonicalWords, listed]))
        (fun op other => rfl) fun s => by
          rw [word "ILIKE" (by simp [canonicalWords]) _ (endsRun_cons rfl s),
            mark ' ' (by simp [marks])]
          rfl }

omit renameable in
theorem call_first {parts : List Pattern} {w g a : List Char} (letters : IsPatternWord w)
    (same : Same w source) (blank : ∀ c ∈ g, isBlank c = true) {stop : Cursor}
    (later : (sequence parts).first { before := some '(', rest := a } = some stop) :
    (wordThen source (TextRule.blanks :: .char '(' :: parts)).first
      { before := none, rest := w ++ (g ++ '(' :: a) } = some stop := by
  have start := @first_star .blank isBlank rfl g ('(' :: a) blank (fun c first => by cases first; rfl)
    { before := w.getLast?.or none, rest := g ++ '(' :: a } rfl
  have parenthesis : (Pattern.char '(').first (Cursor.past
      { before := w.getLast?.or none, rest := g ++ '(' :: a } g ('(' :: a))
      = some { before := some '(', rest := a } := first_char rfl
  exact first_word rfl letters same (first_seq start (first_seq parenthesis later))

omit renameable in
theorem call_code {w g : List Char} (letters : IsPatternWord w) (blank : ∀ c ∈ g, isBlank c = true)
    {m : List Char} (code : ∀ c ∈ m, c ≠ '\x27') : ∀ c ∈ w ++ (g ++ m), c ≠ '\x27' := by
  intro c member
  rcases List.mem_append.mp member with member | member
  · exact word_code letters c member
  rcases List.mem_append.mp member with member | member
  · rintro rfl
    cases blank _ member
  · exact code c member

omit renameable in
theorem renameRule_called (niladic : isNiladic target = false) :
    (TextRule.renameRule source target).run
      = outsideLiterals ((wordThen source [TextRule.blanks, .char '(']).replaceAll
        fun _ => target.toList ++ ['(']) := by
  funext s
  simp only [TextRule.run, TextRule.renameRule, niladic, Bool.false_eq_true, ↓reduceIte]
  rfl

omit renameable in
theorem renameRule_bare (niladic : isNiladic target = true) :
    (TextRule.renameRule source target).run
      = outsideLiterals ((wordThen source [TextRule.blanks, .char '(', TextRule.blanks,
        .char ')']).replaceAll fun _ => target.toList) := by
  funext s
  simp only [TextRule.run, TextRule.renameRule, niladic, ↓reduceIte]
  rfl

section Calls

variable {w g : List Char} (letters : IsPatternWord w) (same : Same w source)
  (blank : ∀ c ∈ g, isBlank c = true)
include letters blank

include same in
theorem call_renamed (niladic : isNiladic target = false) (s : List Char) :
    (TextRule.renameRule source target).run (w ++ (g ++ '(' :: s))
      = target.toList ++ '(' :: (TextRule.renameRule source target).run s := by
  have rule := @renameRule_called source target niladic
  have done : (sequence []).first { before := some '(', rest := leadingCode s }
      = some { before := some '(', rest := leadingCode s } := rfl
  have matched := matchAt_of_first (m := w ++ (g ++ ['('])) (s := leadingCode s)
    (by simpa using call_first letters same blank done) rfl
  have found := @outside_found _ _ (call_begins renameable []) (fun _ => target.toList ++ ['(']) _ _ _
    (call_code letters blank (m := ['(']) (by simp)) matched rfl (.inl (by simp; rfl))
  rw [congrFun rule s, congrFun rule (w ++ _)]
  simpa using found

include same in
theorem call_dropped (niladic : isNiladic target = true) {h : List Char}
    (blanks : ∀ c ∈ h, isBlank c = true) (s : List Char) :
    (TextRule.renameRule source target).run (w ++ (g ++ '(' :: (h ++ ')' :: s)))
      = target.toList ++ (TextRule.renameRule source target).run s := by
  have rule := @renameRule_bare source target niladic
  have closing : (sequence [TextRule.blanks, .char ')']).first
      { before := some '(', rest := h ++ ')' :: leadingCode s }
      = some { before := some ')', rest := leadingCode s } := by
    have start := @first_star .blank isBlank rfl h (')' :: leadingCode s) blanks
      (fun c first => by cases first; rfl) { before := some '(', rest := h ++ ')' :: leadingCode s } rfl
    have parenthesis : (Pattern.char ')').first (Cursor.past
        { before := some '(', rest := h ++ ')' :: leadingCode s } h (')' :: leadingCode s))
        = some { before := some ')', rest := leadingCode s } := first_char rfl
    exact first_seq start (first_seq parenthesis rfl)
  have matched := matchAt_of_first (m := w ++ (g ++ ('(' :: (h ++ [')'])))) (s := leadingCode s)
    (by simpa using call_first letters same blank closing) rfl
  have code : ∀ c ∈ '(' :: (h ++ [')']), c ≠ '\x27' := by
    rintro c member rfl
    rcases List.mem_cons.mp member with wrong | member
    · cases wrong
    rcases List.mem_append.mp member with member | member
    · cases blanks _ member
    · simp at member
  have last : (w ++ (g ++ '(' :: (h ++ [')']))).getLast?.any isWordCharacter = false := by
    have split : w ++ (g ++ '(' :: (h ++ [')'])) = w ++ (g ++ '(' :: h) ++ [')'] := by simp
    rw [split, List.getLast?_concat]
    rfl
  have found := @outside_found _ _ (call_begins renameable _) (fun _ => target.toList) _ _ _
    (call_code letters blank code) matched rfl (.inl last)
  rw [congrFun rule s, congrFun rule (w ++ _)]
  simpa using found

theorem call_filled (niladic : isNiladic target = true) {s : List Char} (unclosed : Unclosed s) :
    (TextRule.renameRule source target).run (w ++ (g ++ '(' :: s))
      = w ++ ((TextRule.renameRule source target).run (g ++ '(' :: s)) := by
  have rule := @renameRule_bare source target niladic
  rw [congrFun rule (w ++ _), congrFun rule (g ++ _)]
  exact outside_word (call_begins renameable _) letters (endsRun_blanks blank rfl s)
    (filled_fails renameable letters blank unclosed)

end Calls

omit renameable in
theorem Filled.unclosed {s : List Char} (filled : Filled s) : Unclosed s := by
  cases s with
  | nil => exact nofun
  | cons c s =>
    obtain ⟨solid, other⟩ := filled c rfl
    rw [Unclosed, List.dropWhile_cons_of_neg (by simp [solid])]
    simpa using other

theorem renameRule_rewrites : Rewrites (TextRule.renameRule source target).run
    (newName source target) id := by
  have renamed : ∀ {w : List Char}, IsRun w → Same w source → isNiladic target = false → ∀ s,
      (TextRule.renameRule source target).run (w ++ '(' :: s)
        = target.toList ++ '(' :: (TextRule.renameRule source target).run s :=
    fun run same niladic s => call_renamed renameable run.word same (g := []) (by simp) niladic s
  cases niladic : isNiladic target with
  | false =>
    have rule := @renameRule_called source target niladic
    have mark := @outside_mark _ _ (call_begins renameable []) (fun _ => target.toList ++ ['('])
    refine call_rewrites renameable rule (fun w s run same => ?_) fun w s run same _ => ?_
    · have closed := congrFun rule (')' :: s)
      rw [mark (by simp [marks]) s, ← congrFun rule s] at closed
      simp only [renamed run same niladic, closed, niladic]
      simp
    · simp [renamed run same niladic, niladic]
  | true =>
    have rule := @renameRule_bare source target niladic
    have mark := @outside_mark _ _ (call_begins renameable [TextRule.blanks, .char ')'])
      (fun _ => target.toList)
    refine call_rewrites renameable rule (fun w s run same => ?_) fun w s run same filled => ?_
    · have dropped := call_dropped renameable run.word same (g := []) (by simp) niladic
        (h := []) (by simp) s
      simpa [niladic] using dropped
    · have kept := call_filled renameable run.word (g := []) (by simp) niladic filled.unclosed
      have opened := congrFun rule ('(' :: s)
      rw [mark (by simp [marks]) s, ← congrFun rule s] at opened
      simp only [List.nil_append] at kept
      simp only [kept, opened, niladic]
      simp

end Renaming

end SqlDialects
