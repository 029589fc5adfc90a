import SqlDialects.Proofs.Rules.CalledNames

/-
Operators and calls in an orderly text. The rules of a pair replace an operator that the target lacks,
and they look at the last word in the name of a call: they put another word in its place, or take its
parentheses as well, or leave the call alone. The other parts of the name are found again.
-/
namespace SqlDialects

open Text Pattern Reader Spelling Change Lexeme

/-! Operators. -/

theorem atBoundary_behind {k s : List Char} (letters : IsPatternWord k) (ended : EndsRun s)
    (groups : List (Nat × List Char)) : atBoundary ⟨k.getLast?.or none, s, groups⟩ = true := by
  have last : (k.getLast?.or none).any isWordCharacter = true := by
    rw [Option.or_none, List.getLast?_eq_getLast_of_ne_nil letters.nonempty]
    exact letters.inside _ (List.getLast_mem letters.nonempty)
  have next : s.head?.any isWordCharacter = false := by
    cases s with
    | nil => rfl
    | cons c s => exact ended c rfl
  simp only [atBoundary, last, next]
  rfl

section Operators

variable {pair : Pair}

theorem operators_ilike {k s : List Char} (letters : IsPatternWord k) (same : Same k "ILIKE")
    (ended : EndsRun s) : TextRule.runAll (TextRule.operators pair) (k ++ s)
      = (if pair.source = .postgresql ∧ pair.target = .mysql then "LIKE".toList else k)
        ++ TextRule.runAll (TextRule.operators pair) s := by
  rw [TextRule.operators]
  split
  · rw [TextRule.runAll_one, TextRule.runAll_one]
    have found : (wordThen "ILIKE" [.boundary]).first ⟨none, k ++ leadingCode s, []⟩ = some _ :=
      first_word rfl letters same
        (first_seq (first_boundary (atBoundary_behind letters (leadingCode_ended ended) [])) rfl)
    exact outside_found ilike_begins (word_code letters) (matchAt_of_first found rfl) rfl (.inr ended)
  · rfl

variable (source : pair.source = .mysql ∨ pair.source = .postgresql)
  (different : pair.target ≠ pair.source)
include source different

theorem converted_ilike {k s : List Char} (same : k.map Char.toUpper = "ILIKE".toList)
    (ended : EndsRun s) : pair.converted (k ++ s)
      = (if pair.source = .postgresql ∧ pair.target = .mysql then "LIKE".toList else k)
        ++ pair.converted s := by
  have capital : Capital "ILIKE" := rfl
  have letters := capital_letters capital same
  have run : IsRun (String.ofList k).toList := by
    rw [String.toList_ofList]
    refine ⟨?_, fun c member => plain_of_isAlpha (letters c member)⟩
    rintro rfl
    cases same
  have word : IsPatternWord k := by simpa using run.word
  have upper : Text.upper (String.ofList k) = "ILIKE" := by
    rw [Text.upper, String.toList_ofList, same, String.ofList_toList]
  have unlike : ∀ {start : String}, start ∈ pair.ruleWords → start ≠ "ILIKE" → ¬ Same k start := by
    intro start listed other looks
    rw [← String.toList_ofList (l := k)] at looks
    exact other (((same_iff run (ruleWord_capital source listed)).mp looks).symm.trans upper)
  have uncalled : ∀ mapping ∈ FunctionMapping.table pair, mapping.source ≠ "ILIKE" := by
    have apart : (FunctionMapping.table pair).all (fun mapping => mapping.source != "ILIKE") = true := by
      obtain ⟨first, second⟩ := pair
      cases first <;> cases second <;> decide +kernel
    simpa using apart
  have rename := renamedBy_steps (table_inTurn source)
  have rows := rowLimits_steps pair
  have quotes := quotes_steps pair [] false
  have renamed : ∀ s, EndsRun s → renamedBy (FunctionMapping.table pair) (k ++ s)
      = k ++ renamedBy (FunctionMapping.table pair) s := by
    intro s ended
    refine rename.other word ended fun start listed => unlike (List.mem_append_left _ listed) ?_
    obtain ⟨mapping, member, rfl⟩ := List.mem_map.mp listed
    exact uncalled mapping member
  have limited : ∀ start ∈ rowWords, ¬ Same k start := by
    intro start listed
    have others : ∀ word ∈ rowWords, word ∈ limitWords ∧ word ≠ "ILIKE" := by decide
    exact unlike (List.mem_append_right _ (others start listed).1) (others start listed).2
  rw [converted_eq source different, converted_eq source different, renamed s ended, finished_eq,
    finished_eq, rows.other word (rename.endsRun ended) limited,
    quotes.other word (rows.endsRun (rename.endsRun ended)) (List.forall_mem_nil _),
    operators_ilike word (same_of_upper capital same) (quotes.endsRun (rows.endsRun (rename.endsRun ended)))]

theorem converts_ilike {like : Expr → Expr → Prop} (congruent : Congruent like)
    (replaces : Replaces like .ilike .like) {t rest w : List Char}
    (spelled : KeywordText "ILIKE" () t rest) (changed : pair.Converts (t ++ rest) w) :
    pair.Converts.Finds ComparatorText (Replaces like .ilike) rest w := by
  obtain @⟨g, k, _, gap, same, ended⟩ := spelled
  obtain ⟨orderly, rfl⟩ := changed
  rw [List.append_assoc] at orderly
  obtain ⟨blank, later⟩ := orderly_gap orderly gap
  have capital : Capital "ILIKE" := rfl
  have last := (orderly_keyword capital (by decide) same ended later).2
  have listed := (orderly_blanks blank orderly).1
  have steps := converted_steps source different
  have run := orderly_endsRun last ended
  have again : EndsWord (pair.converted rest) := (converted_alike source different last).endsWord ended
  have solid : ∀ {c u}, c.isAlpha = true → afterGap (c :: u) = none := by
    intro c u letter
    exact solid_of_head u (not_mem_of_all letter (by decide))
  have text : pair.converted (g ++ k ++ rest) = g ++ pair.converted (k ++ rest) := by
    rw [List.append_assoc, steps.blanks blank]
  rw [converted_ilike source different same run] at text
  by_cases missing : pair.source = .postgresql ∧ pair.target = .mysql
  · rw [if_pos missing] at text
    refine ⟨.like, g ++ "LIKE".toList, pair.converted rest, by rw [text, List.append_assoc], .like
      (.mk (gap_blanks listed (solid rfl)) rfl again), replaces, last, rfl⟩
  · rw [if_neg missing] at text
    have letters := capital_letters capital same
    refine ⟨.ilike, g ++ k, pair.converted rest, by rw [text, List.append_assoc], .ilike
      (.mk (gap_blanks listed ?_) same again), congruent.binary .ilike, last, rfl⟩
    cases k with
    | nil => cases same
    | cons c k => exact solid (letters c List.mem_cons_self)

end Operators

/-! The names of calls. -/

theorem intercalate_more {part : String} {parts : List String} (more : parts ≠ []) :
    (".".intercalate (part :: parts)).toList
      = part.toList ++ '.' :: (".".intercalate parts).toList := by
  rw [String.intercalate_cons_of_ne_nil more]
  simp

theorem lastWord_more {part : String} {parts : List String} (more : parts ≠ []) :
    lastWord (".".intercalate (part :: parts)).toList = lastWord (".".intercalate parts).toList := by
  rw [intercalate_more more]
  exact lastWord_behind _ rfl _

theorem lastWord_letters (k : List Char) : ∀ c ∈ lastWord k, isWordCharacter c = true := by
  intro c member
  rw [lastWord, List.mem_reverse] at member
  exact List.mem_takeWhile_imp member

def IsLastWord (name : String) : Prop := lastWord name.toList = name.toList

theorem not_isLastWord_more {part : String} {parts : List String} (more : parts ≠ []) :
    ¬ IsLastWord (".".intercalate (part :: parts)) := by
  intro whole
  have dot : '.' ∈ lastWord (".".intercalate (part :: parts)).toList := by
    rw [IsLastWord, intercalate_more more] at whole
    rw [intercalate_more more, whole]
    simp
  exact absurd (lastWord_letters _ _ dot) (by decide)

/-- What the rules of a pair make of the name of a call and of the parenthesis behind it. The last
word of the name becomes another one, or it does so and the call loses its parentheses, or the call is
kept. -/
inductive CalledPath (pair : Pair) (parts : List String) (opening s w : List Char) : Prop
  | renamed {mapping : FunctionMapping} {target : String} {new : List String} {t : List Char}
      (listed : mapping ∈ FunctionMapping.table pair) (found : mapping.action.target? = some target)
      (same : Same (lastWord (".".intercalate parts).toList) mapping.source)
      (called : isNiladic target = false)
      (whole : IsLastWord (".".intercalate parts) → new = [target])
      (named : PathText new t ('(' :: pair.converted s)) (text : w = t ++ '(' :: pair.converted s)
  | dropped {mapping : FunctionMapping} {target : String} {new : List String} {h t rest : List Char}
      (listed : mapping ∈ FunctionMapping.table pair) (found : mapping.action.target? = some target)
      (same : Same (lastWord (".".intercalate parts).toList) mapping.source)
      (bare : isNiladic target = true)
      (whole : IsLastWord (".".intercalate parts) → new = [target])
      (blank : ∀ c ∈ h, isBlank c = true) (closed : s = h ++ ')' :: rest)
      (named : PathText new t (pair.converted rest)) (text : w = t ++ pair.converted rest)
  | kept {t : List Char}
      (others : ∀ mapping ∈ FunctionMapping.table pair, ∀ target, mapping.action.target? = some target →
        Same (lastWord (".".intercalate parts).toList) mapping.source →
          isNiladic target = true ∧ Unclosed s)
      (named : PathText parts t (opening ++ pair.converted s))
      (opened : SymbolText "(" () opening (pair.converted s))
      (text : w = t ++ (opening ++ pair.converted s))

theorem path_more {part : String} {parts : List String} {t u rest : List Char}
    (head : PartText part t ('.' :: (u ++ rest))) (tail : PathText parts u rest) :
    PathText (part :: parts) (t ++ '.' :: u) rest := by
  have dot : ExactText "." () ['.'] (u ++ rest) := rfl
  exact .more head dot tail

theorem CalledPath.behind {pair : Pair} {part : String} {parts : List String}
    {t opening s w : List Char} (called : CalledPath pair parts opening s w)
    (head : PartText part t ('.' :: w)) (more : parts ≠ []) :
    CalledPath pair (part :: parts) opening s (t ++ '.' :: w) := by
  have last := @lastWord_more part parts more
  have never := @not_isLastWord_more part parts more
  cases called with
  | renamed listed found same called whole named text =>
    subst text
    exact .renamed listed found (last ▸ same) called (fun whole => absurd whole never)
      (path_more head named) (by simp)
  | dropped listed found same bare whole blank closed named text =>
    subst text
    exact .dropped listed found (last ▸ same) bare (fun whole => absurd whole never) blank closed
      (path_more head named) (by simp)
  | kept others named opened text =>
    subst text
    exact .kept (last ▸ others) (path_more head named) opened (by simp)

theorem lexemes_opens {c : Char} (opens : opensWord c = true) (s : List Char) :
    ∃ k more, lexemes (c :: s) = .word k :: more := by
  have split := List.takeWhile_append_dropWhile (p := isNameCharacter) (l := s)
  have ended : EndsWord (s.dropWhile isNameCharacter) := by
    intro d found
    have stops := List.head?_dropWhile_not isNameCharacter s
    simpa [found] using stops
  have word := @lexemes_word (c :: s.takeWhile isNameCharacter) (by simpa using opens) (fun d member => by
    rcases List.mem_cons.mp member with rfl | member
    · exact opensWord_nameCharacter opens
    · exact List.mem_takeWhile_imp member) _ ended
  rw [List.cons_append, split] at word
  exact ⟨_, _, word⟩

theorem lexemes_closing {h : List Char} (blank : ∀ c ∈ h, isBlank c = true) (rest : List Char) :
    (lexemes (h ++ ')' :: rest)).dropWhile isBlankMark = .mark ')' :: lexemes rest := by
  induction h with
  | nil => rw [List.nil_append, lexemes_mark rfl rfl, List.dropWhile_cons_of_neg (by decide)]
  | cons c h ih =>
    obtain ⟨first, others⟩ := List.forall_mem_cons.mp blank
    obtain ⟨outside, unquoted⟩ := blank_apart first
    have blanked : isBlankMark (.mark c) = true := first
    rw [List.cons_append, lexemes_mark (opensWord_of_not_word outside) unquoted,
      List.dropWhile_cons_of_pos blanked, ih others]

theorem orderly_closes {pair : Pair} {s h rest : List Char} (orderly : pair.isOrderly ('(' :: s) = true)
    (blank : ∀ c ∈ h, isBlank c = true) (closed : s = h ++ ')' :: rest) :
    EndsWord rest ∧ pair.isOrderly rest = true := by
  obtain ⟨_, _, apart, _, later⟩ := orderly_mark rfl rfl orderly
  subst closed
  obtain ⟨_, _, _, _, last⟩ := orderly_mark rfl rfl (orderly_blanks blank later).2
  have behind := lexemes_closing blank rest
  refine ⟨fun c first => ?_, last⟩
  obtain ⟨u, rfl⟩ := List.head?_eq_some_iff.mp first
  by_contra inside
  have named : isNameCharacter c = true := by simpa using inside
  cases opens : opensWord c with
  | true =>
    obtain ⟨k, more, word⟩ := lexemes_opens opens u
    rw [word] at behind
    simp [runsOn, behind] at apart
  | false =>
    have ordinary := ordinary_nameCharacter named
    simp only [isOrdinary, Bool.and_eq_true, Bool.not_eq_true'] at ordinary
    have listed := (orderly_mark opens ordinary.1.1.1 last).1
    have only : queryMarks.all (fun d => !isNameCharacter d || d == '$') = true := by decide
    obtain rfl : c = '$' := by simpa [named] using List.all_eq_true.mp only c listed
    rw [lexemes_mark rfl rfl] at behind
    simp [runsOn, behind] at apart

theorem reserved_letters {k : List Char} (reserved : isReserved (String.ofList k) = true) :
    ∀ c ∈ k, c.isAlpha = true := by
  obtain ⟨word, listed, same⟩ := List.any_eq_true.mp reserved
  refine capital_letters (capital_reserved listed) ?_
  have upper := congrArg String.toList (beq_iff_eq.mp same)
  rw [Text.upper, Text.upper, String.toList_ofList, String.toList_ofList, String.toList_ofList] at upper
  rw [upper, capital_upper (capital_reserved listed)]

theorem renamed_part {k front : List Char} (shape : IsWord k) (split : k = front ++ lastWord k)
    {target : String} (capital : isCapitalName target = true) {s : List Char} (ended : EndsWord s) :
    PartText (String.ofList (front ++ target.toList)) (front ++ target.toList) s := by
  have word := capitalName_isWord capital
  have free : isReserved (String.ofList (front ++ target.toList)) = false := by
    by_cases empty : front = []
    · rw [empty, List.nil_append, String.ofList_toList]
      exact capitalName_free capital
    -- what stands in front of the last word ends with a character that is in no word
    cases reserved : isReserved (String.ofList (front ++ target.toList)) with
    | false => rfl
    | true =>
      have letters : ∀ c ∈ k, isWordCharacter c = true := by
        intro c member
        rw [split] at member
        rcases List.mem_append.mp member with member | member
        · have letter := reserved_letters reserved c (List.mem_append_left _ member)
          exact wordCharacter_of_plain (plain_of_isAlpha letter)
        · exact lastWord_letters k c member
      rw [lastWord_word letters] at split
      exact absurd (List.self_eq_append_left.mp split) empty
  refine .plain ⟨?_, fun c member => ?_⟩ free ended
  · cases front with
    | nil => exact word.start
    | cons c front =>
      rw [split] at shape
      exact shape.start
  · rcases List.mem_append.mp member with member | member
    · rw [split] at shape
      exact shape.inside c (List.mem_append_left _ member)
    · exact word.inside c member

section Paths

variable {pair : Pair} (source : pair.source = .mysql ∨ pair.source = .postgresql)
  (different : pair.target ≠ pair.source)
include source different

theorem converted_quotedPart {quote : Char} {body g s : List Char} (known : quote = '"' ∨ quote = '\x60')
    (closed : (g ++ '(' :: s).head? ≠ some quote) (gap : Gap g ('(' :: s))
    (orderly : pair.isOrderly (enclose quote body ++ (g ++ '(' :: s)) = true) :
    CalledPath pair [String.ofList (enclose '"' body)] (g ++ ['(']) s
        (pair.converted (enclose quote body ++ (g ++ '(' :: s)))
      ∧ pair.isOrderly s = true := by
  have solid : afterGap ("(".toList ++ pair.converted s) = none := solid_of_head _ (by decide)
  obtain ⟨quote', rest', known', text, closed', later, rfl⟩ :=
    (converts_keeping source different).name ⟨orderly, rfl⟩ known closed
  obtain ⟨blank, opened⟩ := orderly_gap later gap
  rw [(converted_steps source different).opening blank] at text closed'
  refine ⟨.kept (fun mapping listed target found same => ?_)
    (.one (.quoted known' (by simpa using closed')))
    (.mk (gap_blanks (orderly_blanks blank later).1 solid)) (by simpa using text),
    (orderly_mark rfl rfl opened).2.2.2.2⟩
  -- the name ends with a quote
  have capital := (inTurn_listed (table_inTurn source) listed).1.capital
  have nothing : lastWord (".".intercalate [String.ofList (enclose '"' body)]).toList = [] := by
    rw [show (".".intercalate [String.ofList (enclose '"' body)]).toList
      = ('"' :: double '"' body) ++ '"' :: [] by simp [enclose], lastWord_behind _ rfl]
    rfl
  rw [nothing] at same
  exact absurd rfl (same_word capital same).1

theorem converted_lastPart {part : String} {t g s : List Char}
    (spelled : PartText part t (g ++ '(' :: s)) (gap : Gap g ('(' :: s))
    (orderly : pair.isOrderly (t ++ (g ++ '(' :: s)) = true) :
    CalledPath pair [part] (g ++ ['(']) s (pair.converted (t ++ (g ++ '(' :: s)))
      ∧ pair.isOrderly s = true := by
  cases spelled with
  | quoted known closed => exact converted_quotedPart source different known closed gap orderly
  | plain shape free ended =>
    obtain ⟨word, _, later⟩ := orderly_word (isWord_opens shape) shape.inside ended orderly
    obtain ⟨blank, opened⟩ := orderly_gap later gap
    have apart : ClosesApart s := fun h rest blank closed => by
      obtain ⟨ended, last⟩ := orderly_closes opened blank closed
      exact orderly_endsRun last ended
    obtain ⟨front, whole, called⟩ := converted_called source different shape.inside
      (orderlyWord_free word fun stray listed same => unreserved_unlike free listed same) blank apart
    have name : (".".intercalate [String.ofList t]).toList = t := by simp
    have single : ∀ {target : String}, IsLastWord (".".intercalate [String.ofList t]) →
        [String.ofList (front ++ target.toList)] = [target] := by
      intro target last
      rw [IsLastWord, name] at last
      rw [last] at whole
      rw [List.self_eq_append_left.mp whole, List.nil_append, String.ofList_toList]
    have capital := fun {mapping target} (listed : mapping ∈ FunctionMapping.table pair) found =>
      (inTurn_listed (table_inTurn source) listed).2 target found
    refine ⟨?_, (orderly_mark rfl rfl opened).2.2.2.2⟩
    cases called with
    | renamed listed found same called text =>
      have stop : EndsWord ('(' :: pair.converted s) := by
        intro c first
        cases first
        rfl
      have part := renamed_part shape whole (capital listed found) stop
      exact .renamed listed found (by rwa [name]) called single (.one part) (by simpa using text)
    | @dropped mapping target h rest listed found same bare blanks closed text =>
      obtain ⟨ended, last⟩ := orderly_closes opened blanks closed
      have again := (converted_alike source different last).endsWord ended
      have part := renamed_part shape whole (capital listed found) again
      exact .dropped listed found (by rwa [name]) bare single blanks closed (.one part)
        (by simpa using text)
    | kept others text =>
      refine .kept (by rwa [name]) (.one (.plain shape free fun c first => ended c ?_))
        (.mk (gap_blanks (orderly_blanks blank later).1 (solid_of_head _ (by decide)))) ?_
      · cases g with
        | nil => exact first
        | cons d g => exact first
      · rw [text, ← List.append_assoc front, ← whole]
        simp

theorem converted_path {parts : List String} {t opening s : List Char}
    (named : PathText parts t (opening ++ s)) (opened : SymbolText "(" () opening s)
    (orderly : pair.isOrderly (t ++ (opening ++ s)) = true) :
    CalledPath pair parts opening s (pair.converted (t ++ (opening ++ s)))
      ∧ pair.isOrderly s = true := by
  have keeping := converts_keeping source different
  obtain @⟨g, _, gap⟩ := opened
  generalize behind : g ++ "(".toList ++ s = rest at named orderly ⊢
  have split : rest = g ++ '(' :: s := by
    rw [← behind, List.append_assoc]
    rfl
  induction named with
  | one spelled =>
    subst split
    exact converted_lastPart source different spelled gap orderly
  | @more part _ parts t mark u rest head dot tail ih =>
    obtain rfl : mark = ['.'] := dot
    simp only [List.append_assoc, List.cons_append, List.nil_append] at head orderly ⊢
    obtain ⟨_, t', w', text, head', rfl, later, rfl⟩ :=
      keeping.part _ _ _ _ head (uncontinued_dot _) ⟨orderly, rfl⟩
    have last := (orderly_mark rfl rfl later).2.2.2.2
    obtain ⟨called, inside⟩ := ih behind last split
    rw [(converted_steps source different).mark rfl rfl] at text head'
    rw [text]
    exact ⟨called.behind head' (by cases tail <;> exact List.cons_ne_nil _ _), inside⟩

end Paths

end SqlDialects
