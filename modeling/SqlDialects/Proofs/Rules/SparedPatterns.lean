import SqlDialects.Proofs.Rules.LiteralPasses
import SqlDialects.Proofs.Rules.Phrases

/-
What the rules of a pair do to each other's patterns. No rule writes a call of a function that is renamed.
The last rule for row limits leaves none of the limits that it looks for, and so none of those that have
more to them. A fetch clause is missing where it was rewritten, since what is put there has no part of one.
-/
namespace SqlDialects

open Text Pattern

namespace TextRule

/-! What the rules spare. -/

structure Putting (rule : TextRule) (q : Pattern) (write : Match → List Char) (starts : List String) :
    Prop where
  begins : BeginsWith q starts
  onCode : rule.onCode = q.replaceAll write

def SparedBy (p : Pattern) (rule : TextRule) : Prop :=
  ∃ q write starts, Putting rule q write starts ∧ Spares p q write

def PutsPhrase (words : List String) (rule : TextRule) : Prop :=
  ∃ q write starts, Putting rule q write starts ∧
    ∀ before s found, q.matchAt? before s = some found → Phrase words (write found)

theorem PutsPhrase.sparedBy {words : List String} {rule : TextRule} (puts : PutsPhrase words rule)
    {p : Pattern} {starts : List String} (begins : BeginsWith p starts)
    (foreign : ∀ name ∈ words, Foreign starts name.toList)
    (apart : ∀ name ∈ words, ∀ c, name.toList.head? = some c → p.Apart c) : SparedBy p rule := by
  obtain ⟨q, write, others, putting, phrase⟩ := puts
  exact ⟨q, write, others, putting, spares_phrases begins foreign apart phrase⟩

theorem PutsPhrase.more {words others : List String} {rule : TextRule} (puts : PutsPhrase words rule)
    (listed : ∀ name ∈ words, name ∈ others) : PutsPhrase others rule := by
  obtain ⟨q, write, starts, putting, phrase⟩ := puts
  exact ⟨q, write, starts, putting, fun before s found matched =>
    (phrase before s found matched).more listed⟩

section Absent

variable {p : Pattern} {starts : List String} (begins : BeginsWith p starts)
include begins

theorem absent_onCode {rule : TextRule} (spared : SparedBy p rule) {u : List Char}
    (absent : Absent p none u) : Absent p none (rule.onCode u) := by
  obtain ⟨q, write, others, putting, spares⟩ := spared
  rw [putting.onCode]
  exact absent_replaceFrom begins putting.begins spares id (.inr absent)

theorem absent_onCodeAll {rules : List TextRule} (spared : ∀ rule ∈ rules, SparedBy p rule)
    {u : List Char} (absent : Absent p none u) : Absent p none (onCodeAll rules u) := by
  induction rules generalizing u with
  | nil => exact absent
  | cons rule rules ih =>
    exact ih (fun other listed => spared other (.tail rule listed))
      (absent_onCode begins (spared rule List.mem_cons_self) absent)

end Absent

theorem absent_behind {p : Pattern} {write : Match → List Char} {starts : List String}
    {rule : TextRule} (putting : Putting rule p write starts) (spares : Spares p p write)
    {rules before after : List TextRule} (split : rules = before ++ rule :: after)
    (spared : ∀ later ∈ after, SparedBy p later) (u : List Char) :
    Absent p none (onCodeAll rules u) := by
  rw [split, onCodeAll, List.foldl_append, List.foldl_cons]
  refine absent_onCodeAll putting.begins spared ?_
  rw [putting.onCode]
  exact absent_replaceFrom putting.begins putting.begins spares id (.inl rfl)

def Settled (rules : List TextRule) (rule : TextRule) : Prop :=
  ∀ u, rule.onCode (onCodeAll rules u) = onCodeAll rules u

theorem settled_of_absent {rules : List TextRule} {rule : TextRule} {p : Pattern}
    {write : Match → List Char} {starts : List String} (putting : Putting rule p write starts)
    (absent : ∀ u, Absent p none (onCodeAll rules u)) : Settled rules rule := by
  intro u
  rw [putting.onCode]
  exact replaceAll_absent putting.begins (absent u)

/-! Renaming rules. -/

def callPattern (source target : String) : Pattern :=
  wordThen source (blanks :: .char '(' :: if isNiladic target then [blanks, .char ')'] else [])

def callText (target : String) : List Char :=
  if isNiladic target then target.toList else target.toList ++ ['(']

theorem rename_putting {source : String} (capital : IsCapitalWord source) (target : String) :
    Putting (renameRule source target) (callPattern source target) (fun _ => callText target)
      [source] where
  begins := beginsWith_wordThen capital (ends_call _)
  onCode := by
    cases niladic : isNiladic target with
    | true =>
      simp only [onCode, renameRule, callPattern, callText, niladic, ↓reduceIte]
      rfl
    | false =>
      simp only [onCode, renameRule, callPattern, callText, niladic, Bool.false_eq_true, ↓reduceIte]
      rfl

theorem call_apart {source : String} (capital : IsCapitalWord source) (target : String) {c : Char}
    (word : isWordCharacter c = true) : (callPattern source target).Apart c := by
  have solid : isBlank c = false := by
    cases blank : isBlank c with
    | false => rfl
    | true => exact word.symm.trans (not_wordCharacter_of_blank blank)
  have marks : c ≠ '(' ∧ c ≠ ')' := by
    constructor <;> rintro rfl <;> cases word
  refine apart_wordThen capital (stops_of_avoids ?_)
  cases isNiladic target <;> simp [Pattern.sequence, avoids, blanks, solid, marks]

theorem call_ends {source : String} {before : Option Char} {s : List Char} {found : Match}
    (matched : (wordThen source [blanks, .char '(']).matchAt? before s = some found) :
    found.text.getLast? = some '(' := by
  obtain ⟨x, inside, text⟩ := matchAt_split matched
  obtain ⟨_, k, rest, split, _, later⟩ := mem_wordThen inside
  obtain ⟨g, y, _, behind, last⟩ := mem_parenthesis '(' later
  obtain rfl := List.mem_singleton.mp last
  have whole : found.text ++ x.rest = k ++ g ++ ['('] ++ x.rest := by
    rw [← text, show s = k ++ rest from split, show rest = g ++ '(' :: x.rest from behind]
    simp
  rw [List.append_cancel_right whole]
  simp

/-- The new name is not taken for the function, and a name without parentheses does not begin its name. -/
def isApartFrom (source target : String) : Bool :=
  if isNiladic target then !leadsWord target source
  else target.toList.map foldCase != source.toList.map foldCase

theorem call_spares {source other target : String} (capital : IsCapitalWord source)
    (known : IsCapitalWord target) (apart : isApartFrom source target = true) (own : String) :
    Spares (callPattern source own) (callPattern other target) fun _ => callText target := by
  have begins := (rename_putting capital own).begins
  have first : ∀ name ∈ [target], ∀ c, name.toList.head? = some c → (callPattern source own).Apart c := by
    intro name listed c head
    obtain rfl := List.mem_singleton.mp listed
    exact call_apart capital own (known.run.word.inside c (List.mem_of_head? head))
  intro before s found matched
  rw [isApartFrom] at apart
  rw [callPattern] at matched
  rw [callText]
  cases niladic : isNiladic target with
  | true =>
    rw [niladic] at apart
    have phrase : Phrase [target] target.toList := ⟨target, by simp, [], rfl, by simp⟩
    have foreign : ∀ name ∈ [target], Foreign [source] name.toList := by
      intro name listed
      obtain rfl := List.mem_singleton.mp listed
      exact foreign_word known (by simpa using apart)
    exact spares_phrases begins foreign first (fun _ _ _ _ => phrase) before s found matched
  | false =>
    rw [niladic] at apart matched
    simp only [Bool.false_eq_true, ↓reduceIte, bne_iff_ne] at apart
    refine ⟨?_, fun before t _ => absentIn_append.mpr ⟨?_, absentIn_mark begins rfl _ _⟩, fun _ => ?_⟩
    · cases split : target.toList with
      | nil => exact absurd split known.nonempty
      | cons c w =>
        refine ⟨c, w ++ ['('], rfl, ?_, first target (by simp) c (by rw [split]; rfl)⟩
        exact known.run.word.inside c (by rw [split]; exact List.mem_cons_self)
    · refine absentIn_word begins known.run.word.inside ?_
      refine no_match_word begins known.run.word (endsRun_cons rfl t) (fun word listed => ?_) before
      obtain rfl := List.mem_singleton.mp listed
      exact apart
    · rw [call_ends matched]
      rfl

/-! Rules for row limits and operators. -/

theorem limitComma_limit : Putting (limitCommaRule .limit) limitComma
    (fun found => limitText (found.group 2) (found.group 1)) ["LIMIT"] := ⟨limit_begins _, rfl⟩

theorem limitComma_fetch : Putting (limitCommaRule .fetchFirst) limitComma
    (fun found => offsetFetchText (found.group 1) (found.group 2)) ["LIMIT"] := ⟨limit_begins _, rfl⟩

theorem limitOffset_putting : Putting limitOffsetRule limitOffset
    (fun found => offsetFetchText (found.group 2) (found.group 1)) ["LIMIT"] := ⟨limit_begins _, rfl⟩

theorem limitAlone_putting : Putting limitAloneRule limitAlone
    (fun found => fetchText (found.group 1)) ["LIMIT"] := ⟨limit_begins _, rfl⟩

theorem fetchFirst_putting : Putting fetchFirstRule fetchFirst fetchAsLimit ["OFFSET", "FETCH"] :=
  ⟨fetch_begins, rfl⟩

theorem limitAlone_phrase : PutsPhrase fetchingWords limitAloneRule :=
  ⟨_, _, _, limitAlone_putting, fun _ _ _ matched =>
    fetchText_phrase (group_present matched (by decide) (by decide))⟩

theorem limitOffset_phrase : PutsPhrase fetchingWords limitOffsetRule :=
  ⟨_, _, _, limitOffset_putting, fun _ _ _ matched => offsetFetchText_phrase
    (group_present matched (by decide) (by decide)) (group_present matched (by decide) (by decide))⟩

theorem fetchAsLimit_phrase {before : Option Char} {s : List Char} {found : Match}
    (matched : fetchFirst.matchAt? before s = some found) : Phrase limitingWords (fetchAsLimit found) := by
  have rows : DigitRun (found.group 2) := group_present matched (by decide) (by decide)
  rw [fetchAsLimit]
  split
  · next offset part => exact limitText_phrase rows (group_digits matched (by decide) part)
  · exact (limit_phrase rows).more (by decide)

theorem rowLimits_phrase (pair : Pair) : ∀ rule ∈ rowLimits pair, PutsPhrase phraseWords rule := by
  intro rule listed
  rcases List.mem_append.mp listed with listed | listed
  · split at listed
    · obtain rfl := List.mem_singleton.mp listed
      cases pair.target.rowLimit with
      | limit =>
        exact ⟨_, _, _, limitComma_limit, fun _ _ _ matched => (limitText_phrase
          (group_present matched (by decide) (by decide))
          (group_present matched (by decide) (by decide))).more limiting_listed⟩
      | fetchFirst =>
        exact ⟨_, _, _, limitComma_fetch, fun _ _ _ matched => (offsetFetchText_phrase
          (group_present matched (by decide) (by decide))
          (group_present matched (by decide) (by decide))).more fetching_listed⟩
    · cases listed
  · split at listed
    · rcases List.mem_pair.mp listed with rfl | rfl
      · exact limitOffset_phrase.more fetching_listed
      · exact limitAlone_phrase.more fetching_listed
    · split at listed
      · obtain rfl := List.mem_singleton.mp listed
        exact ⟨_, _, _, fetchFirst_putting, fun _ _ _ matched =>
          (fetchAsLimit_phrase matched).more limiting_listed⟩
      · cases listed
    · cases listed

theorem operator_putting {pair : Pair} {rule : TextRule} (listed : rule ∈ operators pair) :
    Putting rule (wordThen "ILIKE" [.boundary]) (fun _ => "LIKE".toList) ["ILIKE"] := by
  rw [operators] at listed
  split at listed
  · obtain rfl := List.mem_singleton.mp listed
    exact ⟨ilike_begins, rfl⟩
  · cases listed

theorem operators_phrase (pair : Pair) : ∀ rule ∈ operators pair, PutsPhrase ["LIKE"] rule :=
  fun _ listed => ⟨_, _, _, operator_putting listed, fun _ _ _ _ => like_phrase⟩

def seekers (pair : Pair) : List TextRule := renames pair ++ (rowLimits pair ++ operators pair)

/-! Calls. -/

theorem table_apart {pair : Pair} (source : pair.source = .mysql ∨ pair.source = .postgresql) :
    (FunctionMapping.table pair).all (fun mapping => (FunctionMapping.table pair).all fun other =>
      other.action.target?.all (isApartFrom mapping.source)) = true := by
  obtain ⟨first, second⟩ := pair
  rcases source with source | source <;> (simp only at source; subst source) <;> cases second <;>
    decide

theorem source_foreign {pair : Pair} {mapping : FunctionMapping}
    (listed : mapping ∈ FunctionMapping.table pair) :
    ∀ name ∈ phraseWords, Foreign [mapping.source] name.toList := by
  have check : allMappings.all (fun mapping => phraseWords.all fun word =>
      [mapping.source].all fun start => !leadsWord word start) = true := by
    decide
  exact phrase_foreign (fun _ => id) (List.all_eq_true.mp check mapping (table_listed listed))

section Calls

variable {pair : Pair} (source : pair.source = .mysql ∨ pair.source = .postgresql)
  {mapping : FunctionMapping} (member : mapping ∈ FunctionMapping.table pair)
include source member

theorem target_spares {other : FunctionMapping} (listed : other ∈ FunctionMapping.table pair)
    {target : String} (named : other.action.target? = some target) (own : String) :
    Spares (callPattern mapping.source own) (callPattern other.source target) fun _ => callText target := by
  have known := fun {mapping} => @inTurn_listed _ (table_inTurn source) mapping
  have each := List.all_eq_true.mp (List.all_eq_true.mp (table_apart source) mapping member) other listed
  rw [named] at each
  exact call_spares (known member).1.capital (capitalName_capital ((known listed).2 target named)) each own

theorem calls_spared (own : String) :
    ∀ rule ∈ seekers pair, SparedBy (callPattern mapping.source own) rule := by
  have known := fun {mapping} => @inTurn_listed _ (table_inTurn source) mapping
  have capital := (known member).1.capital
  intro rule listed
  rcases List.mem_append.mp listed with listed | listed
  · obtain ⟨other, also, named⟩ := List.mem_filterMap.mp listed
    obtain ⟨target, found, rfl⟩ := Option.map_eq_some_iff.mp named
    exact ⟨_, _, _, rename_putting (known also).1.capital target,
      target_spares source member also found own⟩
  · have puts : PutsPhrase phraseWords rule := by
      rcases List.mem_append.mp listed with listed | listed
      · exact rowLimits_phrase pair rule listed
      · exact (operators_phrase pair rule listed).more (by decide)
    refine puts.sparedBy (rename_putting capital own).begins (source_foreign member) fun name known c head => ?_
    exact call_apart capital own ((phraseWord_capital known).run.word.inside c (List.mem_of_head? head))

end Calls

theorem renames_settled {pair : Pair} (source : pair.source = .mysql ∨ pair.source = .postgresql) :
    ∀ rule ∈ renames pair, Settled (seekers pair) rule := by
  intro rule listed
  obtain ⟨before, after, split⟩ := List.append_of_mem listed
  obtain ⟨mapping, member, named⟩ := List.mem_filterMap.mp listed
  obtain ⟨target, found, rfl⟩ := Option.map_eq_some_iff.mp named
  have putting := rename_putting (inTurn_listed (table_inTurn source) member).1.capital target
  have behind : seekers pair = before ++ renameRule mapping.source target
      :: (after ++ (rowLimits pair ++ operators pair)) := by
    rw [seekers, split, List.append_assoc, List.cons_append]
  refine settled_of_absent putting (absent_behind putting (target_spares source member member found target)
    behind fun later listed => calls_spared source member target later ?_)
  rw [behind]
  exact List.mem_append_right _ (.tail _ listed)

/-! Limits. -/

theorem limits_settled {rules before : List TextRule} (split : rules = before ++ [limitAloneRule]) :
    Settled rules (limitCommaRule .fetchFirst) ∧ Settled rules limitOffsetRule
      ∧ Settled rules limitAloneRule := by
  have spares : Spares limitAlone limitAlone fun found => fetchText (found.group 1) :=
    spares_phrases limitAlone_putting.begins (phrase_foreign fetching_listed (by decide))
      (phrase_apart limit_capital (by decide)) fun _ _ _ matched =>
        fetchText_phrase (group_present matched (by decide) (by decide))
  have absent := absent_behind limitAlone_putting spares split (by simp)
  exact ⟨settled_of_absent limitComma_fetch fun u => (absent u).imp fun _ _ => sequence_front,
    settled_of_absent limitOffset_putting fun u => (absent u).imp fun _ _ => sequence_front,
    settled_of_absent limitAlone_putting absent⟩

theorem limitComma_fails {n : List Char} (digits : DigitRun n) (before : Option Char) (rest : List Char) :
    limitComma.matchAt? before ("LIMIT".toList ++ ' ' :: (n ++ ' ' :: ("OFFSET".toList ++ rest)))
      = none := by
  refine matchAt_none fun x found => ?_
  obtain ⟨_, cursor, behind, later⟩ := wordThen_ends limit_capital (ends_gap _) limit_capital.run.word
    (endsRun_cons rfl _) found
  obtain ⟨y, first, later⟩ := mem_seq later
  obtain ⟨z, second, later⟩ := mem_seq later
  obtain ⟨w, third, later⟩ := mem_seq later
  obtain ⟨v, comma, _⟩ := mem_seq later
  obtain ⟨c, mark, split, _⟩ := mem_takeOne comma
  obtain rfl : c = ',' := by simpa using mark
  have passed : Over 'O' cursor w := Over.trans (ends_over (by decide) first)
    (Over.trans (ends_over (by decide) second) (ends_over (by decide) third))
  have front : cursor.rest = (' ' :: n ++ [' ']) ++ 'O' :: ("FFSET".toList ++ rest) := by
    rw [behind, List.append_assoc]
    rfl
  obtain ⟨b, joined⟩ := Over.suffix passed front
  obtain ⟨k, whole, _⟩ := passed
  have taken : ' ' :: n ++ [' '] = k ++ b := by
    refine (List.append_left_inj ('O' :: ("FFSET".toList ++ rest))).mp ?_
    rw [← front, whole, ← joined, List.append_assoc]
  rw [split] at joined
  cases b with
  | nil => cases joined
  | cons d b =>
    obtain rfl : d = ',' := (List.cons.inj joined).1
    have member : ',' ∈ ' ' :: n ++ [' '] := by rw [taken]; simp
    simp only [List.cons_append, List.mem_cons, List.mem_append, List.not_mem_nil, or_false] at member
    rcases member with blank | member | blank
    · cases blank
    · cases digits.2 ',' member
    · cases blank

theorem limitText_absentIn {p : Pattern} {starts : List String} (begins : BeginsWith p starts)
    {n m : List Char} (rows : DigitRun n) (start : DigitRun m) {before : Option Char} {t : List Char}
    (limit : ∀ rest, p.matchAt? before
      ("LIMIT".toList ++ ' ' :: (n ++ ' ' :: ("OFFSET".toList ++ rest))) = none)
    (offset : p.matchAt? (some ' ') ("OFFSET".toList ++ ' ' :: (m ++ t)) = none) :
    AbsentIn p t before (limitText n m) := by
  have number : ∀ {k : List Char}, DigitRun k → ∀ before rest, AbsentIn p rest before k :=
    fun digits => foreign_absentIn begins (foreign_digits begins.capital digits)
  rw [limitText_spoken]
  refine absentIn_blank begins (absentIn_word begins limit_capital.run.word.inside ?_)
    (absentIn_blank begins (number rows _ _) (absentIn_blank begins
      (absentIn_word begins offset_capital.run.word.inside offset) (number start _ _)))
  simpa only [spoken, List.append_assoc, List.cons_append] using limit (' ' :: (m ++ t))

theorem limitComma_settled {rules before : List TextRule}
    (split : rules = before ++ [limitCommaRule .limit]) : Settled rules (limitCommaRule .limit) := by
  refine settled_of_absent limitComma_limit (absent_behind limitComma_limit ?_ split (by simp))
  intro _ s found matched
  have start : DigitRun (found.group 1) := group_present matched (by decide) (by decide)
  have rows : DigitRun (found.group 2) := group_present matched (by decide) (by decide)
  refine (limitText_phrase rows start).fits limiting_letters (fun c first => ?_) (fun before t _ => ?_) _
  · obtain rfl : 'L' = c := Option.some.inj first
    exact apart_wordThen limit_capital (stops_of_avoids (by decide))
  · have offset : Foreign ["LIMIT"] "OFFSET".toList := foreign_word offset_capital (by decide)
    exact limitText_absentIn limitComma_limit.begins rows start (limitComma_fails rows before)
      (no_match_unlike limitComma_limit.begins offset.letters.inside offset.other _ _)

/-! Fetch clauses. -/

theorem fetchFirst_apart : fetchFirst.Apart 'L' := by
  have word : ∀ name ∈ ["OFFSET", "ROW", "FETCH", "FIRST", "NEXT", "ONLY"], (anyCase name).Stops 'L' := by
    have check : ["OFFSET", "ROW", "FETCH", "FIRST", "NEXT", "ONLY"].all (fun name =>
        (!name.toList.isEmpty && name.toList.all isCapital)
          && name.toList.head?.all fun d => foldCase 'L' != foldCase d) = true := by
      decide
    intro name listed
    have each := List.all_eq_true.mp check name listed
    simp only [Bool.and_eq_true] at each
    refine stops_anyCase (isCapitalWord_of_check (by simpa using each.1)) fun d head => ?_
    have other := each.2
    rw [head] at other
    simpa using other
  have rows : rowOrRows.Stops 'L' := stops_sequence (by
    simp only [List.forall_mem_cons, List.not_mem_nil, false_imp_iff, implies_true, and_true]
    exact ⟨word "ROW" (by decide), stops_of_avoids (by decide)⟩)
  have boundary : Pattern.boundary.Stops 'L' := stops_of_avoids rfl
  have space : gap.Stops 'L' := stops_of_avoids (by decide)
  have digits : (plus .digit).avoids 'L' = true := by decide
  have count : ∀ part, (number part).Stops 'L' := fun _ => stops_of_avoids digits
  refine Stops.apart ?_
  rw [fetchFirst_parts]
  refine Stops.seq (Stops.either (stops_sequence ?_) (stops_of_avoids rfl)) (stops_sequence ?_)
  · simp only [List.forall_mem_cons, List.not_mem_nil, false_imp_iff, implies_true, and_true]
    exact ⟨boundary, word "OFFSET" (by decide), space, count 1, space, rows, space⟩
  · simp only [List.forall_mem_cons, List.not_mem_nil, false_imp_iff, implies_true, and_true]
    exact ⟨boundary, word "FETCH" (by decide), space,
      (word "FIRST" (by decide)).either (word "NEXT" (by decide)), space, count 2, space, rows, space,
      word "ONLY" (by decide)⟩

theorem mem_offset {cursor y : Cursor}
    (found : y ∈ (Pattern.sequence [gap, number 1, gap, rowOrRows, gap]).ends cursor) :
    ∃ k e, cursor.rest = k ++ e :: y.rest ∧ isBlank e = true ∧ ∃ d ∈ k, isPatternDigit d = true := by
  obtain ⟨a, first, later⟩ := mem_seq found
  obtain ⟨b, second, later⟩ := mem_seq later
  obtain ⟨c, third, later⟩ := mem_seq later
  obtain ⟨d, fourth, later⟩ := mem_seq later
  obtain ⟨z, fifth, last⟩ := mem_seq later
  obtain rfl := List.mem_singleton.mp last
  obtain ⟨k, front⟩ := ends_suffix _ first
  obtain ⟨v, inside, same⟩ := mem_group second
  obtain ⟨n, ns, digits, count, _⟩ := @mem_plus .digit isPatternDigit rfl _ _ inside
  obtain ⟨l, middle⟩ := ends_suffix _ third
  obtain ⟨r, rows⟩ := ends_suffix _ fourth
  obtain ⟨e, g, blank, space, _⟩ := @mem_plus .blank isBlank rfl _ _ fifth
  obtain ⟨h, f, whole⟩ : ∃ h f, e :: g = h ++ [f] :=
    ⟨_, _, (List.dropLast_append_getLast (List.cons_ne_nil e g)).symm⟩
  refine ⟨k ++ (n :: ns ++ (l ++ (r ++ h))), f, ?_, blank f (by rw [whole]; simp), n, by simp,
    digits n List.mem_cons_self⟩
  rw [← front, count, ← same, ← middle, ← rows, space, whole]
  simp

/-- Behind an offset there is a fetch clause only if one stands in the text that follows. -/
theorem fetchFirst_fails {m t : List Char} (digits : DigitRun m)
    (absent : Absent fetchFirst m.getLast? t) (before : Option Char) :
    fetchFirst.matchAt? before ("OFFSET".toList ++ ' ' :: (m ++ t)) = none := by
  refine matchAt_none fun x found => ?_
  rw [fetchFirst_ends] at found
  rcases List.mem_append.mp found with found | found
  swap
  · obtain ⟨same, _⟩ := wordThen_ends fetch_capital (ends_gap _) offset_capital.run.word
      (endsRun_cons rfl _) found
    exact absurd (congrArg List.length same) (by decide)
  obtain ⟨y, first, later⟩ := List.mem_flatMap.mp found
  obtain ⟨_, cursor, behind, parts⟩ := wordThen_ends offset_capital (ends_gap _) offset_capital.run.word
    (endsRun_cons rfl _) first
  obtain ⟨k, e, split, blank, d, member, digit⟩ := mem_offset parts
  have whole : (k ++ [e]) ++ y.rest = (' ' :: m) ++ t := by
    rw [List.append_assoc, ← show cursor.rest = ' ' :: m ++ t from behind, split]
    rfl
  have solid : ∀ c ∈ m, isBlank c = false := fun c inside => solid_of_digit (digits.2 c inside)
  rcases List.append_eq_append_iff.mp whole with ⟨more, front, _⟩ | ⟨more, front, rest⟩
  · -- the blank at the end would be one of the digits
    cases k with
    | nil => cases member
    | cons b k =>
      have inside : e ∈ m := by
        rw [(List.cons.inj front).2]
        simp
      rw [solid e inside] at blank
      cases blank
  · have last : more.getLast?.or m.getLast? = some e := by
      have ends := congrArg List.getLast? front
      rw [List.getLast?_append, List.getLast?_append] at ends
      rw [List.getLast?_cons_of_ne_nil digits.1] at ends
      simpa using ends.symm
    rw [rest] at absent
    have none := Absent.start fetch_begins (absent_append.mp absent).2
    have aside := (begun_wordThen fetch_capital (ends_gap _) later).1
    rw [last, fetch_begins.insensitive (some e) y.before _ (by
      rw [aside]
      exact not_wordCharacter_of_blank blank)] at none
    -- the fetch clause is found without the offset as well
    have same : Swapped [] [] y { before := y.before, rest := y.rest } :=
      ⟨rfl, y.rest, (List.append_nil _).symm, (List.append_nil _).symm⟩
    obtain ⟨z, inside, _⟩ := ends_swapped fetchPart rfl same later List.nil_suffix
    refine matchAt_eq_none.mp none z ?_
    rw [fetchFirst_ends]
    exact List.mem_append_right _ inside

theorem fetchFirst_spares : Spares fetchFirst fetchFirst fetchAsLimit := by
  intro _ s found matched
  have rows : DigitRun (found.group 2) := group_present matched (by decide) (by decide)
  have foreign : Foreign ["OFFSET", "FETCH"] "LIMIT".toList := foreign_word limit_capital (by decide)
  refine (fetchAsLimit_phrase matched).fits limiting_letters (fun c first => ?_)
    (fun before t absent => ?_) _
  · obtain rfl : 'L' = c := by
      rw [fetchAsLimit] at first
      split at first <;> exact Option.some.inj first
    exact fetchFirst_apart
  · cases part : found.group? 1 with
    | some offset =>
      have start := group_digits matched (by decide) part
      have text : fetchAsLimit found = limitText (found.group 2) offset := by rw [fetchAsLimit, part]
      rw [text, show limitText (found.group 2) offset = _ ++ offset from rfl,
        List.getLast?_append_of_ne_nil _ start.1] at absent
      rw [text]
      exact limitText_absentIn fetch_begins rows start
        (fun rest => no_match_unlike fetch_begins foreign.letters.inside foreign.other _ _)
        (fetchFirst_fails start absent _)
    | none =>
      have text : fetchAsLimit found = "LIMIT ".toList ++ found.group 2 := by rw [fetchAsLimit, part]
      rw [text]
      refine (limit_phrase rows).absentIn fetch_begins (fun name listed => ?_) before t
      obtain rfl := List.mem_singleton.mp listed
      exact foreign

theorem fetch_operators_settled {rules before : List TextRule} {rule : TextRule} {pair : Pair}
    (listed : rule ∈ operators pair) (split : rules = before ++ [fetchFirstRule, rule]) :
    Settled rules fetchFirstRule ∧ Settled rules rule := by
  have like : ∀ starts, ["LIKE"].all (fun word => starts.all fun start => !leadsWord word start) = true →
      ∀ name ∈ ["LIKE"], Foreign starts name.toList := fun _ => phrase_foreign (by decide)
  have putting := operator_putting listed
  constructor
  · refine settled_of_absent fetchFirst_putting
      (absent_behind fetchFirst_putting fetchFirst_spares split fun later member => ?_)
    obtain rfl := List.mem_singleton.mp member
    refine (operators_phrase pair later listed).sparedBy fetch_begins (like _ (by decide))
      fun name known c first => ?_
    obtain rfl := List.mem_singleton.mp known
    obtain rfl : 'L' = c := Option.some.inj first
    exact fetchFirst_apart
  · refine settled_of_absent putting (absent_behind putting ?_
      (split.trans (List.append_cons before fetchFirstRule _)) (by simp))
    exact spares_phrases ilike_begins (like _ (by decide))
      (phrase_apart (canonicalWord (by simp [canonicalWords])) (by decide)) fun _ _ _ _ => like_phrase

end TextRule

end SqlDialects
