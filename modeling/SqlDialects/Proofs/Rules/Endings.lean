import SqlDialects.Proofs.Grammar.Bodies
import SqlDialects.Proofs.Rules.CalmRules
import SqlDialects.Proofs.Rules.Stepping

/-
The end of a text. The patterns of the rules end with neither a blank nor a semicolon, and so does what
is written for a match. What stands behind a statement therefore stays behind it, and the statement
ends where it ended before.
-/
namespace SqlDialects

open Text Pattern Reader

structure KeepsEnd (f : List Char → List Char) : Prop where
  behind : ∀ s {n}, (∀ c ∈ n, isLoose c = true) → f (s ++ n) = f s ++ n
  closed : ∀ {s}, Closed s → Closed (f s)

namespace KeepsEnd

variable {f g : List Char → List Char}

theorem id : KeepsEnd fun s => s := ⟨fun _ _ _ => rfl, fun closed => closed⟩

theorem comp (first : KeepsEnd f) (second : KeepsEnd g) : KeepsEnd fun s => g (f s) where
  behind s n loose := by rw [first.behind s loose, second.behind _ loose]
  closed closed := second.closed (first.closed closed)

theorem runAll {rules : List TextRule} (each : ∀ rule ∈ rules, KeepsEnd rule.run) :
    KeepsEnd fun s => TextRule.runAll rules s :=
  runAll_induction (K := KeepsEnd) KeepsEnd.id comp each

end KeepsEnd

/-! Rules that put something for the matches of a pattern. -/

section Replacing

variable {p : Pattern} {starts : List String} (begins : BeginsWith p starts)
  {write : Match → List Char} {n : List Char} (loose : ∀ c ∈ n, isLoose c = true)
include begins loose

theorem replaceFrom_loose (before : Option Char) (closed : Bool) :
    replaceFrom p write before 0 closed n = n := by
  induction n generalizing before closed with
  | nil => rw [replaceFrom_nil, no_match_ended begins endsRun_nil before]
  | cons c n ih =>
    rw [replaceFrom_cons, no_match_ended begins (endsRun_of_loose loose) before]
    exact congrArg (c :: ·) (ih (fun d member => loose d (by simp [member])) _ _)

theorem replaceAll_behind (tight : p.EndsTight) (s : List Char) :
    p.replaceAll write (s ++ n) = p.replaceAll write s ++ n :=
  replaceFrom_front begins (fun before u => matchAt_loose tight loose before u)
    (replaceFrom_loose begins loose) s (Nat.zero_le _)

end Replacing

section Literals

variable {f : List Char → List Char}

theorem outsideLiterals_behind {n : List Char} (code : '\x27' ∉ n)
    (behind : ∀ u, f (u ++ n) = f u ++ n) (s : List Char) :
    outsideLiterals f (s ++ n) = outsideLiterals f s ++ n := by
  have copied : fromLiteral f n = n := by
    clear behind
    induction n with
    | nil => rfl
    | cons c n ih =>
      obtain ⟨other, rest⟩ := List.ne_and_not_mem_of_not_mem_cons code
      rw [fromLiteral_inside f other.symm, ih rest]
  refine (@literal_induction (fun s => outsideLiterals f (s ++ n) = outsideLiterals f s ++ n)
    (fun t => fromLiteral f (t ++ n) = fromLiteral f t ++ n) ?_ ?_ copied ?_ ?_ s).1
  · intro u outside
    rw [outsideLiterals_code f (by simp [outside, code]), outsideLiterals_code f outside, behind]
  · intro u t outside later
    rw [List.append_assoc, List.cons_append, outsideLiterals_opened f outside,
      outsideLiterals_opened f outside, later]
    simp
  · intro t later
    rw [List.cons_append, fromLiteral_closed, fromLiteral_closed, later]
    rfl
  · intro c t plain later
    rw [List.cons_append, fromLiteral_inside f plain, fromLiteral_inside f plain, later]
    rfl

end Literals

theorem Reworded.ended {s t : List Char} (reworded : Reworded s t) (ended : Closed s) : Closed t := by
  obtain ⟨c, last, solid⟩ := ended
  have nonempty : s ≠ [] := by
    rintro rfl
    cases last
  obtain ⟨d, back⟩ : ∃ d, t.getLast? = some d :=
    ⟨_, List.getLast?_eq_some_getLast (reworded.ne_nil nonempty)⟩
  refine ⟨d, back, (reworded.last back).elim (fun same => ?_) fun kept => kept⟩
  obtain rfl : c = d := Option.some.inj (last.symm.trans same)
  exact solid

theorem quiet_keepsEnd {rule : TextRule} (quiet : TextRule.PutsQuiet rule) {p : Pattern}
    {write : Match → List Char}
    (run : rule.run = outsideLiterals (p.replaceAll write)) {starts : List String}
    (begins : BeginsWith p starts) (tight : p.EndsTight) : KeepsEnd rule.run where
  behind s n loose := by
    rw [congrFun run, congrFun run]
    exact outsideLiterals_behind (fun member => by cases loose _ member)
      (replaceAll_behind begins loose tight) s
  closed ended := (quiet.reworded _).ended ended

theorem closed_behind {t u : List Char} (closed : Closed (t ++ u)) (nonempty : u ≠ []) : Closed u := by
  obtain ⟨c, last, kept⟩ := closed
  refine ⟨c, ?_, kept⟩
  rwa [List.getLast?_append_of_ne_nil _ nonempty] at last

/-! Quotes. -/

section Requoting

variable {source target : Char} (known : source ∈ nameQuotes) (also : target ∈ nameQuotes)

theorem nameQuote_closed {q : Char} (known : q ∈ nameQuotes) (t : List Char) : Closed (t ++ [q]) := by
  rcases List.mem_pair.mp known with rfl | rfl <;> exact closed_end _ rfl (by decide) t

theorem loose_unquoted {c q : Char} (loose : isLoose c = true) (known : q ∈ nameQuotes) :
    c ≠ '\x27' ∧ c ≠ q := by
  constructor
  · rintro rfl
    cases loose
  · rintro rfl
    rcases List.mem_pair.mp known with rfl | rfl <;> cases loose

include known in
theorem requoteFrom_loose {n : List Char} (loose : ∀ c ∈ n, isLoose c = true) (read : List Char) :
    (requoteFrom source target .code n).1 = n ∧ (requoteFrom source target .literal n).1 = n
      ∧ (requoteFrom source target (.name read) n).1 = source :: read ++ n := by
  induction n generalizing read with
  | nil => simp [requoteFrom]
  | cons c n ih =>
    have apart := loose_unquoted (loose c List.mem_cons_self) known
    have later := ih fun d member => loose d (by simp [member])
    refine ⟨?_, ?_, ?_⟩
    · rw [requoteFrom_code_cons, if_neg apart.1, if_neg apart.2, (later []).1]
    · rw [requoteFrom, if_neg apart.1, (later []).2.1]
    · rw [requoteFrom_name_more apart.2, (later _).2.2]
      simp

include known in
theorem requoteFrom_behind {n : List Char} (loose : ∀ c ∈ n, isLoose c = true) (scan : QuoteScan)
    (s : List Char) :
    (requoteFrom source target scan (s ++ n)).1 = (requoteFrom source target scan s).1 ++ n := by
  have alone := @requoteFrom_loose source target known n loose
  fun_induction requoteFrom source target scan s with
  | case1 => exact (alone []).1
  | case2 => exact (alone []).2.1
  | case3 read => exact (alone read).2.2
  | case4 c rest next ih =>
    rw [List.cons_append, requoteFrom]
    exact congrArg (c :: ·) ih
  | case5 rest next ih =>
    rw [List.cons_append, requoteFrom_code_cons, if_pos rfl]
    exact congrArg ('\x27' :: ·) ih
  | case6 rest apostrophe ih =>
    rw [List.cons_append, requoteFrom_code_cons, if_neg apostrophe, if_pos rfl]
    exact ih
  | case7 c rest apostrophe other next ih =>
    rw [List.cons_append, requoteFrom_code_cons, if_neg apostrophe, if_neg other]
    exact congrArg (c :: ·) ih
  | case8 read =>
    cases n with
    | nil => rw [List.append_nil, List.append_nil, requoteFrom_name_last]
    | cons d n =>
      have other := (loose_unquoted (loose d List.mem_cons_self) known).2
      rw [List.singleton_append, requoteFrom_name_closed other, (alone []).1]
  | case9 read more ih =>
    rw [List.cons_append, List.cons_append, requoteFrom_name_doubled]
    exact ih
  | case10 read d more other next ih =>
    rw [List.cons_append, List.cons_append, requoteFrom_name_closed other]
    simpa using ih
  | case11 read c rest other ih =>
    rw [List.cons_append, requoteFrom_name_more other]
    exact ih

theorem closed_more {c : Char} {rest next : List Char} (ended : Closed (c :: rest))
    (last : rest = [] → next = []) (later : Closed rest → Closed next) : Closed (c :: next) := by
  cases rest with
  | nil => rwa [last rfl]
  | cons d rest => exact (later (closed_behind (t := [c]) ended (List.cons_ne_nil d rest))).cons c

include known also in
theorem requoteFrom_closed (scan : QuoteScan) (s : List Char) (ended : Closed s) :
    Closed (requoteFrom source target scan s).1 := by
  fun_induction requoteFrom source target scan s with
  | case1 => exact ended
  | case2 => exact ended
  | case3 read => exact absurd rfl ended.ne_nil
  | case4 c rest next ih =>
    refine closed_more ended (fun empty => ?_) ih
    simp only [next, empty]
    split <;> rfl
  | case5 rest next ih => exact closed_more ended (fun empty => by simp only [next, empty]; rfl) ih
  | case6 rest apostrophe ih =>
    cases rest with
    | nil => exact ended
    | cons d rest => exact ih (closed_behind (t := [source]) ended (List.cons_ne_nil d rest))
  | case7 c rest apostrophe other next ih =>
    exact closed_more ended (fun empty => by simp only [next, empty]; rfl) ih
  | case8 read => exact (nameQuote_closed also _).cons target
  | case9 read more ih =>
    cases more with
    | nil => exact (nameQuote_closed known read).cons source
    | cons d more => exact ih (closed_behind (t := [source, source]) ended (List.cons_ne_nil d more))
  | case10 read d more other next ih =>
    exact (ih (closed_behind (t := [source]) ended (List.cons_ne_nil d more))).behind _
  | case11 read c rest other ih =>
    cases rest with
    | nil => exact (ended.behind read).cons source
    | cons d rest => exact ih (closed_behind (t := [c]) ended (List.cons_ne_nil d rest))

include known also in
theorem requote_keepsEnd : KeepsEnd fun s => (requote source target s).1 where
  behind s _ loose := requoteFrom_behind known loose .code s
  closed {s} ended := requoteFrom_closed known also .code s ended

end Requoting

/-! The rules of a pair. -/

theorem tight_of_word {c : Char} (word : isWordCharacter c = true) : isLoose c = false := by
  cases loose : isLoose c with
  | false => rfl
  | true => exact word.symm.trans (not_wordCharacter_of_loose loose)

theorem char_tight {c : Char} (solid : isLoose c = false) : (Pattern.char c).EndsTight :=
  tight_takeOne rfl fun d same => by rwa [beq_iff_eq.mp same]

theorem anyCase_tight {word : String} (capital : IsCapitalWord word) : (anyCase word).EndsTight := by
  obtain ⟨cs, c, split⟩ := (List.eq_nil_or_concat' _).resolve_left capital.nonempty
  have last : isCapital c = true := capital.inside c (by simp [split])
  rw [anyCase, split, List.map_append]
  refine tight_sequence (tight_takeOne rfl fun d same => ?_) _
  exact tight_of_word (wordCharacter_of_fold (beq_iff_eq.mp same) last)

theorem number_tight (part : Nat) : (TextRule.number part).EndsTight := by
  intro cursor x found
  obtain ⟨y, inside, rest⟩ := mem_group found
  obtain ⟨d, ds, digits, split, _⟩ := @mem_plus .digit isPatternDigit rfl _ _ inside
  obtain ⟨front, last, whole⟩ := (List.eq_nil_or_concat' _).resolve_left (List.cons_ne_nil d ds)
  refine ⟨front, last, ?_, tight_of_word (wordCharacter_of_digit (digits last (by simp [whole])))⟩
  rw [split, whole, rest]
  simp

theorem rename_keepsEnd {source target : String} (renameable : Renameable source)
    (quiet : TextRule.PutsQuiet (TextRule.renameRule source target)) :
    KeepsEnd fun s => (TextRule.renameRule source target).run s := by
  cases niladic : isNiladic target with
  | false =>
    exact quiet_keepsEnd quiet (renameRule_called niladic) (call_begins renameable [])
      (tight_sequence (char_tight rfl) [.boundary, anyCase source, TextRule.blanks])
  | true =>
    exact quiet_keepsEnd quiet (renameRule_bare niladic)
      (call_begins renameable [TextRule.blanks, .char ')'])
      (tight_sequence (char_tight rfl)
        [.boundary, anyCase source, TextRule.blanks, .char '(', TextRule.blanks])

theorem rowLimit_keepsEnd {pair : Pair} {rule : TextRule} (listed : rule ∈ TextRule.rowLimits pair) :
    KeepsEnd rule.run := by
  have quiet := TextRule.rowLimits_quiet pair rule listed
  rcases List.mem_append.mp listed with listed | listed
  · split at listed
    · obtain rfl := List.mem_singleton.mp listed
      have comma := tight_sequence (number_tight 2) [.boundary, anyCase "LIMIT", TextRule.gap,
        TextRule.number 1, TextRule.blanks, .char ',', TextRule.blanks]
      cases form : pair.target.rowLimit with
      | limit | fetchFirst =>
        rw [form] at quiet
        exact quiet_keepsEnd quiet rfl (limit_begins _) comma
    · cases listed
  · split at listed
    · rcases List.mem_pair.mp listed with rfl | rfl
      · exact quiet_keepsEnd quiet rfl (limit_begins _) (tight_sequence (number_tight 2) [.boundary,
          anyCase "LIMIT", TextRule.gap, TextRule.number 1, TextRule.gap, anyCase "OFFSET",
          TextRule.gap])
      · exact quiet_keepsEnd quiet rfl (limit_begins _) (tight_sequence (number_tight 1) [.boundary,
          anyCase "LIMIT", TextRule.gap])
    · split at listed
      · obtain rfl := List.mem_singleton.mp listed
        have only : IsCapitalWord "ONLY" := canonicalWord (by simp [canonicalWords, pageWords])
        exact quiet_keepsEnd quiet rfl fetch_begins (tight_sequence (anyCase_tight only) [_,
          .boundary, anyCase "FETCH", TextRule.gap, .either (anyCase "FIRST") (anyCase "NEXT"),
          TextRule.gap, TextRule.number 2, TextRule.gap, TextRule.rowOrRows, TextRule.gap])
      · cases listed
    · cases listed

theorem operator_keepsEnd {pair : Pair} {rule : TextRule} (listed : rule ∈ TextRule.operators pair) :
    KeepsEnd rule.run := by
  have quiet := TextRule.operators_quiet pair rule listed
  rw [TextRule.operators] at listed
  split at listed
  · obtain rfl := List.mem_singleton.mp listed
    have capital := ilike_begins.capital "ILIKE" (by simp)
    exact quiet_keepsEnd quiet rfl ilike_begins
      (tight_seq (tight_boundary (anyCase_tight capital)) .boundary)
  · cases listed

theorem quotes_keepsEnd {pair : Pair} {rule : TextRule} (listed : rule ∈ TextRule.quotes pair) :
    KeepsEnd rule.run := by
  rw [TextRule.quotes] at listed
  split at listed
  · cases listed
  · obtain rfl := List.mem_singleton.mp listed
    exact requote_keepsEnd (quote_nameQuote pair.source) (quote_nameQuote pair.target)

/-- What the rules make of a text they make of it in front of blanks and semicolons, and it ends with
neither if the text does not. -/
theorem converted_keepsEnd {pair : Pair} (source : pair.source = .mysql ∨ pair.source = .postgresql)
    (different : pair.target ≠ pair.source) : KeepsEnd pair.converted := by
  refine KeepsEnd.runAll fun rule listed => ?_
  simp only [pipeline_rules source different, List.mem_append] at listed
  rcases listed with listed | listed | listed | listed
  · have quiet := TextRule.renames_quiet pair rule listed
    obtain ⟨mapping, member, made⟩ := List.mem_filterMap.mp listed
    obtain ⟨target, found, rfl⟩ := Option.map_eq_some_iff.mp made
    exact rename_keepsEnd (inTurn_listed (table_inTurn source) member).1 quiet
  · exact rowLimit_keepsEnd listed
  · exact quotes_keepsEnd listed
  · exact operator_keepsEnd listed

/-- The blank and the semicolon stay behind the row limit in its new form. -/
example : Pair.converted ⟨.mysql, .oracle⟩ "SELECT NOW() LIMIT 1 ;".toList
    = "SELECT SYSDATE FETCH FIRST 1 ROWS ONLY ;".toList := by
  decide +kernel

end SqlDialects
