import SqlDialects.Proofs.Grammar.Keeping
import SqlDialects.Proofs.Pattern.Cutting
import SqlDialects.Proofs.Rules.Pipeline

/-
The text rules, one lexeme after the other. Whatever text follows, a rule copies marks, literals and
the words that it does not look for, and goes on behind them as if the text began there. Rules that
do so one after the other do so together.
-/
namespace SqlDialects

open Text Pattern Reader

/-! What stands behind a word, blanks aside. -/

def Uncounted (s : List Char) : Prop :=
  ∀ c, (s.dropWhile isBlank).head? = some c → isPatternDigit c = false

/-- A word that no rule looks for in this place. Functions are looked for where they are called, if
`calls` are looked for at all, and the words of a row limit where a number follows, but `FETCH` and
`ILIKE` anywhere. -/
structure Inert (calls : Bool) (k s : List Char) : Prop where
  letters : IsPatternWord k
  ended : EndsRun s
  uncalled : calls = true → Uncalled s
  other : ∀ word ∈ ["ILIKE", "FETCH"], ¬ Same k word
  uncounted : ∀ word ∈ ["LIMIT", "OFFSET"], Same k word → Uncounted s

structure Steps (f : List Char → List Char) (starts : List String) (calls : Bool) : Prop where
  nil : f [] = []
  mark : ∀ {c : Char}, isWordCharacter c = false → Nesting.isQuote c = false →
    ∀ s, f (c :: s) = c :: f s
  letter : ∀ {c : Char}, isWordCharacter c = true →
    ∀ s, ∃ d w, f (c :: s) = d :: w ∧ (d = c ∨ d.isUpper = true)
  quote : ∀ {q : Char}, Nesting.isQuote q = true →
    ∀ s, ∃ d w, f (q :: s) = d :: w ∧ (d = q ∨ q ∈ nameQuotes ∧ d ∈ nameQuotes)
  literal : ∀ body s, f (enclose '\x27' body ++ s) = enclose '\x27' body ++ f s
  other : ∀ {k s}, IsPatternWord k → EndsRun s → (∀ start ∈ starts, ¬ Same k start) →
    f (k ++ s) = k ++ f s
  inert : ∀ {k s}, Inert calls k s → f (k ++ s) = k ++ f s

theorem quote_not_word {q : Char} (quote : Nesting.isQuote q = true) : isWordCharacter q = false := by
  rcases (by simpa [Nesting.isQuote, or_assoc] using quote :
    q = '\x27' ∨ q = '"' ∨ q = '\x60') with rfl | rfl | rfl <;> rfl

theorem nameQuote_quote {q : Char} (known : q ∈ nameQuotes) : Nesting.isQuote q = true := by
  rcases List.mem_pair.mp known with rfl | rfl <;> rfl

theorem nameQuotes_both {test : Char → Prop} (double : test '"') (back : test '\x60') :
    ∀ q ∈ nameQuotes, test q := by
  intro q known
  rcases List.mem_pair.mp known with rfl | rfl
  · exact double
  · exact back

theorem letter_not_digit {c : Char} (letter : c.isAlpha = true) : isPatternDigit c = false := by
  cases digit : isPatternDigit c with
  | false => rfl
  | true =>
    have other := not_alphabetic_of_decimalDigit ((Bool.and_eq_true ..).mp digit).1
    exact (alphabetic_of_isAlpha c letter).symm.trans other

theorem runAll_induction {K : (List Char → List Char) → Prop} (same : K fun s => s)
    (comp : ∀ {f g}, K f → K g → K fun s => g (f s)) {rules : List TextRule}
    (each : ∀ rule ∈ rules, K rule.run) : K fun s => TextRule.runAll rules s := by
  induction rules with
  | nil => exact same
  | cons rule rules ih =>
    have both := comp (each rule (by simp)) (ih fun found listed => each found (by simp [listed]))
    rwa [← funext (TextRule.runAll_cons rule rules)] at both

namespace Steps

variable {f g : List Char → List Char} {starts others : List String} {calls : Bool}

section One

variable (steps : Steps f starts calls)
include steps

/-- The changed text begins as the text does, or with a letter in the place of a word, or with
another quote in the place of a quote. -/
theorem head {s : List Char} {d : Char} (first : (f s).head? = some d) :
    ∃ c, s.head? = some c ∧ (d = c ∨ isWordCharacter c = true ∧ d.isUpper = true
      ∨ c ∈ nameQuotes ∧ d ∈ nameQuotes) := by
  cases s with
  | nil =>
    rw [steps.nil] at first
    cases first
  | cons c s =>
    refine ⟨c, rfl, ?_⟩
    cases word : isWordCharacter c with
    | true =>
      obtain ⟨e, w, changed, kind⟩ := steps.letter word s
      rw [changed] at first
      cases first
      exact kind.imp id fun upper => .inl ⟨rfl, upper⟩
    | false =>
      cases quoted : Nesting.isQuote c with
      | true =>
        obtain ⟨e, w, changed, kind⟩ := steps.quote quoted s
        rw [changed] at first
        cases first
        exact kind.imp id .inr
      | false =>
        rw [steps.mark word quoted] at first
        cases first
        exact .inl rfl

theorem head_mark {s : List Char} {d : Char} (first : (f s).head? = some d)
    (mark : isWordCharacter d = false) (unquoted : d ∉ nameQuotes) : s.head? = some d := by
  obtain ⟨c, begins, rfl | ⟨_, upper⟩ | ⟨_, quote⟩⟩ := steps.head first
  · exact begins
  · rw [wordCharacter_of_plain (plain_of_isAlpha (by simp [Char.isAlpha, upper]))] at mark
    cases mark
  · exact absurd quote unquoted

theorem endsRun {s : List Char} (ended : EndsRun s) : EndsRun (f s) := by
  intro d first
  obtain ⟨c, begins, rfl | ⟨word, _⟩ | ⟨_, quote⟩⟩ := steps.head first
  · exact ended d begins
  · rw [ended c begins] at word
    cases word
  · exact quote_not_word (nameQuote_quote quote)

theorem blank {c : Char} (blank : isBlank c = true) (s : List Char) : f (c :: s) = c :: f s := by
  refine steps.mark (not_wordCharacter_of_blank blank) ?_ s
  cases quoted : Nesting.isQuote c with
  | false => rfl
  | true =>
    rcases (by simpa [Nesting.isQuote, or_assoc] using quoted :
      c = '\x27' ∨ c = '"' ∨ c = '\x60') with rfl | rfl | rfl <;> cases blank

theorem blanks {g : List Char} (blank : ∀ c ∈ g, isBlank c = true) (s : List Char) :
    f (g ++ s) = g ++ f s := by
  induction g with
  | nil => rfl
  | cons c g ih =>
    rw [List.cons_append, steps.blank (blank c (by simp)), ih fun d member => blank d (by simp [member])]
    rfl

theorem dropBlanks (s : List Char) : (f s).dropWhile isBlank = f (s.dropWhile isBlank) := by
  induction s with
  | nil => rw [List.dropWhile_nil, steps.nil, List.dropWhile_nil]
  | cons c s ih =>
    cases blank : isBlank c with
    | true =>
      rw [steps.blank blank, List.dropWhile_cons_of_pos blank, List.dropWhile_cons_of_pos blank, ih]
    | false =>
      rw [List.dropWhile_cons_of_neg (by simp [blank])]
      -- a letter, a quote or another mark begins the changed text as well
      cases changed : f (c :: s) with
      | nil => rfl
      | cons d w =>
        refine List.dropWhile_cons_of_neg fun found => ?_
        have begins := steps.head_mark (s := c :: s) (by rw [changed]; rfl)
          (not_wordCharacter_of_blank found) fun quote => by
            rcases List.mem_pair.mp quote with rfl | rfl <;> cases found
        cases begins
        rw [blank] at found
        cases found

theorem uncalled {s : List Char} (uncalled : Uncalled s) : Uncalled (f s) := by
  intro opened
  rw [steps.dropBlanks] at opened
  exact uncalled (steps.head_mark opened rfl (by decide))

theorem uncounted {s : List Char} (uncounted : Uncounted s) : Uncounted (f s) := by
  intro d first
  rw [steps.dropBlanks] at first
  obtain ⟨c, begins, rfl | ⟨_, upper⟩ | ⟨_, quote⟩⟩ := steps.head first
  · exact uncounted d begins
  · exact letter_not_digit (by simp [Char.isAlpha, upper])
  · rcases List.mem_pair.mp quote with rfl | rfl <;> rfl

theorem inert_again {k s : List Char} (inert : Inert calls k s) : Inert calls k (f s) :=
  { inert with
    ended := steps.endsRun inert.ended
    uncalled := fun called => steps.uncalled (inert.uncalled called)
    uncounted := fun word listed same => steps.uncounted (inert.uncounted word listed same) }

end One

theorem id : Steps (fun s => s) starts calls where
  nil := rfl
  mark _ _ _ := rfl
  letter _ s := ⟨_, s, rfl, .inl rfl⟩
  quote _ s := ⟨_, s, rfl, .inl rfl⟩
  literal _ _ := rfl
  other _ _ _ := rfl
  inert _ := rfl

theorem comp (first : Steps f starts calls) (second : Steps g starts calls) :
    Steps (fun s => g (f s)) starts calls where
  nil := by rw [first.nil, second.nil]
  mark mark unquoted s := by rw [first.mark mark unquoted, second.mark mark unquoted]
  letter word s := by
    obtain ⟨d, w, changed, kind⟩ := first.letter word s
    rw [changed]
    rcases kind with rfl | upper
    · exact second.letter word w
    · obtain ⟨e, v, again, later⟩ := second.letter
        (wordCharacter_of_plain (plain_of_isAlpha (c := d) (by simp [Char.isAlpha, upper]))) w
      refine ⟨e, v, again, .inr ?_⟩
      rcases later with rfl | later
      · exact upper
      · exact later
  quote quote s := by
    obtain ⟨d, w, changed, kind⟩ := first.quote quote s
    rw [changed]
    rcases kind with rfl | ⟨known, new⟩
    · exact second.quote quote w
    · obtain ⟨e, v, again, later⟩ := second.quote (nameQuote_quote new) w
      refine ⟨e, v, again, .inr ⟨known, ?_⟩⟩
      rcases later with rfl | ⟨_, later⟩
      · exact new
      · exact later
  literal body s := by rw [first.literal, second.literal]
  other letters ended apart := by
    rw [first.other letters ended apart, second.other letters (first.endsRun ended) apart]
  inert inert := by rw [first.inert inert, second.inert (first.inert_again inert)]

theorem more (steps : Steps f starts calls) (listed : ∀ start ∈ starts, start ∈ others) :
    Steps f others calls :=
  { steps with
    other := fun letters ended apart =>
      steps.other letters ended fun start member => apart start (listed start member) }

theorem called (steps : Steps f starts false) : Steps f starts true :=
  { steps with inert := fun inert => steps.inert { inert with uncalled := nofun } }

theorem runAll {rules : List TextRule}
    (each : ∀ rule ∈ rules, Steps rule.run starts calls) :
    Steps (fun s => TextRule.runAll rules s) starts calls :=
  runAll_induction (K := fun f => Steps f starts calls) Steps.id comp each

end Steps

/-! Rules that put something for the matches of a pattern. -/

section Replacing

variable {p : Pattern} {starts : List String} (begins : BeginsWith p starts)
  {write : Match → List Char}
include begins

theorem outside_code {c : Char} (mark : isWordCharacter c = false) (code : c ≠ '\x27')
    (s : List Char) : outsideLiterals (p.replaceAll write) (c :: s)
      = c :: outsideLiterals (p.replaceAll write) s :=
  @outsideLiterals_lift _ [c] [c] _ (by simpa using code) (replaceAll_mark begins mark _)

omit begins in
theorem match_short {before : Option Char} {c e : Char} {s tail : List Char} {m : Match}
    (found : p.matchAt? before (c :: s) = some m) (text : m.text = e :: tail) :
    tail.length ≤ s.length := by
  obtain ⟨x, _, between⟩ := matchAt_ends found
  have length := congrArg List.length (text.symm.trans between)
  simp only [Pattern.between, List.length_take, List.length_cons] at length
  omega

/-- Where no match reaches over the end of a front part, the front part is changed by itself. -/
theorem replaceFrom_front {v changed : List Char}
    (same : ∀ before u, p.matchAt? before (u ++ v) = p.matchAt? before u)
    (behind : ∀ before closed, replaceFrom p write before 0 closed v = changed) (t : List Char)
    {before : Option Char} {skip : Nat} {closed : Bool} (enough : skip ≤ t.length) :
    replaceFrom p write before skip closed (t ++ v)
      = replaceFrom p write before skip closed t ++ changed := by
  induction t generalizing before skip closed with
  | nil =>
    obtain rfl : skip = 0 := by simpa using enough
    rw [List.nil_append, behind, replaceFrom_nil, no_match_ended begins endsRun_nil before]
    rfl
  | cons c t ih =>
    cases skip with
    | succ skip =>
      rw [List.cons_append, replaceFrom_succ, replaceFrom_succ]
      exact ih (by simpa using enough)
    | zero =>
      have here := same before (c :: t)
      rw [List.cons_append] at here ⊢
      rw [replaceFrom_cons, replaceFrom_cons, here]
      cases found : p.matchAt? before (c :: t) with
      | none => simp [ih]
      | some m =>
        cases text : m.text with
        | nil => exact absurd text (begins.begun _ _ _ found).2.1
        | cons e tail => simp [text, ih (match_short found text)]

omit begins in
theorem outside_cons {c : Char} (code : c ≠ '\x27') (change : List Char → List Char)
    (s : List Char) : ∃ more, outsideLiterals change (c :: s) = change (c :: leadingCode s) ++ more := by
  obtain ⟨more, split⟩ := scan_code (c :: s)
  refine ⟨more.flatMap (Segment.changed change), ?_⟩
  have front : leadingCode (c :: s) = c :: leadingCode s := by simp [leadingCode, code]
  rw [outsideLiterals, segments, split, List.flatMap_cons, front]
  rfl

omit begins in
theorem outside_apostrophe (change : List Char → List Char) (nothing : change [] = [])
    (s : List Char) : ∃ w, outsideLiterals change ('\x27' :: s) = '\x27' :: w := by
  obtain ⟨text, more, split⟩ := scan_literal s
  refine ⟨text ++ more.flatMap (Segment.changed change), ?_⟩
  have segments : segments ('\x27' :: s) = .code [] :: .literal ('\x27' :: text) :: more := by
    rw [segments, Segment.scan, if_pos rfl, split]
    rfl
  rw [outsideLiterals, segments]
  simp [Segment.changed, nothing]

end Replacing

theorem mem_enclose {q c : Char} {body : List Char} (member : c ∈ enclose q body) :
    c = q ∨ c ∈ body := by
  have doubled : ∀ {body : List Char}, c ∈ double q body → c = q ∨ c ∈ body := by
    intro body member
    induction body with
    | nil => cases member
    | cons d body ih =>
      rw [double] at member
      split at member
      · rcases List.mem_cons.mp member with same | member
        · exact .inl same
        rcases List.mem_cons.mp member with same | member
        · exact .inl same
        · exact (ih member).imp id (.tail d)
      · rcases List.mem_cons.mp member with rfl | member
        · exact .inr (.head body)
        · exact (ih member).imp id (.tail d)
  rcases List.mem_cons.mp member with same | member
  · exact .inl same
  rcases List.mem_append.mp member with member | member
  · exact doubled member
  · exact .inl (List.mem_singleton.mp member)

/-- A pattern that looks for some words in code. What is written for a match begins with a capital
letter, so it looks like a word in its turn. -/
structure Seeking (p : Pattern) (write : Match → List Char) (starts : List String) (calls : Bool) :
    Prop where
  begins : BeginsWith p starts
  writes : ∀ m, ∃ d w, write m = d :: w ∧ d.isUpper = true
  fails : ∀ {k s}, Inert calls k s → p.matchAt? none (k ++ leadingCode s) = none
  avoids : ∀ q ∈ nameQuotes, p.avoids q = true

namespace Seeking

variable {p : Pattern} {write : Match → List Char} {starts : List String} {calls : Bool}
  (seeking : Seeking p write starts calls)
include seeking

theorem steps : Steps (outsideLiterals (p.replaceAll write)) starts calls where
  nil := outside_nil seeking.begins
  mark mark unquoted s := outside_code seeking.begins mark (by rintro rfl; cases unquoted) s
  letter {c} word s := by
    have code : c ≠ '\x27' := by
      rintro rfl
      cases word
    obtain ⟨more, split⟩ := outside_cons code (p.replaceAll write) s
    rw [split, replaceAll, replaceFrom_cons]
    cases found : p.matchAt? none (c :: leadingCode s) with
    | none => exact ⟨c, _, rfl, .inl rfl⟩
    | some m =>
      obtain ⟨d, w, written, upper⟩ := seeking.writes m
      cases text : m.text with
      | nil => exact absurd text (seeking.begins.begun _ _ _ found).2.1
      | cons e tail =>
        simp only [text, written, List.cons_append]
        exact ⟨d, _, rfl, .inr upper⟩
  quote {q} quote s := by
    by_cases apostrophe : q = '\x27'
    · subst apostrophe
      obtain ⟨w, changed⟩ := outside_apostrophe (p.replaceAll write) (replaceAll_nil seeking.begins) s
      exact ⟨_, w, changed, .inl rfl⟩
    · exact ⟨q, _, outside_code seeking.begins (quote_not_word quote) apostrophe s, .inl rfl⟩
  literal := outside_literal seeking.begins
  other letters ended apart := outside_other seeking.begins letters ended apart
  inert inert := outside_word seeking.begins inert.letters inert.ended (seeking.fails inert)

theorem replaceAll_upTo {q : Char} (known : q ∈ nameQuotes) (t s : List Char) :
    p.replaceAll write (t ++ q :: s) = p.replaceAll write t ++ q :: p.replaceAll write s := by
  have mark := quote_not_word (nameQuote_quote known)
  refine replaceFrom_front seeking.begins
    (fun before u => matchAt_avoided (seeking.avoids q known) mark before u s)
    (fun before closed => ?_) t (Nat.zero_le _)
  have later := @replaceFrom_insensitive _ _ seeking.begins write (some q) none (by simpa using mark) s
  rw [replaceFrom_cons, no_match_ended seeking.begins (endsRun_cons mark s) before]
  exact congrArg (q :: ·) later

theorem name {q : Char} (known : q ∈ nameQuotes) {body : List Char} (code : '\x27' ∉ body)
    (kept : outsideLiterals (p.replaceAll write) (enclose q body) = enclose q body) (s : List Char) :
    outsideLiterals (p.replaceAll write) (enclose q body ++ s)
      = enclose q body ++ outsideLiterals (p.replaceAll write) s := by
  have mark := quote_not_word (nameQuote_quote known)
  have apart : ∀ c ∈ enclose q body, c ≠ '\x27' := by
    rintro c member rfl
    rcases mem_enclose member with rfl | member
    · rcases List.mem_pair.mp known with wrong | wrong <;> cases wrong
    · exact code member
  have step : ∀ u, p.replaceAll write (enclose q body ++ u)
      = q :: (p.replaceAll write (double q body) ++ [q]) ++ p.replaceAll write u := by
    intro u
    rw [enclose_append, replaceAll_mark seeking.begins mark, seeking.replaceAll_upTo known]
    simp
  have alone := outsideLiterals_lift apart (s := []) (step (leadingCode []))
  rw [List.append_nil, outside_nil seeking.begins, List.append_nil, kept] at alone
  have same := outsideLiterals_lift apart (s := s) (step (leadingCode s))
  rwa [← alone] at same

end Seeking

/-! The rules of a pair. -/

theorem anyCase_avoids {q : Char} (known : q ∈ nameQuotes) {word : String}
    (capital : IsCapitalWord word) : (anyCase word).avoids q = true := by
  have each : ∀ cs : List Char, (∀ c ∈ cs, isCapital c = true) →
      (Pattern.sequence (cs.map .letter)).avoids q = true := by
    intro cs letters
    induction cs with
    | nil => rfl
    | cons c cs ih =>
      have rest := ih fun d member => letters d (by simp [member])
      have other : foldCase q ≠ foldCase c := fun same => by
        have word := wordCharacter_of_fold same (letters c (by simp))
        rw [quote_not_word (nameQuote_quote known)] at word
        cases word
      exact (Bool.and_eq_true ..).mpr ⟨by simpa [avoids] using other, rest⟩
  exact each word.toList capital.inside

theorem wordThen_avoids {q : Char} (known : q ∈ nameQuotes) {word : String}
    (capital : IsCapitalWord word) {parts : List Pattern}
    (rest : (Pattern.sequence parts).avoids q = true) : (wordThen word parts).avoids q = true := by
  have letters := anyCase_avoids known capital
  exact (Bool.and_eq_true ..).mpr ⟨rfl, (Bool.and_eq_true ..).mpr ⟨letters, rest⟩⟩

theorem capitalName_upper {name : String} (capital : isCapitalName name = true) :
    ∃ d w, name.toList = d :: w ∧ d.isUpper = true := by
  simp only [isCapitalName, Bool.and_eq_true] at capital
  cases split : name.toList with
  | nil => simp [split] at capital
  | cons d w => exact ⟨d, w, rfl, by simpa [split] using capital.1.1⟩

theorem capitalName_capital {name : String} (capital : isCapitalName name = true) :
    IsCapitalWord name := by
  simp only [isCapitalName, Bool.and_eq_true] at capital
  refine ⟨?_, fun c member => List.all_eq_true.mp capital.1.2 c member⟩
  intro empty
  simp [empty] at capital

theorem rename_seeking {source target : String} (renameable : Renameable source)
    (capital : isCapitalName target = true) :
    ∃ p write, (TextRule.renameRule source target).run
      = outsideLiterals (p.replaceAll write) ∧ Seeking p write [source] true := by
  obtain ⟨d, w, begins, upper⟩ := capitalName_upper capital
  have seeking : ∀ (parts : List Pattern) (text : List Char), (∀ q ∈ nameQuotes,
      (Pattern.sequence (TextRule.blanks :: .char '(' :: parts)).avoids q = true) →
      Seeking (wordThen source (TextRule.blanks :: .char '(' :: parts)) (fun _ => target.toList ++ text)
        [source] true := by
    intro parts text rest
    exact
      { begins := call_begins renameable parts
        writes := fun _ => ⟨d, w ++ text, by rw [begins]; rfl, upper⟩
        fails := fun inert => call_fails renameable inert.letters inert.ended
          (inert.uncalled rfl)
        avoids := fun q known => wordThen_avoids known renameable.capital (rest q known) }
  cases niladic : isNiladic target with
  | false => exact ⟨_, _, renameRule_called niladic, seeking [] ['('] (nameQuotes_both rfl rfl)⟩
  | true =>
    refine ⟨_, _, renameRule_bare niladic, ?_⟩
    have bare := seeking [TextRule.blanks, .char ')'] [] (nameQuotes_both rfl rfl)
    simpa using bare

theorem wordCharacter_of_digit {c : Char} (digit : isPatternDigit c = true) :
    isWordCharacter c = true := by
  simp only [isPatternDigit, Bool.and_eq_true] at digit
  simp [isWordCharacter, digit.1, digit.2]

theorem solid_of_digit {c : Char} (digit : isPatternDigit c = true) : isBlank c = false := by
  cases blank : isBlank c with
  | false => rfl
  | true => exact (not_wordCharacter_of_blank blank).symm.trans (wordCharacter_of_digit digit) |>.symm

theorem counted_fails {word : String} (capital : IsCapitalWord word) (listed : word ∈ ["LIMIT", "OFFSET"])
    {part : Nat} {parts : List Pattern} {calls : Bool} {k s : List Char} (inert : Inert calls k s)
    {before : Option Char} {groups : List (Nat × List Char)} {x : Cursor} :
    x ∉ (wordThen word (TextRule.gap :: TextRule.number part :: parts)).ends
      ⟨before, k ++ leadingCode s, groups⟩ := by
  intro found
  obtain ⟨same, cursor, rest, later⟩ := wordThen_ends capital (TextRule.ends_gap _) inert.letters
    (leadingCode_ended inert.ended) found
  obtain ⟨g, d, r, blank, digit, split⟩ := TextRule.mem_number later
  obtain ⟨t, whole⟩ := leadingCode_split (rest.symm.trans split)
  have solid := solid_of_digit digit
  have none := inert.uncounted word listed same d (by
    rw [whole, List.dropWhile_append_of_pos blank, List.dropWhile_cons_of_neg (by simp [solid])]
    rfl)
  rw [none] at digit
  cases digit

theorem limit_seeking {parts : List Pattern} {write : Match → List Char}
    (writes : ∀ m, ∃ d w, write m = d :: w ∧ d.isUpper = true)
    (rest : ∀ q ∈ nameQuotes,
      (Pattern.sequence (TextRule.gap :: TextRule.number 1 :: parts)).avoids q = true) :
    Seeking (wordThen "LIMIT" (TextRule.gap :: TextRule.number 1 :: parts)) write ["LIMIT"]
      false where
  begins := limit_begins _
  writes := writes
  fails inert := matchAt_none fun _ => counted_fails limit_capital (by simp) inert
  avoids q known := wordThen_avoids known limit_capital (rest q known)

theorem fetch_seeking :
    Seeking TextRule.fetchFirst TextRule.fetchAsLimit ["OFFSET", "FETCH"] false where
  begins := fetch_begins
  writes m := by
    rw [TextRule.fetchAsLimit]
    split
    · exact ⟨'L', _, rfl, rfl⟩
    · exact ⟨'L', _, rfl, rfl⟩
  fails {k s} inert := by
    refine matchAt_none fun x found => ?_
    rw [fetchFirst_ends] at found
    rcases List.mem_append.mp found with found | found
    · obtain ⟨y, first, _⟩ := List.mem_flatMap.mp found
      exact counted_fails offset_capital (by simp) inert first
    · obtain ⟨same, _⟩ := wordThen_ends fetch_capital (TextRule.ends_gap _) inert.letters
        (leadingCode_ended inert.ended) found
      exact inert.other "FETCH" (by simp) same
  avoids := nameQuotes_both rfl rfl

theorem ilike_seeking :
    Seeking (wordThen "ILIKE" [.boundary]) (fun _ => "LIKE".toList) ["ILIKE"] false where
  begins := ilike_begins
  writes _ := ⟨'L', _, rfl, rfl⟩
  fails inert := by
    refine no_match_word ilike_begins inert.letters (leadingCode_ended inert.ended)
      (fun word listed => ?_) none
    obtain rfl := List.mem_singleton.mp listed
    exact inert.other "ILIKE" (by simp)
  avoids := nameQuotes_both rfl rfl

theorem inTurn_listed {table : List FunctionMapping} (turns : inTurn table = true)
    {mapping : FunctionMapping} (listed : mapping ∈ table) :
    Renameable mapping.source ∧ ∀ target, mapping.action.target? = some target →
      isCapitalName target = true := by
  induction table with
  | nil => cases listed
  | cons first table ih =>
    simp only [inTurn, Bool.and_eq_true] at turns
    rcases List.mem_cons.mp listed with rfl | listed
    · refine ⟨renameable_of_check turns.1.1.1, fun target found => ?_⟩
      have capital := turns.1.1.2
      rwa [found] at capital
    · exact ih turns.2 listed

def limitWords : List String := ["LIMIT", "OFFSET", "FETCH", "ILIKE"]

def rowWords : List String := ["LIMIT", "OFFSET", "FETCH"]

theorem rowLimit_seeking {pair : Pair} {rule : TextRule} (listed : rule ∈ TextRule.rowLimits pair) :
    ∃ p write starts, rule.run = outsideLiterals (p.replaceAll write)
      ∧ Seeking p write starts false ∧ ∀ start ∈ starts, start ∈ rowWords := by
  rcases List.mem_append.mp listed with listed | listed
  · split at listed
    · obtain rfl := List.mem_singleton.mp listed
      cases pair.target.rowLimit with
      | limit =>
        exact ⟨_, _, _, rfl, limit_seeking (fun _ => ⟨'L', _, rfl, rfl⟩) (nameQuotes_both rfl rfl),
          by decide⟩
      | fetchFirst =>
        exact ⟨_, _, _, rfl, limit_seeking (fun _ => ⟨'O', _, rfl, rfl⟩) (nameQuotes_both rfl rfl),
          by decide⟩
    · cases listed
  · split at listed
    · rcases List.mem_pair.mp listed with rfl | rfl
      · exact ⟨_, _, _, rfl, limit_seeking (fun _ => ⟨'O', _, rfl, rfl⟩) (nameQuotes_both rfl rfl),
          by decide⟩
      · exact ⟨_, _, _, rfl, limit_seeking (fun _ => ⟨'F', _, rfl, rfl⟩) (nameQuotes_both rfl rfl),
          by decide⟩
    · split at listed
      · obtain rfl := List.mem_singleton.mp listed
        exact ⟨_, _, _, rfl, fetch_seeking, by decide⟩
      · cases listed
    · cases listed

theorem operator_seeking {pair : Pair} {rule : TextRule} (listed : rule ∈ TextRule.operators pair) :
    ∃ p write, rule.run = outsideLiterals (p.replaceAll write)
      ∧ Seeking p write ["ILIKE"] false := by
  rw [TextRule.operators] at listed
  split at listed
  · obtain rfl := List.mem_singleton.mp listed
    exact ⟨_, _, rfl, ilike_seeking⟩
  · cases listed

/-! Quotes. -/

section Requoting

variable {source target : Char}

variable (known : source ∈ nameQuotes) (also : target ∈ nameQuotes)
include known

omit known in
theorem requote_plain {w : List Char} (plain : ∀ c ∈ w, c ≠ '\x27' ∧ c ≠ source) (s : List Char) :
    (requote source target (w ++ s)).1 = w ++ (requote source target s).1 :=
  congrArg Prod.fst (requoteFrom_plain plain s)

theorem requote_word {w : List Char} (letters : IsPatternWord w) (s : List Char) :
    (requote source target (w ++ s)).1 = w ++ (requote source target s).1 := by
  refine requote_plain (fun c member => ⟨word_code letters c member, ?_⟩) s
  rintro rfl
  have word := letters.inside _ member
  rw [quote_not_word (nameQuote_quote known)] at word
  cases word

include also in
theorem requote_steps (starts : List String) (calls : Bool) :
    Steps (fun s => (requote source target s).1) starts calls where
  nil := rfl
  mark {c} mark unquoted s := by
    refine requote_plain (w := [c]) (fun d member => ?_) s
    obtain rfl := List.mem_singleton.mp member
    constructor
    · rintro rfl
      cases unquoted
    · rintro rfl
      rw [nameQuote_quote known] at unquoted
      cases unquoted
  letter {c} word s := by
    have single : IsPatternWord [c] := ⟨by simp, by simpa using word⟩
    exact ⟨c, _, requote_word known single s, .inl rfl⟩
  quote {q} quote s := by
    by_cases apostrophe : q = '\x27'
    · subst apostrophe
      exact ⟨_, _, rfl, .inl rfl⟩
    by_cases same : q = source
    · obtain ⟨d, w, written, kind⟩ := @requoteFrom_name_head source target [] s
      refine ⟨d, w, ?_, .inr ⟨same ▸ known, ?_⟩⟩
      · rw [requote, requoteFrom_code_cons, if_neg apostrophe, if_pos same]
        exact written
      · rcases kind with rfl | rfl
        · exact known
        · exact also
    · exact ⟨q, _, requote_plain (w := [q]) (by simpa using ⟨apostrophe, same⟩) s, .inl rfl⟩
  literal := requoteFrom_literal
  other letters _ _ := requote_word known letters _
  inert inert := requote_word known inert.letters _

theorem requote_name {q : Char} (quoted : q ∈ nameQuotes) {body : List Char} (code : '\x27' ∉ body)
    (foreign : q = source ∨ source ∉ body) {s : List Char} (closed : s.head? ≠ some q) :
    (requote source target (enclose q body ++ s)).1
      = enclose (if q = source then target else q) body ++ (requote source target s).1 := by
  by_cases same : q = source
  · subst same
    have other : q ≠ '\x27' := by
      rintro rfl
      rcases List.mem_pair.mp quoted with wrong | wrong <;> cases wrong
    rw [if_pos rfl, requote, requoteFrom_enclosed other body closed]
    rfl
  · rw [if_neg same]
    refine requote_plain (fun c member => ?_) s
    rcases mem_enclose member with rfl | member
    · refine ⟨?_, same⟩
      rintro rfl
      rcases List.mem_pair.mp quoted with wrong | wrong <;> cases wrong
    · constructor
      · rintro rfl
        exact code member
      · rintro rfl
        exact (foreign.resolve_left same) member

end Requoting

theorem quote_nameQuote (dialect : Dialect) : dialect.quote ∈ nameQuotes := by
  cases dialect <;> decide

theorem rowLimits_steps (pair : Pair) :
    Steps (fun s => TextRule.runAll (TextRule.rowLimits pair) s) rowWords false := by
  refine Steps.runAll fun rule listed => ?_
  obtain ⟨p, write, starts, run, seeking, known⟩ := rowLimit_seeking listed
  rw [run]
  exact seeking.steps.more known

theorem quotes_steps (pair : Pair) (starts : List String) (calls : Bool) :
    Steps (fun s => TextRule.runAll (TextRule.quotes pair) s) starts calls := by
  refine Steps.runAll fun rule listed => ?_
  rw [TextRule.quotes] at listed
  split at listed
  · cases listed
  · obtain rfl := List.mem_singleton.mp listed
    exact requote_steps (quote_nameQuote pair.source) (quote_nameQuote pair.target) _ _

theorem operators_steps (pair : Pair) :
    Steps (fun s => TextRule.runAll (TextRule.operators pair) s) ["ILIKE"] false := by
  refine Steps.runAll fun rule listed => ?_
  obtain ⟨p, write, run, seeking⟩ := operator_seeking listed
  rw [run]
  exact seeking.steps

def Pair.finished (pair : Pair) (s : List Char) : List Char :=
  TextRule.runAll (TextRule.rowLimits pair ++ (TextRule.quotes pair ++ TextRule.operators pair)) s

theorem finished_eq (pair : Pair) (s : List Char) : pair.finished s
    = TextRule.runAll (TextRule.operators pair) (TextRule.runAll (TextRule.quotes pair)
      (TextRule.runAll (TextRule.rowLimits pair) s)) := by
  rw [Pair.finished, TextRule.runAll_append, TextRule.runAll_append]

theorem finished_steps (pair : Pair) : Steps pair.finished limitWords false := by
  have rows : Steps _ limitWords false := (rowLimits_steps pair).more (by decide)
  have operators : Steps _ limitWords false := (operators_steps pair).more (by decide)
  rw [funext (finished_eq pair)]
  exact (rows.comp (quotes_steps pair _ _)).comp operators

/-! The rules of a pair together. -/

def renamedBy (table : List FunctionMapping) (s : List Char) : List Char :=
  TextRule.runAll (table.filterMap fun mapping =>
    mapping.action.target?.map (TextRule.renameRule mapping.source)) s

theorem renamedBy_cons (mapping : FunctionMapping) (table : List FunctionMapping) (s : List Char) :
    renamedBy (mapping :: table) s = match mapping.action.target? with
      | some target => renamedBy table ((TextRule.renameRule mapping.source target).run s)
      | none => renamedBy table s := by
  rw [renamedBy, List.filterMap_cons]
  cases mapping.action.target? with
  | none => rfl
  | some target => exact TextRule.runAll_cons _ _ s

theorem rename_steps {source target : String} (renameable : Renameable source)
    (capital : isCapitalName target = true) :
    Steps (TextRule.renameRule source target).run [source] true := by
  obtain ⟨p, write, run, seeking⟩ := rename_seeking renameable capital
  rw [run]
  exact seeking.steps

theorem renamedBy_steps {table : List FunctionMapping} (turns : inTurn table = true) :
    Steps (renamedBy table) (table.map (·.source)) true := by
  refine Steps.runAll fun rule listed => ?_
  obtain ⟨mapping, member, made⟩ := List.mem_filterMap.mp listed
  obtain ⟨target, found, rfl⟩ := Option.map_eq_some_iff.mp made
  obtain ⟨renameable, capital⟩ := inTurn_listed turns member
  refine (rename_steps renameable (capital target found)).more fun start single => ?_
  rw [List.mem_singleton.mp single]
  exact List.mem_map_of_mem member

namespace Pair

def converted (pair : Pair) (s : List Char) : List Char :=
  TextRule.runAll (TextRule.pipeline pair) s

def ruleWords (pair : Pair) : List String :=
  (FunctionMapping.table pair).map (·.source) ++ limitWords

end Pair

section Pair

variable {pair : Pair} (source : pair.source = .mysql ∨ pair.source = .postgresql)
  (different : pair.target ≠ pair.source)
include source different

theorem converted_eq (s : List Char) :
    pair.converted s = pair.finished (renamedBy (FunctionMapping.table pair) s) := by
  rw [Pair.converted, pipeline_rules source different, TextRule.runAll_append]
  rfl

theorem converted_steps : Steps pair.converted pair.ruleWords true := by
  have first : Steps (renamedBy (FunctionMapping.table pair)) pair.ruleWords true :=
    (renamedBy_steps (table_inTurn source)).more fun start listed => List.mem_append_left _ listed
  have second : Steps pair.finished pair.ruleWords true :=
    (finished_steps pair).called.more fun start listed => List.mem_append_right _ listed
  rw [funext (converted_eq source different)]
  exact first.comp second

end Pair

end SqlDialects
