import SqlDialects.Proofs.Rules.Orderly

/-
What becomes of a call. The renames of a table go one after the other, and each looks at the last word
in front of a parenthesis; the first one that looks for this word settles the matter, as later ones
look neither for the word nor for what is put in its place.
-/
namespace SqlDialects

open Text Pattern Reader Change

/-- What a change makes of a call whose name ends with the word `v` and whose arguments begin the text
`s`. The call gets the name that the table has for the word. It loses its parentheses if that name is
written without, and it is kept if it then has arguments to lose. -/
inductive Called (table : List FunctionMapping) (f : List Char → List Char) (front v g s w : List Char) :
    Prop
  | renamed {mapping : FunctionMapping} {target : String} (listed : mapping ∈ table)
      (found : mapping.action.target? = some target) (same : Same v mapping.source)
      (called : isNiladic target = false) (text : w = front ++ (target.toList ++ '(' :: f s))
  | dropped {mapping : FunctionMapping} {target : String} {h rest : List Char} (listed : mapping ∈ table)
      (found : mapping.action.target? = some target) (same : Same v mapping.source)
      (bare : isNiladic target = true) (blank : ∀ c ∈ h, isBlank c = true) (closed : s = h ++ ')' :: rest)
      (text : w = front ++ (target.toList ++ f rest))
  | kept (others : ∀ mapping ∈ table, ∀ target, mapping.action.target? = some target →
        Same v mapping.source → isNiladic target = true ∧ Unclosed s)
      (text : w = front ++ (v ++ (g ++ '(' :: f s)))

def ClosesApart (s : List Char) : Prop :=
  ∀ h rest, (∀ c ∈ h, isBlank c = true) → s = h ++ ')' :: rest → EndsRun rest

theorem closed_of_not_unclosed {s : List Char} (closed : ¬ Unclosed s) :
    ∃ h rest, (∀ c ∈ h, isBlank c = true) ∧ s = h ++ ')' :: rest := by
  obtain ⟨rest, split⟩ := List.head?_eq_some_iff.mp (not_not.mp closed)
  refine ⟨s.takeWhile isBlank, rest, fun c member => List.mem_takeWhile_imp member, ?_⟩
  rw [← split, List.takeWhile_append_dropWhile]

section Steps

variable {f : List Char → List Char} {starts : List String} {calls : Bool}
  (steps : Steps f starts calls)
include steps

theorem Steps.opening {g : List Char} (blank : ∀ c ∈ g, isBlank c = true) (s : List Char) :
    f (g ++ '(' :: s) = g ++ '(' :: f s := by
  rw [steps.blanks blank, steps.mark rfl rfl]

theorem Steps.closing {s h r : List Char} (blank : ∀ c ∈ h, isBlank c = true)
    (closed : f s = h ++ ')' :: r) : ∃ rest, s = h ++ ')' :: rest ∧ r = f rest := by
  have behind : f (s.dropWhile isBlank) = ')' :: r := by
    rw [← steps.dropBlanks, closed, List.dropWhile_append_of_pos blank]
    rfl
  obtain ⟨rest, first⟩ := List.head?_eq_some_iff.mp
    (steps.head_mark (by rw [behind]; rfl) rfl (by decide))
  rw [first, steps.mark rfl rfl] at behind
  have split := List.takeWhile_append_dropWhile (p := isBlank) (l := s)
  have later : r = f rest := (List.cons.inj behind).2.symm
  have whole : f s = s.takeWhile isBlank ++ ')' :: r := by
    conv_lhs => rw [← split, first]
    rw [steps.blanks fun c member => List.mem_takeWhile_imp member, steps.mark rfl rfl, later]
  refine ⟨rest, ?_, later⟩
  rw [List.append_cancel_right (closed.symm.trans whole), ← first, split]

theorem Steps.closesApart {s : List Char} (apart : ClosesApart s) : ClosesApart (f s) := by
  intro h r blank closed
  obtain ⟨rest, split, rfl⟩ := steps.closing blank closed
  exact steps.endsRun (apart h rest blank split)

theorem Steps.unclosed {s : List Char} (unclosed : Unclosed (f s)) : Unclosed s := by
  intro closed
  obtain ⟨rest, split⟩ := List.head?_eq_some_iff.mp closed
  refine unclosed ?_
  rw [steps.dropBlanks, split, steps.mark rfl rfl]
  rfl

end Steps

theorem same_unique {v : List Char} {one other : String} (capital : IsCapitalWord one)
    (also : IsCapitalWord other) (same : Same v one) (again : Same v other) : one = other := by
  have equal : Same one.toList other := same.symm.trans again
  have upper := (same_iff capital.run also).mp equal
  rwa [Text.upper, capital.upper, String.ofList_toList] at upper

/-! Renames. -/

section Table

variable {table : List FunctionMapping}

theorem target_passed (turns : inTurn table = true) {target : String}
    (capital : isCapitalName target = true)
    (apart : ∀ later ∈ table, later.source ≠ Text.upper target) {s : List Char} (ended : EndsRun s) :
    renamedBy table (target.toList ++ s) = target.toList ++ renamedBy table s := by
  have word := capitalName_capital capital
  refine (renamedBy_steps turns).other word.run.word ended fun start listed same => ?_
  obtain ⟨later, member, rfl⟩ := List.mem_map.mp listed
  exact apart later member
    ((same_iff word.run (inTurn_listed turns member).1.capital).mp same).symm

theorem Called.behind {f rule : List Char → List Char} {starts : List String} {calls : Bool}
    (steps : Steps rule starts calls) {mapping : FunctionMapping} {front v g s w : List Char}
    (called : Called table f front v g (rule s) w)
    (other : ∀ target, mapping.action.target? = some target → ¬ Same v mapping.source) :
    Called (mapping :: table) (fun s => f (rule s)) front v g s w := by
  cases called with
  | renamed listed found same called text => exact .renamed (.tail _ listed) found same called text
  | dropped listed found same bare blank closed text =>
    obtain ⟨rest, split, rfl⟩ := steps.closing blank closed
    exact .dropped (.tail _ listed) found same bare blank split text
  | kept others text =>
    refine .kept (fun later listed target found same => ?_) text
    rcases List.mem_cons.mp listed with rfl | listed
    · exact absurd same (other target found)
    · exact (others later listed target found same).imp id steps.unclosed

theorem renamedBy_first {mapping : FunctionMapping} (turns : inTurn (mapping :: table) = true)
    {target : String} (found : mapping.action.target? = some target) {v g s : List Char}
    (letters : IsPatternWord v) (same : Same v mapping.source) (blank : ∀ c ∈ g, isBlank c = true)
    (apart : ClosesApart s) :
    Called (mapping :: table) (renamedBy (mapping :: table)) [] v g s
      (renamedBy (mapping :: table) (v ++ (g ++ '(' :: s))) := by
  obtain ⟨renameable, capitals⟩ := inTurn_listed turns List.mem_cons_self
  have capital := capitals target found
  simp only [inTurn, Bool.and_eq_true] at turns
  obtain ⟨⟨_, distinct⟩, later⟩ := turns
  have distinct : ∀ other ∈ table, other.source ≠ mapping.source ∧ other.source ≠ Text.upper target := by
    simpa [found] using List.all_eq_true.mp distinct
  have unmet := fun other listed => (distinct other listed).2
  have unlike : ∀ other ∈ table, ¬ Same v other.source := fun other listed again =>
    (distinct other listed).1
      (same_unique (inTurn_listed later listed).1.capital renameable.capital again same)
  have steps := renamedBy_steps later
  have rule := rename_steps renameable capital
  have text : renamedBy (mapping :: table)
      = fun s => renamedBy table ((TextRule.renameRule mapping.source target).run s) :=
    funext fun s => by rw [renamedBy_cons, found]
  rw [text]
  beta_reduce
  cases niladic : isNiladic target with
  | false =>
    refine .renamed List.mem_cons_self found same niladic ?_
    rw [call_renamed renameable letters same blank niladic,
      target_passed later capital unmet (endsRun_cons rfl _), steps.mark rfl rfl]
    rfl
  | true =>
    by_cases unclosed : Unclosed s
    · refine .kept (fun other listed new new_found again => ?_) ?_
      · rcases List.mem_cons.mp listed with rfl | listed
        · cases found.symm.trans new_found
          exact ⟨niladic, unclosed⟩
        · exact absurd again (unlike other listed)
      · have passed : ∀ start ∈ table.map (·.source), ¬ Same v start := by
          intro start listed
          obtain ⟨other, member, rfl⟩ := List.mem_map.mp listed
          exact unlike other member
        rw [call_filled renameable letters blank niladic unclosed, rule.opening blank,
          steps.other letters (endsRun_blanks blank rfl _) passed, steps.opening blank]
        rfl
    · obtain ⟨h, rest, blanks, rfl⟩ := closed_of_not_unclosed unclosed
      refine .dropped List.mem_cons_self found same niladic blanks rfl ?_
      rw [call_dropped renameable letters same blank niladic blanks,
        target_passed later capital unmet (rule.endsRun (apart h rest blanks rfl))]
      rfl

theorem renamedBy_called (turns : inTurn table = true) {v g s : List Char} (letters : IsPatternWord v)
    (blank : ∀ c ∈ g, isBlank c = true) (apart : ClosesApart s) :
    Called table (renamedBy table) [] v g s (renamedBy table (v ++ (g ++ '(' :: s))) := by
  induction table generalizing s with
  | nil => exact .kept nofun rfl
  | cons mapping table ih =>
    obtain ⟨renameable, capital⟩ := inTurn_listed turns List.mem_cons_self
    have later : inTurn table = true := by
      simp only [inTurn, Bool.and_eq_true] at turns
      exact turns.2
    cases found : mapping.action.target? with
    | none =>
      have same : renamedBy (mapping :: table) = fun s => renamedBy table s :=
        funext fun s => by rw [renamedBy_cons, found]
      rw [same]
      exact (ih later apart).behind (@Steps.id [] true) fun target some => by
        rw [found] at some
        cases some
    | some target =>
      by_cases same : Same v mapping.source
      · exact renamedBy_first turns found letters same blank apart
      · have rule := rename_steps renameable (capital target found)
        have text : renamedBy (mapping :: table)
            = fun s => renamedBy table ((TextRule.renameRule mapping.source target).run s) :=
          funext fun s => by rw [renamedBy_cons, found]
        have passed : (TextRule.renameRule mapping.source target).run (v ++ (g ++ '(' :: s))
            = v ++ (g ++ '(' :: (TextRule.renameRule mapping.source target).run s) := by
          rw [rule.other letters (endsRun_blanks blank rfl s) (by simpa using same),
            rule.opening blank]
        rw [text]
        beta_reduce
        rw [passed]
        exact (ih later (rule.closesApart apart)).behind rule fun _ _ => same

end Table

/-! All rules of a pair. -/

section Pair

variable {pair : Pair} (source : pair.source = .mysql ∨ pair.source = .postgresql)
  (different : pair.target ≠ pair.source)

include source in
theorem target_finished {mapping : FunctionMapping} (listed : mapping ∈ FunctionMapping.table pair)
    {target : String} (found : mapping.action.target? = some target) {s : List Char}
    (ended : EndsRun s) :
    pair.finished (target.toList ++ s) = target.toList ++ pair.finished s := by
  have apart : (FunctionMapping.table pair).all (fun mapping => mapping.action.target?.all
      fun target => !limitWords.contains (Text.upper target)) = true := by
    obtain ⟨first, second⟩ := pair
    cases first <;> cases second <;> decide +kernel
  have unlike : Text.upper target ∉ limitWords := by
    simpa [found] using List.all_eq_true.mp apart mapping listed
  have word := capitalName_capital ((inTurn_listed (table_inTurn source) listed).2 target found)
  refine (finished_steps pair).other word.run.word ended fun start member same => ?_
  have capital := ruleWord_capital source (List.mem_append_right _ member)
  rw [(same_iff word.run capital).mp same] at unlike
  exact unlike member

include source different

/-- The rules of a pair make of a call what its table says of the last word of its name. -/
theorem converted_called {k g s : List Char} (inside : ∀ c ∈ k, isNameCharacter c = true)
    (free : ∀ v ∈ patternWords k, looksStray v = false) (blank : ∀ c ∈ g, isBlank c = true)
    (apart : ClosesApart s) :
    ∃ front, k = front ++ lastWord k ∧ Called (FunctionMapping.table pair) pair.converted front
      (lastWord k) g s (pair.converted (k ++ (g ++ '(' :: s))) := by
  have steps := converted_steps source different
  obtain ⟨front, whole, letters, unlike, passed⟩ := passes_front steps inside free
  refine ⟨front, whole, ?_⟩
  generalize lastWord k = v at whole letters unlike ⊢
  subst whole
  rw [List.append_assoc, passed]
  by_cases empty : v = []
  · subst empty
    refine .kept (fun mapping listed target found same => ?_) ?_
    · have capital := (inTurn_listed (table_inTurn source) listed).1.capital
      exact absurd rfl (same_word capital same).1
    · rw [List.nil_append, steps.opening blank]
      rfl
  have finish := finished_steps pair
  have called := renamedBy_called (table_inTurn source) ⟨empty, letters⟩ blank apart
  have whole := converted_eq source different
  rw [whole (v ++ (g ++ '(' :: s))]
  generalize renamedBy (FunctionMapping.table pair) (v ++ (g ++ '(' :: s)) = w at called
  cases called with
  | renamed listed found same called text =>
    refine .renamed listed found same called ?_
    rw [text, List.nil_append, target_finished source listed found (endsRun_cons rfl _),
      finish.mark rfl rfl, whole s]
  | @dropped mapping target h rest listed found same bare blank closed text =>
    refine .dropped listed found same bare blank closed ?_
    have ended := (renamedBy_steps (table_inTurn source)).endsRun (apart h rest blank closed)
    rw [text, List.nil_append, target_finished source listed found ended, whole rest]
  | kept others text =>
    refine .kept others ?_
    have inert : Inert false v (g ++ '(' :: renamedBy (FunctionMapping.table pair) s) :=
      { letters := ⟨empty, letters⟩
        ended := endsRun_blanks blank rfl _
        uncalled := nofun
        other := looksStray_iff.mp unlike
        uncounted := by
          intro word listed same c first
          rw [List.dropWhile_append_of_pos blank] at first
          cases first
          rfl }
    rw [text, List.nil_append, finish.inert inert, finish.opening blank, whole s]

end Pair

end SqlDialects
