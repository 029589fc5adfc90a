import SqlDialects.Proofs.Canonical.Names
import SqlDialects.Proofs.Conversion.Options
import SqlDialects.Proofs.Conversion.TreePath
import SqlDialects.Proofs.Rules.RegisteredRules

/-
The record of applied rules is complete: where no rule is recorded, nothing was rewritten. Each part
of a conversion is shown to leave its part of the statement alone unless it records a rule.
-/
namespace SqlDialects

open Reader

/-! Notes without a rule. -/

def Silent (notes : List Note) : Prop := ∀ label, Note.rule label ∉ notes

theorem silent_append {first second : List Note} :
    Silent (first ++ second) ↔ Silent first ∧ Silent second := by
  simp [Silent, not_or, forall_and]

theorem silent_of_labels {options : Options} {notes : List Note}
    (nothing : Note.labels options notes = []) : Silent notes := by
  intro label member
  have listed : label ∈ Note.labels options notes := List.mem_filterMap.mpr ⟨_, member, rfl⟩
  rw [nothing] at listed
  cases listed

theorem Silent.tail {note : Note} {notes : List Note} (silent : Silent (note :: notes)) :
    Silent notes :=
  fun label member => silent label (List.mem_cons_of_mem _ member)

theorem not_silent_rule (label : String) (notes : List Note) : ¬ Silent (.rule label :: notes) :=
  fun silent => silent label List.mem_cons_self

/-! The row limit. -/

theorem Page.adaptLoneOffset_silent {target : Dialect} {page : Page} {offset : UInt64}
    (silent : Silent (page.adaptLoneOffset target offset).2) :
    (page.adaptLoneOffset target offset).1 = page := by
  have spelled : page.offsetRows = (target.rowLimit == .fetchFirst) := by
    by_contra other
    have unlike : (page.offsetRows == (target.rowLimit == .fetchFirst)) = false := by
      simpa using other
    have spelling := (silent_append.mp silent).1
    simp only [unlike, Bool.false_eq_true, ↓reduceIte] at spelling
    split at spelling <;> exact not_silent_rule _ _ spelling
  rw [adaptLoneOffset, ← spelled]

theorem Page.adaptCount_silent {target : Dialect} {page : Page}
    (silent : Silent (page.adaptCount target).2) : (page.adaptCount target).1 = page := by
  rw [adaptCount] at silent ⊢
  cases form : target.rowLimit with
  | limit =>
    cases found : page.fetch with
    | some n =>
      simp only [form, found] at silent
      exact absurd silent (not_silent_rule _ _)
    | none => rfl
  | fetchFirst =>
    cases found : page.limit with
    | some n =>
      simp only [form, found] at silent
      exact absurd silent (not_silent_rule _ _)
    | none => rfl

theorem Page.adapted_silent {pair : Pair} {page : Page} (silent : Silent (page.adapted pair).2) :
    (page.adapted pair).1 = page := by
  rw [adapted] at silent ⊢
  split
  · rfl
  · next different =>
    rw [if_neg different] at silent
    split
    · next uncounted =>
      rw [if_pos uncounted] at silent
      cases found : page.offset with
      | none => rfl
      | some offset =>
        simp only [found] at silent
        exact adaptLoneOffset_silent silent.tail
    · next counted =>
      rw [if_neg counted] at silent
      exact adaptCount_silent (silent_append.mp silent).1

/-! Calls. -/

theorem Call.adapted_silent {pair : Pair} {call : Call}
    (silent : Silent (callNotes pair true call.name call.args)) : call.adapted pair = call := by
  rw [Call.adapted]
  rw [callNotes] at silent
  cases found : FunctionMapping.lookup? pair call.name with
  | none => rfl
  | some mapping =>
    simp only [found, Option.map_some] at silent
    simp only [Option.bind_some]
    cases action : mapping.action with
    | rename target | approximate target note =>
      simp only [action] at silent
      simp only [FunctionAction.target?]
      split
      · rfl
      · next kept =>
        rw [if_neg kept] at silent
        exact absurd silent (not_silent_rule _ _)
    | unsupported suggestion => rfl
    | native => rfl

def Expr.CallsSilent (pair : Pair) (visited : List Expr) : Prop :=
  ∀ name args distinct bare, Expr.call name args distinct bare ∈ visited →
    Silent (callNotes pair true name args)

theorem Expr.CallsSilent.tail {pair : Pair} {e : Expr} {visited : List Expr}
    (silent : CallsSilent pair (e :: visited)) : CallsSilent pair visited :=
  fun name args distinct bare member =>
    silent name args distinct bare (List.mem_cons_of_mem _ member)

theorem Expr.CallsSilent.left {pair : Pair} {first second : List Expr}
    (silent : CallsSilent pair (first ++ second)) : CallsSilent pair first :=
  fun name args distinct bare member =>
    silent name args distinct bare (List.mem_append_left _ member)

theorem Expr.CallsSilent.right {pair : Pair} {first second : List Expr}
    (silent : CallsSilent pair (first ++ second)) : CallsSilent pair second :=
  fun name args distinct bare member =>
    silent name args distinct bare (List.mem_append_right _ member)

mutual

theorem Expr.adaptCalls_silent {pair : Pair} (e : Expr) (silent : CallsSilent pair e.visited) :
    e.adaptCalls pair = e := by
  cases e with
  | call name args distinct bare =>
    rw [Expr.visited] at silent
    have own : Call.adapted pair ⟨name, args, distinct, bare⟩ = ⟨name, args, distinct, bare⟩ :=
      Call.adapted_silent (silent name args distinct bare List.mem_cons_self)
    rw [Expr.adaptCalls, own, Expr.listAdaptCalls_silent args silent.tail]
  | binary left op right =>
    rw [Expr.visited] at silent
    rw [Expr.adaptCalls, Expr.adaptCalls_silent left silent.left,
      Expr.adaptCalls_silent right silent.right]
  | _ => rfl

theorem Expr.listAdaptCalls_silent {pair : Pair} (es : List Expr)
    (silent : CallsSilent pair (Expr.listVisited es)) : Expr.listAdaptCalls pair es = es := by
  cases es with
  | nil => rfl
  | cons e es =>
    rw [Expr.listVisited] at silent
    rw [Expr.listAdaptCalls, Expr.adaptCalls_silent e silent.left,
      Expr.listAdaptCalls_silent es silent.right]

end

theorem Select.adaptCalls_silent {pair : Pair} {select : Select}
    (silent : Silent (select.callNotes pair true)) : select.adaptCalls pair = select := by
  have calls : Expr.CallsSilent pair select.visited := by
    intro name args distinct bare member label listed
    exact silent label (List.mem_flatMap.mpr ⟨_, member, listed⟩)
  rw [Select.visited] at calls
  have items : select.items.map (fun item => { item with expr := item.expr.adaptCalls pair })
      = select.items := by
    refine (List.map_congr_left fun item member => ?_).trans (List.map_id _)
    have own := Expr.adaptCalls_silent item.expr fun name args distinct bare found =>
      calls.left name args distinct bare (List.mem_flatMap.mpr ⟨item, member, found⟩)
    rw [own]
    rfl
  have filter : select.filter.map (Expr.adaptCalls pair) = select.filter := by
    cases found : select.filter with
    | none => rfl
    | some condition =>
      have later := calls.right
      rw [found] at later
      exact congrArg some (Expr.adaptCalls_silent condition later)
  rw [Select.adaptCalls, items, filter]

/-! Quoted names. -/

theorem part_unquoted {name : String} (part : IsPart name) {target : Char} {rest : List Char}
    (closed : rest.head? ≠ some '"')
    (none : (Text.requoteFrom '"' target .code (name.toList ++ rest)).2 = 0) :
    (Text.requoteFrom '"' target .code (name.toList ++ rest)).1
        = name.toList ++ (Text.requoteFrom '"' target .code rest).1
      ∧ (Text.requoteFrom '"' target .code rest).2 = 0 := by
  rcases isPart_cases part with ⟨body, quoted⟩ | ⟨shape, _⟩
  · rw [quoted, Text.requoteFrom_enclosed (by decide) body closed] at none
    cases none
  · rw [Text.requoteFrom_plain (word_unquoted shape)] at none ⊢
    exact ⟨rfl, none⟩

theorem requotedName_silent {name : String} (isName : IsName name) {quote : Char}
    (none : quotedParts quote name = 0) : requotedName quote name = name := by
  obtain ⟨parts, ⟨nonempty, each⟩, rfl⟩ := isName
  rw [quotedParts, Text.requote] at none
  suffices copied : (Text.requoteFrom '"' quote .code (".".intercalate parts).toList).1
      = (".".intercalate parts).toList by
    rw [requotedName, Text.requote, copied, String.ofList_toList]
  induction parts with
  | nil => exact absurd rfl nonempty
  | cons part parts ih =>
    have first := each part List.mem_cons_self
    cases parts with
    | nil =>
      rw [String.intercalate_singleton] at none ⊢
      rw [← List.append_nil part.toList] at none
      have alone := (@part_unquoted _ first _ [] (by simp) none).1
      simpa [Text.requoteFrom] using alone
    | cons next parts =>
      rw [dotted_cons] at none ⊢
      obtain ⟨copied, later⟩ := part_unquoted first (by simp) none
      have dot : ∀ c ∈ ['.'], c ≠ '\x27' ∧ c ≠ '"' := by simp
      rw [Text.requoteFrom_plain dot] at later copied
      have tail := ih (by simp) (fun found member => each found (List.mem_cons_of_mem _ member)) later
      rw [copied, tail]

theorem Select.requoted_silent {target : Dialect} {select : Select}
    (names : ∀ name ∈ select.names, IsName name) (silent : Silent (select.requoted target).2) :
    (select.requoted target).1 = select := by
  rw [Select.requoted] at silent ⊢
  split
  · rfl
  · next other =>
    rw [if_neg other] at silent
    have zero : (select.names.map (quotedParts target.quote)).foldr Nat.add 0 = 0 := by
      by_contra some
      simp only [some, ↓reduceIte] at silent
      exact not_silent_rule _ _ silent
    refine Select.mapNames_fixed fun name member => requotedName_silent (names name member) ?_
    have sum : (select.names.map (quotedParts target.quote)).sum = 0 := zero
    exact List.sum_eq_zero_iff.mp sum _ (List.mem_map_of_mem member)

/-! Whole statements. -/

theorem convert_applied {pair : Pair} (source : pair.source = .mysql ∨ pair.source = .postgresql)
    (sql : String) (select : Select) : (select.convert pair sql).1
      = String.ofList (TextRule.runAll (TextRule.pipeline pair) sql.toList) := by
  rw [← TextRule.applyAll_text (TextRule.pipeline_steady pair)]
  rcases source with source | source <;> (rw [Select.convert, source]; rfl)

theorem Select.adapted_silent {pair : Pair} {select : Select}
    (names : ∀ name ∈ select.names, IsName name) (silent : Silent (select.adapted pair).2) :
    (select.adapted pair).1 = select := by
  have parts : Silent ((select.page.adapted pair).2
      ++ Select.callNotes pair true { select with page := (select.page.adapted pair).1 }
      ++ (Select.requoted pair.target
        (Select.adaptCalls pair { select with page := (select.page.adapted pair).1 })).2) :=
    (silent_append.mp (silent_append.mp (silent_append.mp silent).1).1).1
  obtain ⟨notes, nameNotes⟩ := silent_append.mp parts
  obtain ⟨pageNotes, callNotes⟩ := silent_append.mp notes
  rw [Page.adapted_silent pageNotes] at callNotes nameNotes
  rw [Select.adaptCalls_silent callNotes] at nameNotes
  change (Select.requoted pair.target
    (Select.adaptCalls pair { select with page := (select.page.adapted pair).1 })).1 = select
  rw [Page.adapted_silent pageNotes, Select.adaptCalls_silent callNotes,
    Select.requoted_silent names nameNotes]

/-- What a statement is before anything is rewritten: Tibero and Oracle write a query anew from its
tree, everything else is the text that was read. -/
def Statement.unrewritten (source : Dialect) (sql : String) : Statement → String
  | .select query => if source = .tibero ∨ source = .oracle then query.toSql else sql
  | .createTable _ | .other => sql

theorem Select.convert_silent {pair : Pair} {sql : String} {select : Select}
    (names : ∀ name ∈ select.names, IsName name) (silent : Silent (select.convert pair sql).2) :
    (select.convert pair sql).1 = (Statement.select select).unrewritten pair.source sql := by
  rw [Select.convert] at silent ⊢
  have tree : Silent (select.adapted pair).2 → (select.convertTree pair).1 = select.toSql :=
    fun silent => congrArg Select.toSql (Select.adapted_silent names silent)
  have text : Silent (select.convertText pair sql).2 → (select.convertText pair sql).1 = sql := by
    intro silent
    obtain ⟨entries, _⟩ := silent_append.mp
      (silent_append.mp (silent_append.mp (silent_append.mp silent).1).1).1
    have nothing : (TextRule.applyAll (TextRule.pipeline pair) sql.toList).2 = [] := by
      refine List.eq_nil_iff_forall_not_mem.mpr fun label member => ?_
      exact entries label (List.mem_map_of_mem member)
    change String.ofList (TextRule.applyAll (TextRule.pipeline pair) sql.toList).1 = sql
    rw [TextRule.applyAll_silent (TextRule.pipeline_steady pair) nothing, String.ofList_toList]
  rw [Statement.unrewritten]
  cases source : pair.source with
  | tibero | oracle =>
    rw [source] at silent
    simpa using tree silent
  | mysql | postgresql =>
    rw [source] at silent
    simpa using text silent

/-- The record of rules is complete. A statement whose conversion records no rule comes out as it was
before anything is rewritten, and a table definition, which is always written anew, always has a
rule recorded. -/
theorem unrecorded_means_unrewritten {pair : Pair} (different : pair.target ≠ pair.source)
    (options : Options) {sql : String} {source : SourceStatement}
    (read : SourceStatement.ofSql sql = .ok source) :
    ∃ outcome, convertSql pair options sql = .ok outcome
      ∧ (outcome.rules = [] → outcome.sql = source.statement.unrewritten pair.source sql)
      ∧ ∀ table, source.statement = .createTable table → outcome.rules ≠ [] := by
  have distinct : pair.isIdentity = false := by
    simpa [Pair.isIdentity] using different.symm
  have same : source.sql = sql := by
    rw [SourceStatement.ofSql] at read
    split at read
    · cases read
    · cases read
      rfl
  obtain ⟨text, statement⟩ := source
  subst same
  refine ⟨SourceStatement.convert pair options ⟨text, statement⟩, by simp [convertSql, read, Except.map], ?_⟩
  rw [SourceStatement.convert_eq]
  have written : ∀ {table}, statement = .createTable table →
      ¬ Silent (SourceStatement.allNotes pair ⟨text, statement⟩) := by
    rintro table rfl silent
    rw [SourceStatement.allNotes, distinct] at silent
    exact not_silent_rule _ _ (silent_append.mp silent).2
  constructor
  · intro nothing
    have silent := silent_of_labels nothing
    change SourceStatement.convertedText pair options.ddlIndent ⟨text, statement⟩ = _
    cases statement with
    | select select =>
      rw [SourceStatement.allNotes, distinct] at silent
      rw [SourceStatement.convertedText, distinct]
      exact Select.convert_silent (ofSql_wellFormed read).names silent
    | createTable table => exact absurd silent (written rfl)
    | other =>
      rw [SourceStatement.convertedText, distinct]
      rfl
  · rintro table rfl nothing
    exact written rfl (silent_of_labels nothing)

theorem signedPage_unrewritten :
    ∃ outcome, convertSql ⟨.oracle, .tibero⟩ { recordUnchanged := false } signedPage.toSql = .ok outcome
      ∧ outcome.rules = [] ∧ outcome.sql = signedPage.toSql := by
  obtain ⟨outcome, converted, unrewritten, _⟩ := @unrecorded_means_unrewritten ⟨.oracle, .tibero⟩
    (by decide) { recordUnchanged := false } _ _ signedPage_read
  have known : outcome = SourceStatement.convert ⟨.oracle, .tibero⟩ { recordUnchanged := false }
      ⟨signedPage.toSql, .select signedPage⟩ := by
    rw [convertSql, signedPage_read] at converted
    exact (Except.ok.inj converted).symm
  have nothing : outcome.rules = [] := by
    rw [known]
    decide
  exact ⟨outcome, converted, nothing, unrewritten nothing⟩

end SqlDialects
