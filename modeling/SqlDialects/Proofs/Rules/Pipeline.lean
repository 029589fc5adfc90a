import SqlDialects.Proofs.Conversion.TreePath
import SqlDialects.Proofs.Rules.RowLimits

/-
The text rules of a pair, one after the other. On the canonical text of a query with plain names
they do what a change of the tree does: the calls are renamed wherever they stand, the row limit is
put in the target's form, and the operators that the target lacks are replaced.
-/
namespace SqlDialects

open Text Pattern Reader

/-! One rule on a canonical text. -/

def Select.BodyWellFormed (select : Select) : Prop :=
  Select.WellFormed { select with page := {} }

theorem Select.WellFormed.body {select : Select} (wellFormed : select.WellFormed) :
    select.BodyWellFormed :=
  { wellFormed with page := ⟨nofun, fun _ => rfl⟩ }

theorem toSql_body (select : Select) :
    select.toSql.toList = select.bodyBefore select.page.written := by
  have text := select_written id select
  rwa [Select.written, Select.mapNames_id] at text

theorem rule_rewritten (rule : TextRule) {new? : String → Option String}
    {change : BinaryOp → BinaryOp} (rewrites : Rewrites rule.run new? change)
    {select : Select} (wellFormed : select.BodyWellFormed) (plain : select.Plain) {page : Page}
    (paged : rule.run select.page.written = page.written) :
    rule.run select.toSql.toList
      = (Select.toSql
        { select.mapExprs (Expr.rewrite new? change) with page := page }).toList := by
  have bare : Select.Plain { select with page := {} } := { plain with }
  have body := body_rewritten rewrites wellFormed bare (page_clause select.page)
  rw [toSql_body, toSql_body, ← paged]
  exact body

theorem rule_kept (rule : TextRule) (rewrites : Rewrites rule.run noName id)
    {select : Select} (wellFormed : select.BodyWellFormed) (plain : select.Plain) {page : Page}
    (paged : rule.run select.page.written = page.written) :
    rule.run select.toSql.toList = (Select.toSql { select with page := page }).toList := by
  have same : Expr.rewrite noName id = id := funext Expr.rewrite_none
  rw [rule_rewritten _ rewrites wellFormed plain paged, same, Select.mapExprs_id]

/-! Renaming. -/

def newNameIn (table : List FunctionMapping) (name : String) : Option String :=
  (table.find? fun mapping => mapping.source == Text.upper name).bind (·.action.target?)

def Pair.newName (pair : Pair) : String → Option String := newNameIn (FunctionMapping.table pair)

def isRenameable (source : String) : Bool :=
  (!source.toList.isEmpty && source.toList.all isCapital) && !isNiladic source
    && !canonicalWords.contains source

theorem renameable_of_check {source : String} (check : isRenameable source = true) :
    Renameable source := by
  simp only [isRenameable, Bool.and_eq_true, Bool.not_eq_true'] at check
  obtain ⟨⟨capital, called⟩, apart⟩ := check
  exact ⟨isCapitalWord_of_check (by simpa using capital), called, by simpa using apart⟩

theorem renameRule_page {source : String} (renameable : Renameable source) (target : String)
    (page : Page) : (TextRule.renameRule source target).run page.written = page.written := by
  obtain ⟨parts, text, rule⟩ : ∃ parts text, (TextRule.renameRule source target).run
      = outsideLiterals ((wordThen source (TextRule.blanks :: .char '(' :: parts)).replaceAll
        fun _ => text) := by
    cases niladic : isNiladic target with
    | true =>
      refine ⟨[TextRule.blanks, .char ')'], target.toList, funext fun s => ?_⟩
      simp only [TextRule.run, TextRule.renameRule, niladic, ↓reduceIte]
      rfl
    | false =>
      refine ⟨[], target.toList ++ ['('], funext fun s => ?_⟩
      simp only [TextRule.run, TextRule.renameRule, niladic, Bool.false_eq_true, ↓reduceIte]
      rfl
  have rewrites := @renameRule_rewrites _ target renameable
  rw [rule] at rewrites
  refine (congrFun rule _).trans
    (page_kept (call_begins renameable parts) rewrites fun word listed rest inside => ?_)
  obtain rfl := List.mem_singleton.mp listed
  have known := lexemes_words (inside.subset List.mem_cons_self)
  exact absurd (by simp [canonicalWords, known]) renameable.apart

/-- The entries of a table can be applied in turn: no entry meets the function of an earlier one,
under its old name or its new one. -/
def inTurn : List FunctionMapping → Bool
  | [] => true
  | mapping :: table =>
    isRenameable mapping.source && mapping.action.target?.all isCapitalName
      && table.all (fun later => later.source != mapping.source
        && mapping.action.target?.all fun target => later.source != Text.upper target)
      && inTurn table

theorem capitalName_plain {name : String} (capital : isCapitalName name = true) :
    PlainName name ∧ '.' ∉ name.toList := by
  simp only [isCapitalName, Bool.and_eq_true] at capital
  have inside := List.all_eq_true.mp capital.1.2
  refine ⟨fun c member => ?_, fun member => ?_⟩
  swap
  · have wrong := inside '.' member
    cases wrong
  have letter := inside c member
  have plain : isPlain c = true := plain_of_capital letter
  have marks : (['"', '$', '#'].all fun d => !(d.isUpper || d == '_')) = true := by decide
  exact ⟨plain_ascii plain, @Text.not_mem_of_all (fun d => d.isUpper || d == '_') _ _ letter marks⟩

section Table

variable {table : List FunctionMapping}

theorem newNameIn_none {name : String}
    (absent : ∀ mapping ∈ table, mapping.source ≠ Text.upper name) : newNameIn table name = none := by
  have missing : table.find? (fun mapping => mapping.source == Text.upper name) = none :=
    List.find?_eq_none.mpr fun mapping listed => by simpa using absent mapping listed
  rw [newNameIn, missing]
  rfl

theorem newNameIn_cons (mapping : FunctionMapping) (name : String) :
    newNameIn (mapping :: table) name
      = if mapping.source = Text.upper name then mapping.action.target? else newNameIn table name := by
  rw [newNameIn, List.find?_cons]
  by_cases same : mapping.source = Text.upper name
  · simp [same]
  · have other : (mapping.source == Text.upper name) = false := by simpa using same
    rw [other, if_neg same, newNameIn]

theorem newNameIn_target {name target : String} (turns : inTurn table = true)
    (found : newNameIn table name = some target) : isCapitalName target = true := by
  induction table with
  | nil => cases found
  | cons mapping table ih =>
    simp only [inTurn, Bool.and_eq_true] at turns
    rw [newNameIn_cons] at found
    split at found
    · have capital := turns.1.1.2
      rw [found] at capital
      exact capital
    · exact ih turns.2 found

theorem newName_target {source target name new : String}
    (renamed : newName source target name = some new) : Text.upper name = source ∧ new = target := by
  rw [newName] at renamed
  split at renamed
  · next named => exact ⟨named, (Option.some.inj renamed).symm⟩
  · cases renamed

theorem newNameIn_inTurn {mapping : FunctionMapping} {target : String}
    (found : mapping.action.target? = some target)
    (apart : ∀ other ∈ table, other.source ≠ mapping.source ∧ other.source ≠ Text.upper target) :
    InTurn (newName mapping.source target) (newNameIn table) (newNameIn (mapping :: table)) := by
  refine ⟨fun name new renamed => ?_, fun name kept => ?_⟩
  · obtain ⟨named, rfl⟩ := newName_target renamed
    refine ⟨newNameIn_none fun other listed => (apart other listed).2,
      newNameIn_none fun other listed => named ▸ (apart other listed).1, ?_⟩
    rw [newNameIn_cons, if_pos named.symm, found]
  · rw [newName] at kept
    split at kept
    · cases kept
    · next named => rw [newNameIn_cons, if_neg (Ne.symm named)]

theorem renames_rewritten (turns : inTurn table = true) {select : Select}
    (wellFormed : select.BodyWellFormed) (plain : select.Plain) :
    TextRule.runAll (table.filterMap fun mapping =>
        mapping.action.target?.map (TextRule.renameRule mapping.source)) select.toSql.toList
      = (select.mapExprs (Expr.rewrite (newNameIn table) id)).toSql.toList := by
  induction table generalizing select with
  | nil =>
    have same : Expr.rewrite (newNameIn []) id = id := funext Expr.rewrite_none
    rw [same, Select.mapExprs_id, List.filterMap_nil, TextRule.runAll_nil]
  | cons mapping table ih =>
    have parts := turns
    simp only [inTurn, Bool.and_eq_true] at parts
    obtain ⟨⟨⟨check, capital⟩, apart⟩, later⟩ := parts
    cases found : mapping.action.target? with
    | none =>
      have absent : ∀ other ∈ table, other.source ≠ mapping.source := fun other listed => by
        have both := List.all_eq_true.mp apart other listed
        simp only [Bool.and_eq_true, bne_iff_ne] at both
        exact both.1
      have same : newNameIn (mapping :: table) = newNameIn table := by
        funext name
        rw [newNameIn_cons, found]
        split
        · next named => exact (newNameIn_none fun other listed => named ▸ absent other listed).symm
        · rfl
      rw [List.filterMap_cons, found, same]
      exact ih later wellFormed plain
    | some target =>
      rw [found] at capital
      have renameable := renameable_of_check check
      have rewrites := @renameRule_rewrites _ target renameable
      have targets : ∀ name new, newName mapping.source target name = some new → new = target :=
        fun name new renamed => (newName_target renamed).2
      have turn := newNameIn_inTurn found fun other listed => by
        have both := List.all_eq_true.mp apart other listed
        simpa [found] using both
      have first := rule_rewritten _ rewrites wellFormed plain (renameRule_page renameable target _)
      have renamedWellFormed : (select.mapExprs
          (Expr.rewrite (newName mapping.source target) id)).BodyWellFormed :=
        Select.mapExprs_wellFormed (fun e shape => rewrite_wellFormed
          (fun name new renamed => targets name new renamed ▸ capitalName_isPart capital)
          (fun op => rfl) shape) wellFormed
      have renamedPlain := @Select.rewrite_plain _ id
        (fun name new renamed => targets name new renamed ▸ capitalName_plain capital) _ plain
      rw [List.filterMap_cons, found, Option.map_some, TextRule.runAll_cons, first]
      refine (ih later renamedWellFormed renamedPlain).trans ?_
      rw [Select.mapExprs_mapExprs]
      exact congrArg (fun f => (select.mapExprs f).toSql.toList)
        (funext fun e => Expr.rewrite_rewrite turn id id e)

end Table

/-! Row limits, quotes and operators. -/

def Page.reworded (pair : Pair) (page : Page) : Page :=
  match pair.target with
  | .tibero | .oracle => page.fetching
  | .mysql => page.limiting
  | .postgresql => page

def Pair.operator (pair : Pair) : BinaryOp → BinaryOp :=
  if pair.source = .postgresql ∧ pair.target = .mysql then BinaryOp.caseless else id

section Rules

variable {select : Select} (plain : select.Plain)
include plain

theorem limitComma_text (wellFormed : select.BodyWellFormed) (form : RowLimit) :
    (TextRule.limitCommaRule form).run select.toSql.toList = select.toSql.toList := by
  cases form with
  | limit =>
    exact rule_kept (TextRule.limitCommaRule .limit) (limit_rewrites _ _) wellFormed plain
      (limitComma_kept _ select.page)
  | fetchFirst =>
    exact rule_kept (TextRule.limitCommaRule .fetchFirst) (limit_rewrites _ _) wellFormed plain
      (limitComma_kept _ select.page)

theorem limits_text (wellFormed : select.BodyWellFormed) :
    TextRule.runAll [TextRule.limitOffsetRule, TextRule.limitAloneRule] select.toSql.toList
      = (Select.toSql { select with page := select.page.fetching }).toList := by
  have first := rule_kept TextRule.limitOffsetRule (limit_rewrites _ _) wellFormed plain
    (limitOffset_page select.page)
  -- What the first of the two rules leaves of a limit stands alone.
  have alone : (if select.page.offset.isSome then select.page.fetching else select.page).limit.isSome
      = true → (if select.page.offset.isSome then select.page.fetching else select.page).offset
        = none := by
    obtain ⟨limit, offset, fetch, rows⟩ := select.page
    cases limit <;> cases offset <;> simp [Page.fetching]
  have both : (if select.page.offset.isSome then select.page.fetching else select.page).fetching
      = select.page.fetching := by
    obtain ⟨limit, offset, fetch, rows⟩ := select.page
    cases limit <;> cases offset <;> rfl
  have paged : Select.Plain { select with
      page := if select.page.offset.isSome then select.page.fetching else select.page } :=
    { plain with }
  have second := @rule_kept TextRule.limitAloneRule (limit_rewrites _ _) { select with
      page := if select.page.offset.isSome then select.page.fetching else select.page }
    wellFormed paged _ (limitAlone_page alone)
  rw [TextRule.runAll_cons, TextRule.runAll_one, first, second, both]

theorem fetch_text (wellFormed : select.BodyWellFormed)
    (single : select.page.fetch.isSome = true → select.page.limit = none) :
    (TextRule.fetchFirstRule).run select.toSql.toList
      = (Select.toSql { select with page := select.page.limiting }).toList :=
  rule_kept TextRule.fetchFirstRule (fetch_rewrites _) wellFormed plain (fetchFirst_page single)

theorem rowLimits_text {pair : Pair} (source : pair.source = .mysql ∨ pair.source = .postgresql)
    (different : pair.target ≠ pair.source) (wellFormed : select.WellFormed) :
    TextRule.runAll (TextRule.rowLimits pair) select.toSql.toList
      = (Select.toSql { select with page := select.page.reworded pair }).toList := by
  have single : select.page.fetch.isSome = true → select.page.limit = none := by
    intro fetched
    cases limited : select.page.limit with
    | none => rfl
    | some n =>
      rw [(wellFormed.page.single (by rw [limited]; rfl)).1] at fetched
      cases fetched
  have comma := limitComma_text plain wellFormed.body
  have limits := limits_text plain wellFormed.body
  have fetched := fetch_text plain wellFormed.body single
  obtain ⟨first, second⟩ := pair
  rcases source with source | source <;> (simp only at source; subst source)
  · cases second with
    | mysql => exact absurd rfl different
    | postgresql =>
      have rules : TextRule.rowLimits ⟨.mysql, .postgresql⟩ = [TextRule.limitCommaRule .limit] := rfl
      rw [rules, TextRule.runAll_one, comma]
      rfl
    | tibero | oracle =>
      have rules : ∀ target, target = .tibero ∨ target = .oracle → TextRule.rowLimits ⟨.mysql, target⟩
          = [TextRule.limitCommaRule .fetchFirst, TextRule.limitOffsetRule, TextRule.limitAloneRule] := by
        rintro target (rfl | rfl) <;> rfl
      rw [rules _ (by simp), TextRule.runAll_cons, comma, limits]
      rfl
  · cases second with
    | postgresql => exact absurd rfl different
    | mysql =>
      have rules : TextRule.rowLimits ⟨.postgresql, .mysql⟩ = [TextRule.fetchFirstRule] := rfl
      rw [rules, TextRule.runAll_one, fetched]
      rfl
    | tibero | oracle =>
      have rules : ∀ target, target = .tibero ∨ target = .oracle →
          TextRule.rowLimits ⟨.postgresql, target⟩
          = [TextRule.limitOffsetRule, TextRule.limitAloneRule] := by
        rintro target (rfl | rfl) <;> rfl
      rw [rules _ (by simp), limits]
      rfl

theorem quotes_text (pair : Pair) (wellFormed : select.BodyWellFormed) :
    TextRule.runAll (TextRule.quotes pair) select.toSql.toList = select.toSql.toList := by
  have foreign : pair.source.quote ≠ '\x27' ∧ pair.source.quote ∉ marks
      ∧ isPlain pair.source.quote = false := by
    cases pair.source <;> exact ⟨by decide, by decide, rfl⟩
  rw [TextRule.quotes]
  split
  · rw [TextRule.runAll_nil]
  · rw [TextRule.runAll_one]
    refine rule_kept ⟨_, .transform (TextRule.requoting pair.source.quote pair.target.quote)⟩
      (requote_rewrites foreign.1 foreign.2) wellFormed plain ?_
    have kept := @requoteFrom_plain pair.source.quote pair.target.quote select.page.written
      (fun c member => ⟨page_code member, ?_⟩) []
    · rw [List.append_nil] at kept
      exact (congrArg Prod.fst kept).trans (List.append_nil _)
    · rintro rfl
      rcases page_plain member with same | same
      · exact foreign.2.1 (by simp [same, marks])
      · rw [foreign.2.2] at same
        cases same

theorem operators_text (pair : Pair) (wellFormed : select.BodyWellFormed) :
    TextRule.runAll (TextRule.operators pair) select.toSql.toList
      = (select.mapExprs (Expr.rewrite noName pair.operator)).toSql.toList := by
  rw [TextRule.operators, Pair.operator]
  split
  · rw [TextRule.runAll_one]
    refine rule_rewritten ⟨"ILIKE → LIKE", .replace (wordThen "ILIKE" [.boundary]) "LIKE".toList⟩
      ilike_rewrites wellFormed plain
      (page_kept ilike_begins ilike_rewrites fun word listed rest inside => ?_)
    obtain rfl := List.mem_singleton.mp listed
    exact absurd (lexemes_words (inside.subset List.mem_cons_self)) (by decide)
  · have same : Expr.rewrite noName id = id := funext Expr.rewrite_none
    rw [same, Select.mapExprs_id, TextRule.runAll_nil]

end Rules

/-! All of them. -/

def Select.reworded (pair : Pair) (select : Select) : Select :=
  { select.mapExprs (Expr.rewrite pair.newName pair.operator) with
    page := select.page.reworded pair }

theorem table_inTurn {pair : Pair} (source : pair.source = .mysql ∨ pair.source = .postgresql) :
    inTurn (FunctionMapping.table pair) = true := by
  obtain ⟨first, second⟩ := pair
  rcases source with source | source <;> (simp only at source; subst source) <;> cases second <;>
    decide

theorem pipeline_rules {pair : Pair} (source : pair.source = .mysql ∨ pair.source = .postgresql)
    (different : pair.target ≠ pair.source) :
    TextRule.pipeline pair = TextRule.renames pair ++ (TextRule.rowLimits pair
      ++ (TextRule.quotes pair ++ TextRule.operators pair)) := by
  have distinct : pair.isIdentity = false := by simpa [Pair.isIdentity] using different.symm
  rw [TextRule.pipeline, distinct]
  rcases source with source | source <;> simp [source]

theorem pipeline_text {pair : Pair} (source : pair.source = .mysql ∨ pair.source = .postgresql)
    (different : pair.target ≠ pair.source) {select : Select} (wellFormed : select.WellFormed)
    (plain : select.Plain) :
    TextRule.runAll (TextRule.pipeline pair) select.toSql.toList
      = (select.reworded pair).toSql.toList := by
  have turns := table_inTurn source
  have pipeline := pipeline_rules source different
  have targets : ∀ name target, pair.newName name = some target → isCapitalName target = true :=
    fun name target found => newNameIn_target turns found
  -- The tree after the renaming rules.
  let renamed := select.mapExprs (Expr.rewrite pair.newName id)
  have renamedWellFormed : renamed.WellFormed := Select.mapExprs_wellFormed (fun e shape =>
    rewrite_wellFormed (fun name target found => capitalName_isPart (targets name target found))
      (fun op => rfl) shape) wellFormed
  have renamedPlain : renamed.Plain := Select.rewrite_plain
    (fun name target found => capitalName_plain (targets name target found)) plain
  -- The tree after the rules for the row limit.
  let paged : Select := { renamed with page := renamed.page.reworded pair }
  have pagedPlain : paged.Plain := { renamedPlain with }
  have pagedWellFormed : paged.BodyWellFormed := renamedWellFormed.body
  have turn : InTurn pair.newName noName pair.newName :=
    ⟨fun name target found => ⟨rfl, rfl, found⟩, fun name found => found⟩
  have first : TextRule.runAll (TextRule.renames pair) select.toSql.toList
      = renamed.toSql.toList := renames_rewritten turns wellFormed.body plain
  have second := rowLimits_text renamedPlain source different renamedWellFormed
  have third := quotes_text pagedPlain pair pagedWellFormed
  have fourth := operators_text pagedPlain pair pagedWellFormed
  have whole : paged.mapExprs (Expr.rewrite noName pair.operator) = select.reworded pair := by
    have exprs : renamed.mapExprs (Expr.rewrite noName pair.operator)
        = select.mapExprs (Expr.rewrite pair.newName pair.operator) := by
      rw [Select.mapExprs_mapExprs]
      exact congrArg (select.mapExprs ·)
        (funext fun e => Expr.rewrite_rewrite turn id pair.operator e)
    exact congrArg (fun tree : Select => { tree with page := select.page.reworded pair }) exprs
  rw [pipeline, TextRule.runAll_append, TextRule.runAll_append, TextRule.runAll_append, first,
    second, third, fourth, whole]

/-- On the canonical text of a query with plain names, the rules of a pair write the tree in which
every call, operator and row limit is the pair's own. -/
theorem text_rules_rewrite_tree {pair : Pair}
    (source : pair.source = .mysql ∨ pair.source = .postgresql)
    (different : pair.target ≠ pair.source) {sql : String} {select : Select}
    (read : SourceStatement.ofSql sql = .ok ⟨sql, .select select⟩) (plain : select.Plain) :
    (TextRule.applyAll (TextRule.pipeline pair) select.toSql.toList).1
      = (select.reworded pair).toSql.toList := by
  rw [TextRule.applyAll_text (TextRule.pipeline_steady pair)]
  exact pipeline_text source different (ofSql_wellFormed read) plain

def guardedPage : Select where
  items := [⟨.call "IFNULL" [.column "A", .column "B"] false false, none⟩]
  page := { limit := some 2, offset := some 3 }

theorem capitalName_isPath {name : String} (capital : isCapitalName name = true) :
    IsPath [name] :=
  isPath_one (capitalName_isPart capital)

theorem guardedPage_wellFormed : guardedPage.WellFormed := by
  have first : (Expr.column "A").WellFormed :=
    .column (@capitalName_isPath "A" (by decide)) (by decide)
  have second : (Expr.column "B").WellFormed :=
    .column (@capitalName_isPath "B" (by decide)) (by decide)
  have call : (Expr.call "IFNULL" [.column "A", .column "B"] false false).WellFormed :=
    .call (@capitalName_isPath "IFNULL" (by decide)) (by simp [first, second]) nofun
  exact oneItem_wellFormed call ⟨fun _ => ⟨rfl, rfl⟩, nofun⟩

theorem guardedPage_single (inner : Expr) : .negate (.negate inner) ∉ guardedPage.nodes := by
  simp [guardedPage, Select.nodes, Select.exprs, Expr.nodes, Expr.listNodes]

theorem guardedPage_plain : guardedPage.Plain where
  nodes := by
    simp [guardedPage, Select.nodes, Select.exprs, Expr.nodes, Expr.listNodes, Expr.PlainNode,
      PlainName]
  items := by simp [guardedPage]
  tables := nofun
  joins := nofun

theorem guardedPage_read :
    SourceStatement.ofSql guardedPage.toSql = .ok ⟨guardedPage.toSql, .select guardedPage⟩ :=
  toSql_read guardedPage_wellFormed guardedPage_single

theorem guardedPage_reworded :
    (TextRule.applyAll (TextRule.pipeline ⟨.mysql, .oracle⟩) guardedPage.toSql.toList).1
      = "SELECT NVL(A, B) OFFSET 3 ROWS FETCH FIRST 2 ROWS ONLY".toList :=
  (text_rules_rewrite_tree (.inl rfl) (by decide) guardedPage_read guardedPage_plain).trans
    (by decide)

end SqlDialects
