import SqlDialects.Conversion.Statement
import SqlDialects.Proofs.Canonical.Rewrite
import SqlDialects.Proofs.Canonical.RoundTrip
import SqlDialects.Proofs.Text.Requoting

/-
Queries that are converted as trees. Renamed calls and a rewritten row limit leave a tree that could
have been read, so the text that is written for it is read as that tree, in any quotes.
-/
namespace SqlDialects

open Reader

/-! Renamed calls. -/

def isCapitalName (name : String) : Bool :=
  name.toList.head?.any Char.isUpper && name.toList.all (fun c => c.isUpper || c == '_')
    && !isReserved name

theorem capitalName_isWord {name : String} (capital : isCapitalName name = true) :
    IsWord name.toList := by
  simp only [isCapitalName, Bool.and_eq_true] at capital
  refine ⟨?_, fun c member => ?_⟩
  · obtain ⟨c, found, upper⟩ := (Option.any_eq_true ..).mp capital.1.1
    exact ⟨c, found, nameStart_of_isAlpha c (by simp [Char.isAlpha, upper])⟩
  · have known := List.all_eq_true.mp capital.1.2 c member
    simp only [Bool.or_eq_true, beq_iff_eq] at known
    rcases known with upper | rfl
    · exact nameCharacter_of_isAlpha c (by simp [Char.isAlpha, upper])
    · rfl

theorem capitalName_free {name : String} (capital : isCapitalName name = true) :
    isReserved name = false := by
  simp only [isCapitalName, Bool.and_eq_true, Bool.not_eq_true'] at capital
  exact capital.2

theorem capitalName_isPart {name : String} (capital : isCapitalName name = true) : IsPart name := by
  have spelled : PartText (String.ofList name.toList) name.toList [] :=
    .plain (capitalName_isWord capital)
      (by rw [String.ofList_toList]; exact capitalName_free capital) endsWord_nil
  rwa [String.ofList_toList] at spelled

def allMappings : List FunctionMapping :=
  FunctionMapping.oracleToMysql ++ FunctionMapping.oracleToPostgresql
    ++ FunctionMapping.mysqlToOracle ++ FunctionMapping.mysqlToPostgresql
    ++ FunctionMapping.postgresqlToOracle ++ FunctionMapping.postgresqlToMysql

theorem table_listed {pair : Pair} {mapping : FunctionMapping}
    (listed : mapping ∈ FunctionMapping.table pair) : mapping ∈ allMappings := by
  obtain ⟨source, target⟩ := pair
  simp only [allMappings, List.mem_append, or_assoc]
  cases source <;> cases target <;>
    simp_all only [FunctionMapping.table, List.not_mem_nil, true_or, or_true]

theorem targets_capital :
    allMappings.all (fun mapping => mapping.action.target?.all isCapitalName) = true := by
  decide

theorem target_isPart {pair : Pair} {name target : String}
    (found : (FunctionMapping.lookup? pair name).bind (·.action.target?) = some target) :
    IsPart target := by
  obtain ⟨mapping, listed, named⟩ := Option.bind_eq_some_iff.mp found
  have capital := List.all_eq_true.mp targets_capital mapping
    (table_listed (List.mem_of_find?_eq_some listed))
  rw [named] at capital
  exact capitalName_isPart capital

theorem adapted_cases (pair : Pair) (call : Call) :
    call.adapted pair = call
      ∨ ∃ target, IsPart target ∧ call.adapted pair = call.rename target := by
  rw [Call.adapted]
  split
  · next target found =>
    split
    · exact .inl rfl
    · exact .inr ⟨target, target_isPart found, rfl⟩
  · exact .inl rfl

theorem Expr.listAdaptCalls_eq (pair : Pair) (es : List Expr) :
    Expr.listAdaptCalls pair es = es.map (Expr.adaptCalls pair) := by
  induction es with
  | nil => rfl
  | cons e es ih => exact congrArg (e.adaptCalls pair :: ·) ih

theorem adaptCalls_level (pair : Pair) (e : Expr) : (e.adaptCalls pair).level = e.level := by
  cases e <;> rfl

theorem adaptCalls_call (pair : Pair) (name : String) (args : List Expr) (distinct bare : Bool) :
    (Expr.call name args distinct bare).adaptCalls pair
      = .call name (args.map (Expr.adaptCalls pair)) distinct bare
      ∨ ∃ target, IsPart target ∧ (Expr.call name args distinct bare).adaptCalls pair
        = .call target (args.map (Expr.adaptCalls pair)) distinct
          ((args.map (Expr.adaptCalls pair)).isEmpty && isNiladic target) := by
  have unfolded : (Expr.call name args distinct bare).adaptCalls pair
      = .call (Call.adapted pair ⟨name, args, distinct, bare⟩).name
        (Expr.listAdaptCalls pair args) (Call.adapted pair ⟨name, args, distinct, bare⟩).distinct
        (Call.adapted pair ⟨name, args, distinct, bare⟩).bare := rfl
  rw [unfolded, Expr.listAdaptCalls_eq]
  rcases adapted_cases pair ⟨name, args, distinct, bare⟩ with kept | ⟨target, part, renamed⟩
  · rw [kept]
    exact .inl rfl
  · rw [renamed]
    exact .inr ⟨target, part, by simp [Call.rename]⟩

theorem adaptCalls_wellFormed (pair : Pair) {e : Expr} (wellFormed : e.WellFormed) :
    (e.adaptCalls pair).WellFormed := by
  induction wellFormed with
  | @call parts args distinct path inside only ih =>
    have each : ∀ a ∈ args.map (Expr.adaptCalls pair), a.WellFormed := by
      simpa using ih
    have some : distinct = true → args.map (Expr.adaptCalls pair) ≠ [] := by
      simpa using only
    rcases adaptCalls_call pair (".".intercalate parts) args distinct false with
      kept | ⟨target, part, renamed⟩
    · rw [kept]
      exact .call path each some
    · rw [renamed]
      exact renamed_wellFormed part each some
  | @bare name part niladic =>
    rcases adaptCalls_call pair name [] false true with kept | ⟨target, named, renamed⟩
    · rw [kept]
      exact .bare part niladic
    · rw [renamed]
      exact renamed_wellFormed named (by simp) (by simp)
  | binary first second loose tight ihl ihr =>
    exact .binary ihl ihr (by rwa [adaptCalls_level]) (by rwa [adaptCalls_level])
  | column path other => exact .column path other
  | number spelled => exact .number spelled
  | string value => exact .string value
  | null => exact .null
  | star => exact .star
  | qualified path => exact .qualified path
  | parameter spelled => exact .parameter spelled
  | group inside => exact .group inside
  | not inside tight => exact .not inside tight
  | negate inside tight => exact .negate inside tight
  | isNull inside tight => exact .isNull inside tight
  | inList inside tight nonempty each => exact .inList inside tight nonempty each

theorem adaptCalls_single (pair : Pair) {e : Expr} (wellFormed : e.WellFormed)
    (single : ∀ x, .negate (.negate x) ∉ e.nodes) :
    ∀ x, .negate (.negate x) ∉ (e.adaptCalls pair).nodes := by
  have calls : ∀ (name : String) (args : List Expr) (distinct bare : Bool),
      (∀ a ∈ args, ∀ x, .negate (.negate x) ∉ (a.adaptCalls pair).nodes) →
      ∀ x, .negate (.negate x) ∉ ((Expr.call name args distinct bare).adaptCalls pair).nodes := by
    intro name args distinct bare each x
    rcases adaptCalls_call pair name args distinct bare with kept | ⟨target, _, renamed⟩
    · rw [kept]
      simpa [Expr.nodes, Expr.listNodes_eq] using fun a member => each a member x
    · rw [renamed]
      simpa [Expr.nodes, Expr.listNodes_eq] using fun a member => each a member x
  induction wellFormed with
  | call path inside only ih =>
    refine calls _ _ _ _ fun a member => ih a member fun x found => single x ?_
    simp only [Expr.nodes, Expr.listNodes_eq, List.mem_cons, List.mem_flatMap]
    exact .inr ⟨a, member, found⟩
  | bare part niladic => exact calls _ _ _ _ (by simp)
  | @binary left right op first second loose tight ihl ihr =>
    intro x
    have leftSingle := ihl (fun x found => single x (by simp [Expr.nodes, found])) x
    have rightSingle := ihr (fun x found => single x (by simp [Expr.nodes, found])) x
    simp [Expr.adaptCalls, Expr.nodes, leftSingle, rightSingle]
  | _ => exact single

theorem Select.adaptCalls_wellFormed (pair : Pair) {select : Select} (wellFormed : select.WellFormed) :
    (select.adaptCalls pair).WellFormed :=
  { wellFormed with
    nonempty := by simpa [Select.adaptCalls] using wellFormed.nonempty
    items := by
      intro item adapted
      obtain ⟨old, member, rfl⟩ := List.mem_map.mp adapted
      have shape := wellFormed.items old member
      exact ⟨SqlDialects.adaptCalls_wellFormed pair shape.expr, shape.alias?⟩
    filter := by
      intro condition adapted
      obtain ⟨old, member, rfl⟩ := Option.mem_map.mp adapted
      exact SqlDialects.adaptCalls_wellFormed pair (wellFormed.filter old member) }

theorem Select.adaptCalls_single (pair : Pair) {select : Select} (wellFormed : select.WellFormed)
    (single : ∀ x, .negate (.negate x) ∉ select.nodes) :
    ∀ x, .negate (.negate x) ∉ (select.adaptCalls pair).nodes := by
  have each : ∀ e ∈ select.exprs, ∀ x, .negate (.negate x) ∉ e.nodes := fun e member x found =>
    single x (List.mem_flatMap.mpr ⟨e, member, found⟩)
  intro x found
  obtain ⟨e, listed, found⟩ := List.mem_flatMap.mp found
  rcases Select.mem_exprs.mp listed with ⟨item, adapted, rfl⟩ | other | adapted | other
  · obtain ⟨old, member, rfl⟩ := List.mem_map.mp adapted
    exact SqlDialects.adaptCalls_single pair (wellFormed.items old member).expr
      (each _ (Select.mem_exprs.mpr (.inl ⟨old, member, rfl⟩))) x found
  · exact each e (Select.mem_exprs.mpr (.inr (.inl other))) x found
  · obtain ⟨old, member, rfl⟩ := Option.mem_map.mp adapted
    exact SqlDialects.adaptCalls_single pair (wellFormed.filter old member)
      (each _ (Select.mem_exprs.mpr (.inr (.inr (.inl member))))) x found
  · exact each e (Select.mem_exprs.mpr (.inr (.inr (.inr other)))) x found

/-! The row limit. -/

def Page.unmarked (page : Page) : Page :=
  { page with offsetRows := page.limit.isNone && page.offsetRows }

theorem Page.unmarked_toSql (page : Page) : page.unmarked.toSql = page.toSql := by
  obtain ⟨limit, offset, fetch, rows⟩ := page
  cases limit <;> rfl

theorem adaptCount_wellFormed (target : Dialect) {page : Page} (wellFormed : page.WellFormed) :
    (page.adaptCount target).1.unmarked.WellFormed := by
  obtain ⟨limit, offset, fetch, rows⟩ := page
  have kept := wellFormed.offset
  have once := wellFormed.single
  rw [Page.adaptCount]
  cases target.rowLimit <;> cases limit <;> cases fetch <;> constructor <;>
    simp_all [Page.unmarked]

theorem adapted_page_wellFormed (pair : Pair) {page : Page} (wellFormed : page.WellFormed) :
    (page.adapted pair).1.unmarked.WellFormed := by
  have same : page.unmarked = page := by
    obtain ⟨limit, offset, fetch, rows⟩ := page
    cases limit with
    | none => rfl
    | some n =>
      cases (wellFormed.single rfl).2
      rfl
  rw [Page.adapted]
  split
  · rwa [same]
  · split
    · next counted =>
      split
      · next offset found =>
        simp only [Bool.and_eq_true, Option.isNone_iff_eq_none] at counted
        exact ⟨by simp [Page.unmarked, Page.adaptLoneOffset, counted.2],
          by simp [Page.unmarked, Page.adaptLoneOffset, found]⟩
      · rwa [same]
    · exact adaptCount_wellFormed pair.target wellFormed

/-! Converted queries. -/

theorem requoted_written (target : Dialect) :
    ∃ f, WritesNames f ∧ ∀ select : Select, (select.requoted target).1 = select.mapNames f := by
  cases target with
  | mysql => exact ⟨requotedName '\x60', backquoted_spelled, fun _ => rfl⟩
  | _ => exact ⟨id, path_spelled, fun select => select.mapNames_id.symm⟩

/-- The tree that is written for the target; its mark on the offset is one that shows. -/
def Select.adaptedTree (pair : Pair) (select : Select) : Select :=
  Select.adaptCalls pair { select with page := (select.page.adapted pair).1.unmarked }

theorem Select.adaptedTree_wellFormed (pair : Pair) {select : Select}
    (wellFormed : select.WellFormed) : (select.adaptedTree pair).WellFormed :=
  Select.adaptCalls_wellFormed pair
    { wellFormed with page := adapted_page_wellFormed pair wellFormed.page }

theorem convert_tree_text {pair : Pair} (sql : String) (select : Select)
    (source : pair.source = .tibero ∨ pair.source = .oracle) {f : String → String}
    (named : ∀ tree : Select, (tree.requoted pair.target).1 = tree.mapNames f) :
    (select.convert pair sql).1 = String.ofList ((select.adaptedTree pair).written f) := by
  have written : (select.convert pair sql).1 = (Select.requoted pair.target
      (Select.adaptCalls pair { select with page := (select.page.adapted pair).1 })).1.toSql := by
    rcases source with source | source <;> (rw [Select.convert, source]; rfl)
  rw [written, named, Select.written, String.ofList_toList]
  exact congrArg (HAppend.hAppend _) (Page.unmarked_toSql _).symm

theorem convert_tree_written {pair : Pair} (sql : String) {select : Select}
    (source : pair.source = .tibero ∨ pair.source = .oracle) (wellFormed : select.WellFormed)
    (single : ∀ inner, .negate (.negate inner) ∉ select.nodes) :
    ∃ f, WritesNames f ∧ (select.adaptedTree pair).WellFormed
      ∧ (∀ inner, .negate (.negate inner) ∉ (select.adaptedTree pair).nodes)
      ∧ (select.convert pair sql).1 = String.ofList ((select.adaptedTree pair).written f) := by
  obtain ⟨f, writes, named⟩ := requoted_written pair.target
  have pageWellFormed : Select.WellFormed
      { select with page := (select.page.adapted pair).1.unmarked } :=
    { wellFormed with page := adapted_page_wellFormed pair wellFormed.page }
  exact ⟨f, writes, select.adaptedTree_wellFormed pair wellFormed,
    Select.adaptCalls_single pair pageWellFormed single, convert_tree_text sql select source named⟩

/-- The text of a query that was converted as a tree is read as the query with its row limit in the
target's form and its calls renamed; the quotes around names make no difference. -/
theorem converted_tree_reads_back {pair : Pair} (options : Options) {sql : String} {select : Select}
    (source : pair.source = .tibero ∨ pair.source = .oracle) (different : pair.target ≠ pair.source)
    (read : SourceStatement.ofSql sql = .ok ⟨sql, .select select⟩)
    (single : ∀ inner, .negate (.negate inner) ∉ select.nodes) :
    ∃ outcome rows, convertSql pair options sql = .ok outcome
      ∧ SourceStatement.ofSql outcome.sql = .ok ⟨outcome.sql, .select
        { Select.adaptCalls pair { select with page := (select.page.adapted pair).1 } with
          page := { (select.page.adapted pair).1 with offsetRows := rows } }⟩ := by
  obtain ⟨f, writes, treeWellFormed, treeSingle, text⟩ :=
    convert_tree_written sql source (ofSql_wellFormed read) single
  have distinct : pair.isIdentity = false := by
    simpa [Pair.isIdentity] using different.symm
  refine ⟨.ofNotes options (select.convert pair sql).1 (select.convert pair sql).2,
    (select.adaptedTree pair).page.asWritten.offsetRows, ?_, ?_⟩
  · simp [convertSql, read, Except.map, SourceStatement.convert, distinct]
  · have again := written_read writes treeWellFormed treeSingle
    rw [← text] at again
    exact again

theorem signedPage_converted :
    ∃ outcome rows, convertSql ⟨.oracle, .mysql⟩ {} signedPage.toSql = .ok outcome
      ∧ SourceStatement.ofSql outcome.sql = .ok ⟨outcome.sql, .select
        { signedPage with page := { limit := some 2, offset := some 3, offsetRows := rows } }⟩ :=
  converted_tree_reads_back {} (.inr rfl) (by decide) signedPage_read signedPage_single

end SqlDialects
