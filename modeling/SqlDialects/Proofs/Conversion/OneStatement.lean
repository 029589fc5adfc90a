import SqlDialects.Proofs.Conversion.AuditTrail
import SqlDialects.Proofs.Conversion.CalmTables
import SqlDialects.Proofs.Rules.Endings

/-
Converted statements as parts of a script. A conversion that writes its statement anew gives one
statement again, unless it puts two signs together or a type has ended inside quotes. The text rules
keep one statement one, unless a name in the quotes of the target holds those of the source or an
apostrophe, and a statement that is left as it is stays one.
-/
namespace SqlDialects

open Nesting Reader

/-! Table definitions. -/

theorem kept_isTypeName {name : String} (named : isTypeName name = true) : Kept name.toList := by
  rcases isTypeName_cases named with typed | ⟨word, suffix, typed, listed, split⟩
  · exact kept_word (isTypeWord_shape typed).1.inside
  · have later := (isTypeWord_shape (typeSuffixes_shape listed).2).1
    rw [split]
    exact (kept_word (isTypeWord_shape typed).1.inside).append
      ((kept_ordinary (c := ' ') rfl).append (kept_word later.inside))

theorem kept_parameters (type : DataType) : Kept type.parameters := by
  rcases parameters_cases type with none | ⟨s, some, inside⟩
  · rw [none]
    exact kept_nil
  · rw [some, ← List.singleton_append]
    refine (kept_ordinary rfl).append (Kept.append (kept_all fun c member => ?_) (kept_ordinary rfl))
    rcases inside c member with digit | rfl
    · exact ordinary_nameCharacter (nameCharacter_of_isDigit c digit)
    · rfl

theorem kept_quoteName (d : Dialect) (name : String) : Kept (d.quoteName name).toList := by
  rw [quoteName_text]
  exact kept_intercalate (kept_ordinary rfl)
    (List.forall_mem_map.mpr fun piece _ => kept_enclose (quote_isQuote d) piece)

theorem calm_constraintsText {kept : List String}
    (each : ∀ text ∈ kept, text = "NOT NULL" ∨ Calm text.toList) : Calm (constraintsText kept) := by
  induction kept with
  | nil => exact kept_nil.isCalm
  | cons text kept ih =>
    have first : Calm text.toList := by
      rcases each text List.mem_cons_self with rfl | found
      · exact (kept_text (by decide)).isCalm
      · exact found
    have later := ih fun next member => each next (.tail text member)
    have apart : (constraintsText kept).head? ≠ some '-' ∧ (constraintsText kept).head? ≠ some '*' := by
      cases kept with
      | nil => exact ⟨nofun, nofun⟩
      | cons next kept =>
        rw [constraintsText_cons, List.head?_cons]
        decide
    rw [constraintsText_cons]
    exact (kept_ordinary (c := ' ') rfl).before (first.join later apart)

theorem calm_columnLine (pair : Pair) {column : Column} (named : isTypeName column.type.name = true)
    (defaults : column.CalmDefaults) : Calm (column.line pair).toList := by
  have constraints := calm_constraintsText (constraint_cases defaults)
  have type : Kept (column.type.mapped pair).toSql.toList := by
    rw [DataType.toSql_parameters]
    exact (kept_isTypeName (mapped_isTypeName pair named)).append (kept_parameters _)
  rw [line_text]
  exact (kept_quoteName pair.target column.name).before
    ((kept_ordinary (c := ' ') rfl).before (type.before constraints))

theorem columns_isTypeName {s : List Char} {table : TableDefinition}
    (read : TableDefinition.ofText? s = some table) :
    ∀ column ∈ table.columns, isTypeName column.type.name = true := by
  intro column member
  obtain ⟨elements, readOf, _⟩ := ofText_readOf read
  obtain ⟨element, _, found⟩ := readOf.columns column member
  rw [columnElement?] at found
  split at found
  · cases found
  · split at found
    · cases found
    · next type _ typed =>
      cases found
      exact dataType_isTypeName typed

theorem kept_keyLine (target : Dialect) (index : Index) :
    Kept ("PRIMARY KEY (" ++ ", ".intercalate (index.columns.map target.quoteName) ++ ")").toList := by
  have names : ∀ t ∈ (index.columns.map target.quoteName).map String.toList, Kept t :=
    List.forall_mem_map.mpr (List.forall_mem_map.mpr fun name _ => kept_quoteName target name)
  have head : Kept "PRIMARY KEY (".toList := kept_text (by decide)
  rw [String.toList_append, String.toList_append, String.toList_intercalate]
  exact (head.append (kept_intercalate (kept_text (by decide)) names)).append
    (kept_ordinary (c := ')') rfl)

theorem calm_table (pair : Pair) (indent : Nat) {table : TableDefinition}
    (named : ∀ column ∈ table.columns, isTypeName column.type.name = true)
    (defaults : ∀ column ∈ table.columns, column.CalmDefaults) :
    Calm (table.toSql pair indent).toList := by
  have blanks : Kept (List.replicate indent ' ') := kept_all fun c member => by
    obtain rfl := List.eq_of_mem_replicate member
    rfl
  have lines : ∀ line ∈ table.lines pair, Calm line.toList := by
    intro line member
    rcases List.mem_append.mp member with member | member
    · obtain ⟨column, listed, rfl⟩ := List.mem_map.mp member
      exact calm_columnLine pair (named column listed) (defaults column listed)
    · rw [Option.mem_toList, TableDefinition.keyLine?, Option.map_eq_some_iff] at member
      obtain ⟨index, _, rfl⟩ := member
      exact (kept_keyLine pair.target index).isCalm
  have indented : ∀ t ∈ ((table.lines pair).map
      (String.ofList (List.replicate indent ' ') ++ ·)).map String.toList, Calm t := by
    refine List.forall_mem_map.mpr (List.forall_mem_map.mpr fun line member => ?_)
    rw [String.toList_append, String.toList_ofList]
    exact blanks.before (lines line member)
  simp only [TableDefinition.toSql_eq, String.toList_append, String.toList_intercalate]
  have head : Kept "CREATE TABLE ".toList := kept_text (by decide)
  have opened : Kept " (\n".toList := kept_text (by decide)
  have closed : Kept "\n)".toList := kept_text (by decide)
  have front := (head.append (kept_quoteName pair.target table.name)).append opened
  have body := @calm_intercalate ',' ['\n'] (kept_text (by decide)) (by decide) _ indented
  exact (front.before body).join closed.isCalm (by decide)

theorem table_trimmed (pair : Pair) (indent : Nat) (table : TableDefinition) :
    Trimmed (table.toSql pair indent).toList := by
  refine trimmed_of_closed ⟨'C', ?_, rfl⟩ ?_
  · simp only [TableDefinition.toSql_eq, String.toList_append]
    rfl
  · rw [TableDefinition.toSql_eq, String.toList_append]
    exact (closed_end ')' rfl (by decide) ['\n']).behind _

/-! Queries. -/

theorem query_trimmed {f : String → String} (writes : WritesNames f) {select : Select}
    (wellFormed : select.WellFormed) : Trimmed (select.written f) := by
  refine trimmed_of_closed ⟨'S', ?_, rfl⟩ (closed_query writes wellFormed)
  rw [select_written]
  rfl

/-! Texts. -/

section Text

variable {pair : Pair} (source : pair.source = .mysql ∨ pair.source = .postgresql)
  (different : pair.target ≠ pair.source)

/-- Nothing in the quotes of the target looks like a name of the source or a literal, unless they are
the quotes of the source. -/
def Pair.Apart (pair : Pair) (s : List Char) : Prop :=
  pair.source.quote = pair.target.quote
    ∨ apartFrom pair.source.quote pair.target.quote none s = true

theorem quotes_cases (pair : Pair) (s : List Char) :
    TextRule.runAll (TextRule.quotes pair) s = s
      ∨ pair.source.quote ≠ pair.target.quote ∧ TextRule.runAll (TextRule.quotes pair) s
        = (Text.requote pair.source.quote pair.target.quote s).1 := by
  by_cases same : pair.source.quote = pair.target.quote
  · rw [TextRule.quotes, if_pos same]
    exact .inl rfl
  · rw [TextRule.quotes, if_neg same, TextRule.runAll_cons]
    exact .inr ⟨same, rfl⟩

theorem quotes_calm {s : List Char} (calm : Calm s) (apart : pair.Apart s) :
    Calm (TextRule.runAll (TextRule.quotes pair) s) := by
  rcases quotes_cases pair s with same | ⟨other, changed⟩
  · rwa [same]
  · have apart := apart.resolve_left other
    rw [changed]
    rcases List.mem_pair.mp (quote_nameQuote pair.source) with first | first <;>
      rcases List.mem_pair.mp (quote_nameQuote pair.target) with second | second <;>
      rw [first, second] at apart other ⊢ <;>
      first
        | exact absurd rfl other
        | exact requote_calm (by grind [isQuote]) (by decide) (by decide) calm apart

theorem quotes_begin {s : List Char} (begins : ∃ c, s.head? = some c ∧ Text.isBlank c = false) :
    ∃ c, (TextRule.runAll (TextRule.quotes pair) s).head? = some c ∧ Text.isBlank c = false := by
  have solid : ∀ dialect : Dialect, Text.isBlank dialect.quote = false ∧ dialect.quote ≠ '\x27' :=
    fun dialect => by cases dialect <;> decide
  rcases quotes_cases pair s with same | ⟨_, changed⟩
  · rwa [same]
  · rw [changed]
    by_cases named : s.head? = some pair.source.quote
    · obtain ⟨t, rfl⟩ := List.head?_eq_some_iff.mp named
      obtain ⟨d, w, written, kind⟩ :=
        @Text.requoteFrom_name_head pair.source.quote pair.target.quote [] t
      rw [Text.requote, Text.requoteFrom_code_cons, if_neg (solid pair.source).2, if_pos rfl, written]
      refine ⟨d, rfl, ?_⟩
      rcases kind with rfl | rfl
      · exact (solid pair.source).1
      · exact (solid pair.target).1
    · rw [Text.requote_head named]
      exact begins

include source different

theorem text_calm {s : List Char} (calm : Calm s) (trimmed : Trimmed s) (apart : pair.Apart s) :
    Calm (TextRule.runAll (TextRule.pipeline pair) s)
      ∧ Trimmed (TextRule.runAll (TextRule.pipeline pair) s) := by
  have known : isQuote pair.source.quote = true := nameQuote_quote (quote_nameQuote pair.source)
  have calmer : ∀ {s t}, Reworded s t → Calm s ∧ pair.Apart s → Calm t ∧ pair.Apart t :=
    fun reworded before => ⟨reworded.isCalm before.1,
      before.2.imp id (reworded.apart known isOpen_none)⟩
  have ended : Closed (TextRule.runAll (TextRule.pipeline pair) s) :=
    (converted_keepsEnd source different).closed (calm.ended trimmed)
  rw [pipeline_rules source different, TextRule.runAll_append, TextRule.runAll_append,
    TextRule.runAll_append] at ended ⊢
  have each {P : List Char → Prop} (keeps : ∀ {s t}, Reworded s t → P s → P t) (before : P s) :=
    TextRule.runAll_reworded keeps (TextRule.rowLimits_quiet pair)
      (TextRule.runAll_reworded keeps (TextRule.renames_quiet pair) before)
  have limited := each calmer ⟨calm, apart⟩
  have operators := TextRule.operators_quiet pair
  exact ⟨TextRule.runAll_reworded Reworded.isCalm operators (quotes_calm limited.1 limited.2),
    trimmed_of_closed (TextRule.runAll_reworded Reworded.begins operators
      (quotes_begin (each Reworded.begins trimmed.begins))) ended⟩

end Text

/-! Statements. -/

/-- Statements whose conversion writes nothing that a script reads in another way: those that stay
as they are, queries without doubled signs that are written anew, texts with nothing in the quotes of
the target that the text rules take for a name or a literal, and table definitions in which no type has
ended inside quotes. -/
inductive SourceStatement.StaysOne (pair : Pair) : SourceStatement → Prop
  | same {source : SourceStatement} (identity : pair.isIdentity = true) : StaysOne pair source
  | other (sql : String) : StaysOne pair ⟨sql, .other⟩
  | tree {sql : String} {select : Select} (source : pair.source = .tibero ∨ pair.source = .oracle)
      (single : ∀ inner, .negate (.negate inner) ∉ select.nodes) :
      StaysOne pair ⟨sql, .select select⟩
  | text {sql : String} {select : Select}
      (source : pair.source = .mysql ∨ pair.source = .postgresql) (apart : pair.Apart sql.toList) :
      StaysOne pair ⟨sql, .select select⟩
  | table {sql : String} {table : TableDefinition}
      (closes : ∀ column ∈ table.columns, column.TypeCloses) : StaysOne pair ⟨sql, .createTable table⟩

theorem convert_calm {pair : Pair} (options : Options) {sql : String} {statement : Statement}
    (calm : Calm sql.toList) (trimmed : Trimmed sql.toList)
    (read : SourceStatement.ofSql sql = .ok ⟨sql, statement⟩)
    (stays : SourceStatement.StaysOne pair ⟨sql, statement⟩) :
    Calm (SourceStatement.convert pair options ⟨sql, statement⟩).sql.toList
      ∧ Trimmed (SourceStatement.convert pair options ⟨sql, statement⟩).sql.toList := by
  cases identity : pair.isIdentity with
  | true =>
    rw [SourceStatement.convert, identity]
    exact ⟨calm, trimmed⟩
  | false =>
    have different : pair.target ≠ pair.source := by
      rintro same
      simp [Pair.isIdentity, same] at identity
    have converted : ∀ select, (SourceStatement.convert pair options ⟨sql, .select select⟩).sql
        = (select.convert pair sql).1 := by
      intro select
      rw [SourceStatement.convert, identity]
      rfl
    cases stays with
    | same same => exact absurd (same.symm.trans identity) (by decide)
    | other =>
      rw [SourceStatement.convert, identity]
      exact ⟨calm, trimmed⟩
    | @tree _ select source single =>
      obtain ⟨f, writes, wellFormed, signs, written⟩ :=
        convert_tree_written sql source (ofSql_wellFormed read) single
      rw [converted, written, String.toList_ofList]
      exact ⟨(kept_query writes wellFormed signs).isCalm, query_trimmed writes wellFormed⟩
    | @text _ select source apart =>
      rw [converted, convert_applied source, String.toList_ofList]
      exact text_calm source different calm trimmed apart
    | @table _ table closes =>
      have readTable := ofSql_table read
      rw [calm.statementBody trimmed] at readTable
      rw [converted_table_text different]
      exact ⟨calm_table pair options.ddlIndent (columns_isTypeName readTable)
        (columns_calm calm readTable closes), table_trimmed pair options.ddlIndent table⟩

/-- Where one statement is converted whose quotes are closed, one statement with closed quotes comes
out. -/
theorem converted_is_one_statement {pair : Pair} (options : Options) {sql : String}
    (one : splitStatements sql = [sql]) (closed : Nesting.quoteBehind none sql.toList = none)
    (stays : ∀ source, SourceStatement.ofSql sql = .ok source → source.StaysOne pair) :
    ∃ outcome, convertSql pair options sql = .ok outcome
      ∧ splitStatements outcome.sql = [outcome.sql]
      ∧ Nesting.quoteBehind none outcome.sql.toList = none := by
  have listed : sql ∈ splitStatements sql := by rw [one]; exact List.mem_singleton_self sql
  have trimmed := trimmed_statement listed
  obtain ⟨last, clear⟩ := (clear_statements sql).clear rfl (List.mem_map_of_mem listed)
  have calm := clear.calm closed
  have read : SourceStatement.ofSql sql = .ok ⟨sql, .ofText sql.toList⟩ := by
    rw [SourceStatement.ofSql, calm.statementBody trimmed]
    simp [trimmed.ne_nil]
  obtain ⟨changed, ends⟩ := convert_calm options calm trimmed read (stays _ read)
  exact ⟨_, by rw [convertSql, read]; rfl, split_clear changed ends, changed.closed⟩

def signed : Expr → Bool
  | .negate (.negate _) => true
  | _ => false

def treeStatement : String := "SELECT -\";`\""

def textStatement : String := "SELECT `;\"`, '`' LIMIT 2, 5"

def tableStatement : String := "CREATE TABLE t (a INT DEFAULT ';')"

theorem quotedStatements_one :
    (∃ outcome, convertSql ⟨.oracle, .mysql⟩ {} treeStatement = .ok outcome
        ∧ splitStatements outcome.sql = [outcome.sql]
        ∧ Nesting.quoteBehind none outcome.sql.toList = none)
      ∧ (∃ outcome, convertSql ⟨.mysql, .oracle⟩ {} textStatement = .ok outcome
        ∧ splitStatements outcome.sql = [outcome.sql]
        ∧ Nesting.quoteBehind none outcome.sql.toList = none)
      ∧ ∃ outcome, convertSql ⟨.mysql, .oracle⟩ {} tableStatement = .ok outcome
        ∧ splitStatements outcome.sql = [outcome.sql]
        ∧ Nesting.quoteBehind none outcome.sql.toList = none := by
  refine ⟨?_, ?_, ?_⟩
  · have query : (queryOf? treeStatement).map (fun select => select.nodes.any signed) = some false := by
      decide +kernel
    obtain ⟨select, read, single⟩ := read_of_queryOf? query
    refine converted_is_one_statement {} (by decide +kernel) (by decide +kernel) fun source found => ?_
    cases read.symm.trans found
    refine .tree (.inr rfl) fun inner member => ?_
    exact absurd rfl (List.any_eq_false.mp single _ member)
  · have query : (queryOf? textStatement).map (fun _ => ()) = some () := by decide +kernel
    obtain ⟨select, read, _⟩ := read_of_queryOf? query
    refine converted_is_one_statement {} (by decide +kernel) (by decide +kernel) fun source found => ?_
    cases read.symm.trans found
    exact .text (.inl rfl) (.inr (by decide +kernel))
  · have table : definitionOf? tableStatement = some
        { name := "t", indexes := []
          columns := [{ name := "a", type := { name := "INT" }, specs := ["DEFAULT ';'"] }] } := by
      decide +kernel
    refine converted_is_one_statement {} (by decide +kernel) (by decide +kernel) fun source found => ?_
    cases (read_of_definitionOf? table).symm.trans found
    exact .table (List.forall_mem_singleton.mpr fun _ _ _ => List.forall_mem_singleton.mpr (by decide))

/-- Two signs become a comment, which takes the rest of the statement with it. -/
theorem doubled_sign_is_comment :
    splitStatements "SELECT - -1 FROM t" = ["SELECT - -1 FROM t"]
      ∧ ((convertSql ⟨.oracle, .postgresql⟩ {} "SELECT - -1 FROM t").toOption.map
          fun outcome => splitStatements outcome.sql) = some ["SELECT"] := by
  decide +kernel

end SqlDialects
