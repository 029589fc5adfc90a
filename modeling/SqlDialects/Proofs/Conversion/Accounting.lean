import SqlDialects.Proofs.Conversion.Advisories
import SqlDialects.Proofs.Conversion.SortedSpecs
import SqlDialects.Proofs.Conversion.TableKeys

/-
What becomes of the parts of a table definition. Columns, specifications, scales, the first primary
key, the other indexes and the options are written or named in a warning. The modifiers in front of
and behind `TABLE` and every later primary key leave no trace.
-/
namespace SqlDialects

open Reader Spelling

def Outcome.Reports (outcome : Outcome) (message : String) : Prop :=
  ∃ warning ∈ outcome.warnings, warning.message = message

def Outcome.Writes (outcome : Outcome) (indent : Nat) (line : String) : Prop :=
  '\n' :: (List.replicate indent ' ' ++ line.toList) <:+: outcome.sql.toList

/-- What becomes of a clause: it is in the line of the column, it is a key of the table, or its
token is named with the others that are not written. A `NULL` need not be written. -/
def Clause.Accounted (pair : Pair) (table : TableDefinition) (outcome : Outcome) (column : Column) :
    Clause → Prop
  | .notNull _ _ => " NOT NULL".toList <:+: (column.line pair).toList
  | .default token => ' ' :: token.toList <:+: (column.line pair).toList
  | .primaryKey _ _ => { kind := "PRIMARY KEY", columns := [column.name] } ∈ table.indexes
  | .other token => ∃ tokens, token ∈ tokens ∧ outcome.Reports
      ("column " ++ column.name ++ ": '" ++ " ".intercalate tokens ++ "' not reproduced")
  | .null _ => True

structure Column.Accounted (pair : Pair) (indent : Nat) (table : TableDefinition) (outcome : Outcome)
    (column : Column) : Prop where
  line : outcome.Writes indent (column.line pair)
  specs : ∃ clauses : List Clause, clauses.flatMap Clause.tokens = column.specs
    ∧ ∀ clause ∈ clauses, clause.Fits ∧ clause.Accounted pair table outcome column
  scale : ∀ scale, column.type.scale = some scale →
    (∃ precision : UInt32, ("(" ++ toString precision.toNat ++ "," ++ toString scale.toNat ++ ")").toList
      <:+: (column.line pair).toList)
    ∨ outcome.Reports ("column " ++ column.name ++ ": scale " ++ toString scale.toNat ++ " of "
      ++ column.type.toSql ++ " not reproduced in " ++ (column.type.mapped pair).toSql)

def Index.label (index : Index) : String :=
  match index.name with
  | some name => index.kind ++ " " ++ name
  | none => index.kind ++ " (" ++ ", ".intercalate index.columns ++ ")"

structure TableDefinition.Accounted (pair : Pair) (indent : Nat) (table : TableDefinition)
    (outcome : Outcome) : Prop where
  columns : ∀ column ∈ table.columns, column.Accounted pair indent table outcome
  indexes : ∀ index ∈ table.indexes, index.isPrimaryKey = false →
    outcome.Reports (index.label ++ " on " ++ table.name ++ " not reproduced")
  key : ∀ index, table.indexes.find? Index.isPrimaryKey = some index → outcome.Writes indent
    ("PRIMARY KEY (" ++ ", ".intercalate (index.columns.map pair.target.quoteName) ++ ")")
  options : table.options ≠ [] →
    outcome.Reports ("table options '" ++ " ".intercalate table.options ++ "' dropped")

/-! Warnings and lines. -/

theorem reports_of_note {options : Options} (shown : options.includeInfo = true) {sql message : String}
    {notes : List Note} (kind : WarningKind) (listed : notReproduced kind message ∈ notes) :
    (Outcome.ofNotes options sql notes).Reports message :=
  ⟨_, Note.mem_warnings.mpr ⟨listed, fun _ => shown⟩, rfl⟩

theorem infix_intercalate {part : List Char} {parts : List (List Char)} (member : part ∈ parts) :
    '\n' :: part <:+: '\n' :: [',', '\n'].intercalate parts := by
  induction parts with
  | nil => cases member
  | cons first parts ih =>
    cases parts with
    | nil =>
      obtain rfl := List.mem_singleton.mp member
      simp
    | cons second others =>
      rw [List.intercalate_cons_cons]
      rcases List.mem_cons.mp member with rfl | later
      · refine List.IsPrefix.isInfix ⟨[',', '\n'] ++ [',', '\n'].intercalate (second :: others), ?_⟩
        simp
      · refine (ih later).trans (List.IsSuffix.isInfix ⟨'\n' :: (first ++ [',']), ?_⟩)
        simp

theorem writes_of_line {options : Options} {pair : Pair} {table : TableDefinition} {notes : List Note}
    {line : String} (listed : line ∈ table.lines pair) :
    (Outcome.ofNotes options (table.toSql pair options.ddlIndent) notes).Writes options.ddlIndent
      line := by
  have member : List.replicate options.ddlIndent ' ' ++ line.toList
      ∈ ((table.lines pair).map (String.ofList (List.replicate options.ddlIndent ' ') ++ ·)).map
        String.toList := by
    rw [List.map_map]
    exact List.mem_map.mpr ⟨line, listed, by simp⟩
  refine (infix_intercalate member).trans ?_
  rw [Outcome.ofNotes, TableDefinition.toSql_eq]
  simp only [String.toList_append, String.toList_intercalate]
  exact ⟨"CREATE TABLE ".toList ++ (pair.target.quoteName table.name).toList ++ [' ', '('],
    ['\n', ')'], by simp⟩

/-! Columns. -/

theorem table_unscaled (pair : Pair) : ∀ mapping ∈ TypeMapping.table pair,
    ∀ precision scale, mapping.parameters ≠ .fixed precision (some scale) := by
  have checked : ∀ source target : Dialect, (TypeMapping.table ⟨source, target⟩).all (fun mapping =>
      match mapping.parameters with
      | .fixed _ scale => scale.isNone
      | .keep | .keepOr _ | .drop => true) = true := by
    intro source target
    cases source <;> cases target <;> decide
  intro mapping member precision scale fixed
  have unscaled := List.all_eq_true.mp (checked pair.source pair.target) mapping member
  rw [fixed] at unscaled
  cases unscaled

theorem mapped_scale (pair : Pair) {type : DataType} {scale other : UInt32}
    (given : type.scale = some scale) (mapped : (type.mapped pair).scale = some other) :
    other = scale := by
  rw [DataType.mapped] at mapped
  split at mapped
  · next mapping found =>
    have unscaled := table_unscaled pair mapping (List.mem_of_find?_eq_some found)
    rw [TypeMapping.apply] at mapped
    split at mapped
    · exact Option.some.inj (mapped.symm.trans given)
    · exact Option.some.inj (mapped.symm.trans given)
    · cases mapped
    · next precision fixedScale fixed =>
      cases mapped
      exact absurd fixed (unscaled _ _)
  · exact Option.some.inj (mapped.symm.trans given)

theorem scale_written {type : DataType} {precision scale : UInt32} (first : type.precision = some precision)
    (second : type.scale = some scale) :
    ("(" ++ toString precision.toNat ++ "," ++ toString scale.toNat ++ ")").toList
      <:+: type.toSql.toList := by
  rw [DataType.toSql, first, second]
  exact ⟨type.name.toList, [], by simp⟩

theorem kept_written {pair : Pair} {column : Column} {text : String}
    (kept : text ∈ (Constraints.ofSpecs column.specs).kept) :
    ' ' :: text.toList <:+: (column.line pair).toList := by
  have inside : ' ' :: text.toList <:+: constraintsText (Constraints.ofSpecs column.specs).kept :=
    List.infix_of_mem_flatten (List.mem_map.mpr ⟨text, kept, rfl⟩)
  rw [line_text]
  refine inside.trans (List.IsSuffix.isInfix ⟨(pair.target.quoteName column.name).toList
    ++ (' ' :: (column.type.mapped pair).toSql.toList), by simp⟩)

/-! Keys of columns. -/

def TableDefinition.HasOwnKeys (table : TableDefinition) : Prop :=
  ∀ column ∈ table.columns, ∀ key ∈ column.ownKey, key ∈ table.indexes

theorem TableDefinition.HasOwnKeys.addElement {table result : TableDefinition} {element : List Char}
    (own : table.HasOwnKeys) (added : table.addElement? element = some result) :
    result.HasOwnKeys := by
  have alone : [element].foldlM TableDefinition.addElement? table = some result := by
    simpa using added
  obtain ⟨nonempty, ⟨index, read⟩ | ⟨other, column, read⟩⟩ := addElement_cases added
  · cases (yields_index nonempty read table).symm.trans alone
    intro column member key listed
    exact List.mem_append_left _ (own column (by simpa using member) key listed)
  · cases (yields_column nonempty other read table).symm.trans alone
    intro found member key listed
    rcases List.mem_append.mp member with earlier | last
    · exact List.mem_append_left _ (own found earlier key listed)
    · obtain rfl := List.mem_singleton.mp last
      exact List.mem_append_right _ listed

theorem TableDefinition.HasOwnKeys.addElements {table result : TableDefinition}
    {elements : List (List Char)} (own : table.HasOwnKeys)
    (added : elements.foldlM TableDefinition.addElement? table = some result) :
    result.HasOwnKeys := by
  induction elements generalizing table with
  | nil =>
    cases added
    exact own
  | cons element elements ih =>
    rw [List.foldlM_cons] at added
    obtain ⟨next, found, added⟩ := Option.bind_eq_some_iff.mp added
    exact ih (own.addElement found) added

theorem ofText_hasOwnKeys {s : List Char} {table : TableDefinition}
    (read : TableDefinition.ofText? s = some table) : table.HasOwnKeys := by
  rw [TableDefinition.ofText?] at read
  split at read
  · cases read
  · split at read
    · cases read
    · refine TableDefinition.HasOwnKeys.addElements (fun column member => ?_) read
      cases member

/-! The start of a definition. -/

/-- The modifiers of a definition, with the words between them, up to the name of the table. -/
inductive HeadText : Option Unit × Option Unit → List Char → List Char → Prop
  | mk {temporary conditional : Option Unit} {c g t i rest : List Char}
      (create : KeywordText "CREATE" () c (g ++ (t ++ (i ++ rest))))
      (global : Maybe (Behind (KeywordText "GLOBAL") (KeywordText "TEMPORARY")) temporary g
        (t ++ (i ++ rest)))
      (table : KeywordText "TABLE" () t (i ++ rest))
      (condition : Maybe (Behind (KeywordText "IF") (Behind (KeywordText "NOT") (KeywordText "EXISTS")))
        conditional i rest) :
      HeadText (temporary, conditional) (c ++ (g ++ (t ++ i))) rest

namespace Reader

def tableName : Reader String := do
  let parts ← path
  symbol "("
  pure (".".intercalate parts)

theorem path_dotted {names : List String} {g t rest : List Char} (gap : Gap g (t ++ rest))
    (named : Separated (ExactText ".") NameText names t rest) (ended : rest.head? ≠ some '.') :
    path (g ++ (t ++ rest)) = .ok (names, rest) := by
  have skipped : path (g ++ (t ++ rest))
      = separatedBy (exactly ".") namePart (skipGaps (g ++ (t ++ rest))) := rfl
  rw [skipped, gap]
  refine @complete_separatedBy _ _ _ NameText _ (fun _ => True) (fun rest => rest.head? ≠ some '.')
    (exactly ".") (ExactText ".") ?_ ?_ ?_ ?_ ?_ ?_ names t rest (Nat.le_refl _) named ended
  · rintro _ m rest rfl
    exact exactly_append "." rest
  · exact fun name t rest _ named _ => namePart_complete named
  · exact fun _ _ _ _ => trivial
  · exact fun _ _ => trivial
  · exact fun rest ended => bind_fails (exactly_fails_of_head rfl ended)
  · rintro _ m rest rfl
    decide

theorem if_named {w rest : List Char} (same : w.map Char.toUpper = "IF".toList) (ended : EndsWord rest) :
    NameText (String.ofList w) w rest := by
  have letters : ∀ c ∈ w, c.isAlpha = true := @capital_letters "IF" rfl w same
  refine .plain ⟨?_, fun c member => nameCharacter_of_isAlpha c (letters c member)⟩ ?_ ended
  · cases w with
    | nil => cases same
    | cons c w => exact ⟨c, rfl, nameStart_of_isAlpha c (letters c List.mem_cons_self)⟩
  · have upper : Text.upper (String.ofList w) = "IF" := by
      rw [Text.upper, String.toList_ofList, same]
      rfl
    have compared : Text.sameIgnoringCase (String.ofList w) = Text.sameIgnoringCase "IF" := by
      funext other
      rw [Text.sameIgnoringCase, upper]
      rfl
    rw [isReserved, compared]
    decide

theorem condition_fails {s rest : List Char} {name : String} (read : tableName s = .ok (name, rest)) :
    Fails (do keyword "IF"; keyword "NOT"; keyword "EXISTS") s := by
  cases condition : (do keyword "IF"; keyword "NOT"; keyword "EXISTS" : Reader Unit) s with
  | error stuck => exact ⟨stuck, condition⟩
  | ok result =>
    obtain ⟨_, middle, first, condition⟩ := bind_ok condition
    obtain ⟨_, last, second, _⟩ := bind_ok condition
    obtain ⟨_, rfl, negation⟩ := sound_keyword "NOT" rfl _ _ _ second
    obtain ⟨_, rfl, gap, same, ended⟩ := sound_keyword "IF" rfl _ _ _ first
    obtain ⟨c, begins, letter⟩ := keyword_front negation rfl (by decide)
    have undotted : ∀ u, front ('.' :: u) ≠ some c := by
      intro u dot
      rw [front, skipGaps_of_none _ (solid_of_head u (by decide))] at dot
      cases dot
      cases letter
    have named := path_dotted gap (.one (if_named same ended)) fun dot => by
      obtain ⟨u, split⟩ := List.head?_eq_some_iff.mp dot
      rw [split] at begins
      exact undotted u begins
    have unopened := @symbol_fails_of_keyword "NOT" "(" '(' _ _ _ negation rfl (by decide) rfl rfl
    rw [List.append_assoc, tableName, bind_of_ok named] at read
    exact absurd (bind_fails unopened) (not_fails_of_ok read)

theorem tableHead_sound {s rest : List Char} {name : String} (read : tableHead s = .ok (name, rest)) :
    ∃ modifiers t u, s = t ++ u ∧ HeadText modifiers t u ∧ tableName u = .ok (name, rest) := by
  obtain ⟨_, _, create, read⟩ := bind_ok read
  obtain ⟨temporary, _, global, read⟩ := bind_ok read
  obtain ⟨_, _, table, read⟩ := bind_ok read
  obtain ⟨conditional, u, condition, named⟩ := bind_ok read
  obtain ⟨c, rfl, first⟩ := sound_keyword "CREATE" rfl _ _ _ create
  obtain ⟨g, rfl, second⟩ := sound_option (sound_behind (sound_keyword "GLOBAL" rfl)
    (sound_keyword "TEMPORARY" rfl)) _ _ _ global
  obtain ⟨t, rfl, third⟩ := sound_keyword "TABLE" rfl _ _ _ table
  obtain ⟨i, rfl, fourth⟩ := sound_option (sound_behind (sound_keyword "IF" rfl)
    (sound_behind (sound_keyword "NOT" rfl) (sound_keyword "EXISTS" rfl))) _ _ _ condition
  exact ⟨_, _, u, by simp, .mk first second third fourth, named⟩

theorem tableHead_complete {modifiers : Option Unit × Option Unit} {t u rest : List Char} {name : String}
    (spelled : HeadText modifiers t u) (read : tableName u = .ok (name, rest)) :
    tableHead (t ++ u) = .ok (name, rest) := by
  cases spelled with
  | @mk temporary conditional c g t i u create global table condition =>
    have behind : ∀ {word next : String} {a : Unit} {t rest : List Char}, Capital word → Capital next →
        Behind (KeywordText word) (KeywordText next) a t rest →
        (do keyword word; keyword next : Reader Unit) (t ++ rest) = .ok (a, rest) := by
      rintro word next a t rest capital also ⟨_, m, v, rfl, first, second⟩
      rw [List.append_assoc, bind_of_ok (keyword_complete first capital)]
      exact keyword_complete second also
    have global_read := maybe_complete (fun _ _ _ => @behind "GLOBAL" "TEMPORARY" _ _ _ rfl rfl) global
      (bind_fails (keyword_fails_of_keyword "GLOBAL" table rfl rfl (by decide)))
    have condition_read : option (do keyword "IF"; keyword "NOT"; keyword "EXISTS") (i ++ u)
        = .ok (conditional, u) := by
      refine maybe_complete (fun a t rest spelled => ?_) condition (condition_fails read)
      obtain ⟨_, m, v, rfl, first, others⟩ := spelled
      rw [List.append_assoc, bind_of_ok (keyword_complete first rfl)]
      exact @behind "NOT" "EXISTS" _ _ _ rfl rfl others
    simp only [List.append_assoc]
    rw [tableHead, bind_of_ok (keyword_complete create rfl), bind_of_ok global_read,
      bind_of_ok (keyword_complete table rfl), bind_of_ok condition_read]
    exact read

theorem query_fails_head {modifiers : Option Unit × Option Unit} {t rest : List Char}
    (spelled : HeadText modifiers t rest) : Fails Reader.query (t ++ rest) ∧ t ≠ [] := by
  cases spelled with
  | mk create global table condition =>
    simp only [List.append_assoc]
    refine ⟨bind_fails (keyword_fails_of_keyword "SELECT" create rfl rfl (by decide)), ?_⟩
    exact List.append_ne_nil_of_left_ne_nil (keywordText_ne_nil (by decide) create) _

end Reader

theorem ofSql_modified {s : List Char} {table : TableDefinition}
    (read : TableDefinition.ofText? s = some table) :
    ∃ modifiers head rest, s = head ++ rest ∧ HeadText modifiers head rest
      ∧ ∀ other others head', HeadText others head' rest →
        statementBody other.toList = head' ++ rest →
        SourceStatement.ofSql other = .ok ⟨other, .createTable table⟩ := by
  cases found : tableHead s with
  | error stuck =>
    rw [TableDefinition.ofText?, found] at read
    cases read
  | ok result =>
    obtain ⟨modifiers, head, rest, rfl, spelled, named⟩ := tableHead_sound found
    refine ⟨modifiers, head, rest, rfl, spelled, fun other others head' spelled' body => ?_⟩
    have same : TableDefinition.ofText? (head' ++ rest) = some table := by
      rw [← read, TableDefinition.ofText?, TableDefinition.ofText?, found,
        tableHead_complete spelled' named]
    obtain ⟨⟨stuck, failed⟩, nonempty⟩ := query_fails_head spelled'
    have full : (head' ++ rest).isEmpty = false := by
      simp [nonempty]
    rw [SourceStatement.ofSql]
    simp only [body, full, Statement.ofText, failed, same]
    rfl

/-! Definitions. -/

theorem convert_definition {pair : Pair} (different : pair.target ≠ pair.source) (options : Options)
    (sql : String) (table : TableDefinition) :
    SourceStatement.convert pair options ⟨sql, .createTable table⟩
      = .ofNotes options (table.toSql pair options.ddlIndent) (table.notes pair) := by
  have distinct : pair.isIdentity = false := by simpa [Pair.isIdentity] using different.symm
  rw [SourceStatement.convert, distinct]
  rfl

theorem later_key_ignored {pair : Pair} {table : TableDefinition} {before between after : List Index}
    {key later : Index} (indexes : table.indexes = before ++ key :: (between ++ later :: after))
    (first : key.isPrimaryKey = true) (second : later.isPrimaryKey = true) (indent : Nat) :
    let other := { table with indexes := before ++ key :: (between ++ after) }
    other.toSql pair indent = table.toSql pair indent ∧ other.notes pair = table.notes pair := by
  intro other
  have found : other.indexes.find? Index.isPrimaryKey = table.indexes.find? Index.isPrimaryKey := by
    simp [other, indexes, first]
  have listed : other.indexes.filter (!·.isPrimaryKey) = table.indexes.filter (!·.isPrimaryKey) := by
    simp [other, indexes, first, second]
  constructor
  · have lines : other.lines pair = table.lines pair := by
      rw [TableDefinition.lines, TableDefinition.lines, TableDefinition.keyLine?, found,
        TableDefinition.keyLine?]
    rw [TableDefinition.toSql_eq, TableDefinition.toSql_eq, lines]
  · rw [TableDefinition.notes, TableDefinition.notes, listed]
    rfl

section Column

variable {pair : Pair} {options : Options} (shown : options.includeInfo = true) (sql : String)
  {table : TableDefinition} {column : Column} (member : column ∈ table.columns)
include shown member

theorem column_reports (kind : WarningKind) {message : String}
    (listed : notReproduced kind message ∈ column.notes pair) :
    (Outcome.ofNotes options sql (table.notes pair)).Reports message := by
  refine reports_of_note shown kind
    (List.mem_append_left _ (List.mem_append_left _ (List.mem_append_left _ ?_)))
  exact List.mem_flatMap.mpr ⟨column, member, listed⟩

theorem scale_accounted {scale : UInt32} (given : column.type.scale = some scale) :
    (∃ precision : UInt32, ("(" ++ toString precision.toNat ++ "," ++ toString scale.toNat ++ ")").toList
        <:+: (column.line pair).toList)
      ∨ (Outcome.ofNotes options sql (table.notes pair)).Reports
        ("column " ++ column.name ++ ": scale " ++ toString scale.toNat ++ " of "
          ++ column.type.toSql ++ " not reproduced in " ++ (column.type.mapped pair).toSql) := by
  by_cases missing : ((column.type.mapped pair).precision.isNone
      || (column.type.mapped pair).scale.isNone) = true
  · refine .inr (column_reports shown sql member .partialSupport
      (List.mem_append_left _ (List.mem_append_right _ ?_)))
    rw [Column.scaleNotes, given]
    simp only [missing, ↓reduceIte]
    exact List.mem_singleton_self _
  · simp only [Bool.or_eq_true, not_or, Option.isNone_iff_eq_none, Option.ne_none_iff_exists'] at missing
    obtain ⟨⟨precision, first⟩, other, second⟩ := missing
    obtain rfl := mapped_scale pair given second
    refine .inl ⟨precision, (scale_written first second).trans ?_⟩
    rw [line_text]
    exact ⟨(pair.target.quoteName column.name).toList ++ [' '],
      constraintsText (Constraints.ofSpecs column.specs).kept, by simp⟩

theorem clause_accounted (own : table.HasOwnKeys) {clause : Clause}
    (listed : clause ∈ Clause.ofSpecs column.specs) :
    clause.Accounted pair table (Outcome.ofNotes options sql (table.notes pair)) column := by
  obtain ⟨kept, discarded⟩ := Constraints.ofSpecs_clauses column.specs
  have written : ∀ {text}, clause.kept? = some text → ' ' :: text.toList <:+: (column.line pair).toList :=
    fun found => kept_written (kept ▸ List.mem_filterMap.mpr ⟨clause, listed, found⟩)
  cases clause with
  | notNull first second => exact @written "NOT NULL" rfl
  | default token => exact written rfl
  | primaryKey first second =>
    have key : hasPrimaryKey column.specs = true := by
      rw [hasPrimaryKey_clauses]
      exact List.any_eq_true.mpr ⟨_, listed, rfl⟩
    refine own column member _ ?_
    rw [Column.ownKey, if_pos key]
    exact List.mem_singleton_self _
  | null token => trivial
  | other token =>
    have dropped : token ∈ (Constraints.ofSpecs column.specs).discarded :=
      discarded ▸ List.mem_filterMap.mpr ⟨_, listed, rfl⟩
    refine ⟨_, dropped,
      column_reports shown sql member .unsupportedConstruct (List.mem_append_right _ ?_)⟩
    rw [Column.specNotes]
    simp [List.ne_nil_of_mem dropped]

theorem column_accounted (own : table.HasOwnKeys) :
    column.Accounted pair options.ddlIndent table
      (Outcome.ofNotes options (table.toSql pair options.ddlIndent) (table.notes pair)) where
  line := writes_of_line (List.mem_append_left _ (List.mem_map_of_mem member))
  specs := ⟨Clause.ofSpecs column.specs, Clause.ofSpecs_tokens _, fun clause listed =>
    ⟨Clause.ofSpecs_fits _ clause listed, clause_accounted shown _ member own listed⟩⟩
  scale _ given := scale_accounted shown _ member given

end Column

theorem table_accounted (pair : Pair) {options : Options} (shown : options.includeInfo = true)
    {table : TableDefinition} (own : table.HasOwnKeys) :
    table.Accounted pair options.ddlIndent
      (Outcome.ofNotes options (table.toSql pair options.ddlIndent) (table.notes pair)) where
  columns _ member := column_accounted shown member own
  indexes index member other := by
    refine reports_of_note shown .unsupportedConstruct
      (List.mem_append_left _ (List.mem_append_left _ (List.mem_append_right _ ?_)))
    exact List.mem_map.mpr ⟨index, List.mem_filter.mpr ⟨member, by simp [other]⟩, rfl⟩
  key index found := by
    refine writes_of_line (List.mem_append_right _ ?_)
    rw [TableDefinition.keyLine?, found]
    exact List.mem_singleton_self _
  options nonempty := by
    refine reports_of_note shown .unsupportedConstruct
      (List.mem_append_left _ (List.mem_append_right _ ?_))
    rw [TableDefinition.optionNotes]
    simp [nonempty]

/-- Every part of a definition that is read is written or named in a warning, but for two. A primary
key behind the first one may as well be missing, and so may the modifiers around `TABLE`. -/
theorem definition_accounted {pair : Pair} (different : pair.target ≠ pair.source) {options : Options}
    (shown : options.includeInfo = true) {sql : String} {table : TableDefinition}
    (read : SourceStatement.ofSql sql = .ok ⟨sql, .createTable table⟩) :
    ∃ outcome, convertSql pair options sql = .ok outcome
      ∧ table.Accounted pair options.ddlIndent outcome
      ∧ (∀ before key between later after,
        table.indexes = before ++ key :: (between ++ later :: after) →
        key.isPrimaryKey = true → later.isPrimaryKey = true →
        SourceStatement.convert pair options
          ⟨sql, .createTable { table with indexes := before ++ key :: (between ++ after) }⟩ = outcome)
      ∧ ∃ modifiers head rest, statementBody sql.toList = head ++ rest ∧ HeadText modifiers head rest
        ∧ ∀ other others head', HeadText others head' rest →
          statementBody other.toList = head' ++ rest → convertSql pair options other = .ok outcome := by
  have converted : ∀ {sql}, SourceStatement.ofSql sql = .ok ⟨sql, .createTable table⟩ →
      convertSql pair options sql
        = .ok (.ofNotes options (table.toSql pair options.ddlIndent) (table.notes pair)) := by
    intro sql read
    rw [convertSql, read, ← convert_definition different options sql table]
    rfl
  have text := ofSql_table read
  obtain ⟨modifiers, head, rest, split, spelled, alike⟩ := ofSql_modified text
  refine ⟨_, converted read, table_accounted pair shown (ofText_hasOwnKeys text), ?_,
    modifiers, head, rest, split, spelled, fun other others head' spelled' body => ?_⟩
  · intro before key between later after indexes first second
    obtain ⟨sql_eq, notes_eq⟩ := @later_key_ignored pair _ _ _ _ _ _ indexes first second options.ddlIndent
    rw [convert_definition different, sql_eq, notes_eq]
  · exact converted (alike other others head' spelled' body)

/-- A definition with both modifiers, two primary keys, a scale that is not written and parts that
are only named. -/
def modifiedText : String :=
  "CREATE GLOBAL TEMPORARY TABLE IF NOT EXISTS t (a NUMBER(5,2) NOT NULL DEFAULT 1 UNIQUE PRIMARY KEY, "
    ++ "b DATE(1,2), KEY k (b), PRIMARY KEY (b)) TABLESPACE x"

def modifiedTable : TableDefinition where
  name := "t"
  columns := [⟨"a", ⟨"NUMBER", some 5, some 2⟩, ["NOT", "NULL", "DEFAULT 1", "UNIQUE", "PRIMARY", "KEY"]⟩,
    ⟨"b", ⟨"DATE", some 1, some 2⟩, []⟩]
  indexes := [⟨"PRIMARY KEY", none, ["a"]⟩, ⟨"KEY", some "k", ["b"]⟩, ⟨"PRIMARY KEY", none, ["b"]⟩]
  options := ["TABLESPACE", "x"]

theorem modifiedTable_accounted :
    definitionOf? modifiedText = some modifiedTable
      ∧ ∃ outcome, convertSql ⟨.oracle, .mysql⟩ {} modifiedText = .ok outcome
        ∧ modifiedTable.Accounted ⟨.oracle, .mysql⟩ 4 outcome
        ∧ SourceStatement.convert ⟨.oracle, .mysql⟩ {} ⟨modifiedText, .createTable { modifiedTable with
          indexes := [⟨"PRIMARY KEY", none, ["a"]⟩, ⟨"KEY", some "k", ["b"]⟩] }⟩ = outcome := by
  have found : definitionOf? modifiedText = some modifiedTable := by decide +kernel
  obtain ⟨outcome, converted, accounted, ignored, _⟩ := @definition_accounted ⟨.oracle, .mysql⟩ (by decide)
    {} rfl _ _ (read_of_definitionOf? found)
  exact ⟨found, outcome, converted, accounted,
    ignored [] _ [⟨"KEY", some "k", ["b"]⟩] _ [] rfl (by decide) (by decide)⟩

/-- The condition and the second primary key are neither written nor named. -/
theorem second_key_dropped :
    (definitionOf? "CREATE TABLE IF NOT EXISTS t (a INT PRIMARY KEY, b INT, PRIMARY KEY (b))").map
        TableDefinition.indexes
        = some [⟨"PRIMARY KEY", none, ["a"]⟩, ⟨"PRIMARY KEY", none, ["b"]⟩]
      ∧ ((convertSql ⟨.mysql, .postgresql⟩ {}
          "CREATE TABLE IF NOT EXISTS t (a INT PRIMARY KEY, b INT, PRIMARY KEY (b))").toOption.map
            fun outcome => (outcome.sql, outcome.warnings))
        = some ("CREATE TABLE \"t\" (\n    \"a\" INTEGER,\n    \"b\" INTEGER,\n    PRIMARY KEY (\"a\")\n)",
          []) := by
  decide +kernel

end SqlDialects
