import SqlDialects.Proofs.Conversion.TableRoundTrip
import SqlDialects.Proofs.Grammar.Bodies
import SqlDialects.Proofs.Grammar.Progress
import SqlDialects.Proofs.Text.Letters

/-
The column names of a converted table definition. What is read of a definition can be written so that
it is read again, as long as what follows the types is balanced and no name has a dot, at which a
name is written in parts.
-/
namespace SqlDialects

open Reader Nesting

/-! Types. -/

theorem wordWhere_ok {test : String → Bool} {s rest : List Char} {name : String}
    (read : wordWhere test s = .ok (name, rest)) :
    bareWord s = .ok (name, rest) ∧ test name = true := by
  rw [wordWhere] at read
  split at read
  · next found =>
    split at read
    · next holds =>
      cases read
      exact ⟨found, holds⟩
    · cases read
  · cases read

theorem isTypeWord_upper {word : List Char} (shape : IsWord word) :
    isTypeWord (word.map Char.toUpper) = true := by
  obtain ⟨⟨c, first, start⟩, inside⟩ := shape
  have begins : (word.map Char.toUpper).head? = some c.toUpper := by rw [List.head?_map, first]; rfl
  simp only [isTypeWord, begins, Option.any_some, isNameStart_toUpper, start, Bool.true_and,
    Bool.and_eq_true, List.all_eq_true, beq_iff_eq]
  refine ⟨List.forall_mem_map.mpr fun d member => ?_, ?_⟩
  · rw [isNameCharacter_toUpper]
    exact inside d member
  · simp

theorem isTypeName_word {word : List Char} (typed : isTypeWord word = true) :
    isTypeName (String.ofList word) = true := by
  have absent : ' ' ∉ word := fun member => by
    cases (isTypeWord_shape typed).1.inside ' ' member
  rw [isTypeName, String.toList_ofList, Text.pieces_one absent]
  exact typed

theorem isTypeName_suffixed {word : List Char} {suffix : String} (typed : isTypeWord word = true)
    (listed : suffix ∈ typeSuffixes) :
    isTypeName (String.ofList word ++ " " ++ suffix) = true := by
  have absent : ' ' ∉ word := fun member => by
    cases (isTypeWord_shape typed).1.inside ' ' member
  have last : ' ' ∉ suffix.toList := fun member => by
    cases (isTypeWord_shape (typeSuffixes_shape listed).2).1.inside ' ' member
  have split : (String.ofList word ++ " " ++ suffix).toList = word ++ ' ' :: suffix.toList := by simp
  rw [isTypeName, split, Text.pieces_more absent, Text.pieces_one last]
  simp [typed, listed]

theorem dataType_isTypeName {s rest : List Char} {type : DataType}
    (read : dataType s = .ok (type, rest)) : isTypeName type.name = true := by
  obtain ⟨_, behind, _, read⟩ := bind_ok read
  obtain ⟨first, after, found, read⟩ := bind_ok read
  obtain ⟨second, middle, suffixed, read⟩ := bind_ok read
  obtain ⟨args, last, _, read⟩ := bind_ok read
  cases read
  obtain ⟨word, rfl, _, shape, _⟩ := bareWord_sound found
  have typed := isTypeWord_upper shape
  have upper : Text.upper (String.ofList word) = String.ofList (word.map Char.toUpper) := by
    rw [Text.upper, String.toList_ofList]
  cases second with
  | none =>
    simp only [upper]
    exact isTypeName_word typed
  | some suffix =>
    obtain ⟨_, start, _, checked⟩ := bind_ok (option_some suffixed)
    obtain ⟨known, listed, same⟩ := List.any_eq_true.mp (wordWhere_ok checked).2
    have capital := (isTypeWord_shape (typeSuffixes_shape listed).2).2
    rw [String.ofList_toList] at capital
    rw [Text.sameIgnoringCase, beq_iff_eq, capital] at same
    simp only [upper, same]
    exact isTypeName_suffixed typed listed

/-! What follows a type. -/

def isBalanced (token : String) : Bool := passes (· == ')') {} token.toList

theorem default_word {token : String} (same : Text.sameIgnoringCase token "DEFAULT" = true) :
    token.toList.map Char.toUpper = "DEFAULT".toList := by
  rw [Text.sameIgnoringCase, beq_iff_eq, Text.upper] at same
  have texts := congrArg String.toList same
  rw [String.toList_ofList] at texts
  exact texts.trans (by decide)

theorem joinDefaults_cases {tokens : List String} :
    ∀ token ∈ joinDefaults tokens, token ∈ tokens
      ∨ ∃ word value, Text.sameIgnoringCase word "DEFAULT" = true ∧ value ∈ tokens
        ∧ token = word ++ " " ++ value := by
  fun_induction joinDefaults tokens with
  | case1 => exact fun token member => nomatch member
  | case2 token => exact fun _ member => .inl member
  | case3 word value rest same ih =>
    intro token member
    rcases List.mem_cons.mp member with rfl | member
    · exact .inr ⟨word, value, same, by simp, rfl⟩
    · rcases ih token member with listed | ⟨word, value, same, listed, rfl⟩
      · exact .inl (by simp [listed])
      · exact .inr ⟨word, value, same, by simp [listed], rfl⟩
  | case4 word value rest other ih =>
    intro token member
    rcases List.mem_cons.mp member with rfl | member
    · exact .inl (by simp)
    · rcases ih token member with listed | ⟨word, value, same, listed, rfl⟩
      · exact .inl (.tail _ listed)
      · exact .inr ⟨word, value, same, .tail _ listed, rfl⟩

theorem joinDefaults_balanced {tokens : List String}
    (each : ∀ token ∈ joinDefaults tokens, isBalanced token = true) :
    ∀ token ∈ tokens, isBalanced token = true := by
  fun_induction joinDefaults tokens with
  | case1 => exact fun token member => nomatch member
  | case2 token => exact each
  | case3 word value rest same ih =>
    obtain ⟨joined, later⟩ := List.forall_mem_cons.mp each
    have flat : ∀ c ∈ word.toList ++ [' '], isFlat c = true ∧ (c == ')') = false := by
      intro c member
      rcases List.mem_append.mp member with member | member
      · obtain ⟨flat, free⟩ := flat_letter ((default_letters (default_word same)).2 c member)
        simp only [separates, Bool.or_eq_false_iff] at free
        exact ⟨flat, free.2⟩
      · obtain rfl := List.mem_singleton.mp member
        decide
    have balanced : isBalanced value = true := by
      have split : (word ++ " " ++ value).toList = (word.toList ++ [' ']) ++ value.toList := by simp
      rw [isBalanced, split] at joined
      exact passes_behind_flat (by simp) (fun c member => (flat c member).1) joined
    have first : isBalanced word = true :=
      passes_flat fun c member => flat c (List.mem_append_left _ member)
    exact List.forall_mem_cons.mpr ⟨first, List.forall_mem_cons.mpr ⟨balanced, ih later⟩⟩
  | case4 word value rest other ih =>
    obtain ⟨first, later⟩ := List.forall_mem_cons.mp each
    exact List.forall_mem_cons.mpr ⟨first, ih later⟩

theorem specTokens_balanced {s : List Char}
    (each : ∀ token ∈ specTokens s, isBalanced token = true) : passes (· == ')') {} s = true := by
  have closed : ∀ t ∈ tokens s, passes (· == ')') {} t = true := by
    intro t member
    have found := joinDefaults_balanced each (String.ofList t) (List.mem_map_of_mem member)
    rwa [isBalanced, String.toList_ofList] at found
  simpa using tokensFrom_balanced closed

theorem specTokens_fit {s : List Char} (through : passes (fun c => c == ',' || c == ')') {} s = true) :
    ∀ token ∈ specTokens s, "DEFAULT".toList.isPrefixOf (Text.upper token).toList = true →
      FitsLine token := by
  have each : ∀ token ∈ (tokens s).map String.ofList, token.toList ≠ []
      ∧ passes separates {} token.toList = true := by
    refine List.forall_mem_map.mpr fun t member => ?_
    obtain ⟨nonempty, passed⟩ := tokens_each through t member
    rw [String.toList_ofList]
    refine ⟨nonempty, passes_weaken (fun c free => ?_) passed⟩
    rwa [separates, Bool.or_assoc]
  intro token member begins
  rcases joinDefaults_cases token member with listed | ⟨word, value, same, listed, rfl⟩
  · obtain ⟨nonempty, passed⟩ := each token listed
    refine ⟨?_, passes_weaken separates_weaken passed, token_endsSolid nonempty passed⟩
    obtain ⟨c, t, split⟩ := List.exists_cons_of_ne_nil nonempty
    refine ⟨c, t, split, .inr ?_⟩
    rw [Text.upper, split, String.toList_ofList, String.toList_ofList, List.map_cons,
      List.isPrefixOf_iff_prefix, List.cons_prefix_cons] at begins
    exact begins.1.symm
  · obtain ⟨nonempty, passed⟩ := each value listed
    have default := DefaultText.mk (default_word same) nonempty passed
    have joined : word ++ " " ++ value = String.ofList (word.toList ++ ' ' :: value.toList) := by
      rw [← String.toList_inj]
      simp
    rw [joined]
    exact default.fitsLine

/-! Columns. -/

/-- A column that is read of an element can be written, if what follows its type is balanced. -/
theorem columnElement_writable {element : List Char} {column : Column}
    (through : passes (fun c => c == ',' || c == ')') {} element = true)
    (read : columnElement? element = some column)
    (balanced : ∀ token ∈ column.specs, isBalanced token = true) : column.Writable := by
  rw [columnElement?] at read
  split at read
  · cases read
  · next name rest named =>
    split at read
    · cases read
    · next type specs typed =>
      cases read
      refine ⟨dataType_isTypeName typed, fun text member => ?_⟩
      -- The scan of the element stands at the top where the tokens begin.
      have suffix := (Alike.leaves (fun _ => advances_dataType) typed).trans
        (Alike.leaves (fun _ => advances_identifier) named)
      obtain ⟨front, rfl⟩ := suffix
      obtain ⟨nesting, known, passed⟩ := passes_end (by simp) through
      have closed := specTokens_balanced balanced
      have top : nesting = {} := by
        refine passes_unique known (by simp) (passes_weaken (fun c free => ?_) passed) closed
        exact (Bool.or_eq_false_iff.mp free).2
      rw [top] at passed
      rcases constraint_cases (specTokens_fit passed) text member with rfl | fits
      · exact fitsLine_notNull
      · exact fits

/-! Keys. -/

theorem check_isPrimaryKey {index : Index} (check : index.kind = "CHECK") :
    index.isPrimaryKey = false := by
  rw [Index.isPrimaryKey, check]
  decide +kernel

theorem indexElement_key {element : List Char} {index : Index}
    (read : indexElement? element = some index) (primary : index.isPrimaryKey = true) :
    index.columns ≠ [] := by
  rw [indexElement?] at read
  split at read
  · next found =>
    cases read
    obtain ⟨_, _, _, found⟩ := bind_ok found
    obtain ⟨kind, _, _, found⟩ := bind_ok found
    obtain ⟨_, _, _, found⟩ := bind_ok found
    obtain ⟨columns, _, listed, found⟩ := bind_ok found
    cases columns with
    | none =>
      split at found
      · cases found
      · next check =>
        cases found
        have same : kind = "CHECK" := by simpa using check
        rw [check_isPrimaryKey same] at primary
        cases primary
    | some columns =>
      cases found
      obtain ⟨_, _, _, listed⟩ := bind_ok (option_some listed)
      obtain ⟨_, _, several, listed⟩ := bind_ok listed
      obtain ⟨_, _, _, listed⟩ := bind_ok listed
      cases listed
      obtain ⟨_, _, _, several⟩ := bind_ok several
      obtain ⟨_, _, _, several⟩ := bind_ok several
      cases several
      simp
  · cases read

/-! Definitions. -/

structure ReadOf (elements : List (List Char)) (table : TableDefinition) : Prop where
  columns : ∀ column ∈ table.columns, ∃ element ∈ elements, columnElement? element = some column
  keys : ∀ index ∈ table.indexes, index.isPrimaryKey = true → index.columns ≠ []

theorem ReadOf.addElement {elements : List (List Char)} {table result : TableDefinition}
    (soFar : ReadOf elements table) {element : List Char} (member : element ∈ elements)
    (added : table.addElement? element = some result) : ReadOf elements result := by
  rw [TableDefinition.addElement?] at added
  split at added
  · cases added
  · split at added
    · next index found =>
      cases added
      refine ⟨soFar.columns, fun other listed primary => ?_⟩
      rcases List.mem_append.mp listed with listed | listed
      · exact soFar.keys other listed primary
      · obtain rfl := List.mem_singleton.mp listed
        exact indexElement_key found primary
    · obtain ⟨column, found, rfl⟩ := Option.map_eq_some_iff.mp added
      refine ⟨fun other listed => ?_, fun other listed primary => ?_⟩
      · rcases List.mem_append.mp listed with listed | listed
        · exact soFar.columns other listed
        · obtain rfl := List.mem_singleton.mp listed
          exact ⟨element, member, found⟩
      · simp only at listed
        split at listed
        · rcases List.mem_append.mp listed with listed | listed
          · exact soFar.keys other listed primary
          · obtain rfl := List.mem_singleton.mp listed
            simp
        · exact soFar.keys other listed primary

theorem ReadOf.addElements {elements others : List (List Char)} {table result : TableDefinition}
    (soFar : ReadOf elements table) (listed : ∀ element ∈ others, element ∈ elements)
    (added : others.foldlM TableDefinition.addElement? table = some result) :
    ReadOf elements result := by
  induction others generalizing table with
  | nil =>
    cases added
    exact soFar
  | cons element others ih =>
    obtain ⟨first, later⟩ := List.forall_mem_cons.mp listed
    rw [List.foldlM_cons] at added
    obtain ⟨next, found, added⟩ := Option.bind_eq_some_iff.mp added
    exact ih (soFar.addElement first found) later added

theorem ofText_readOf {s : List Char} {table : TableDefinition}
    (read : TableDefinition.ofText? s = some table) :
    ∃ elements, ReadOf elements table
      ∧ ∀ element ∈ elements, passes (fun c => c == ',' || c == ')') {} element = true := by
  rw [TableDefinition.ofText?] at read
  split at read
  · cases read
  · split at read
    · cases read
    · next body tail cut =>
      refine ⟨_, ReadOf.addElements ⟨by simp, by simp⟩ (fun _ member => member) read, ?_⟩
      refine List.forall_mem_map.mpr fun piece member => ?_
      have passed := topLevelPieces_each (by decide) (cutAtClosing_balanced cut) piece member
      obtain ⟨m, n, split, before, behind⟩ := trim_split piece
      rw [split] at passed
      refine passes_behind_flat (by simp) (fun c member => flat_blank (before c member)) ?_
      exact passes_before_flat (by simp) (fun c member => flat_blank (behind c member)) passed

theorem ofText_writable {s : List Char} {table : TableDefinition}
    (read : TableDefinition.ofText? s = some table) (nonempty : table.columns ≠ [])
    (balanced : ∀ column ∈ table.columns, ∀ token ∈ column.specs, isBalanced token = true) :
    table.Writable := by
  obtain ⟨elements, readOf, through⟩ := ofText_readOf read
  refine ⟨nonempty, fun column member => ?_, fun index found => ?_⟩
  · obtain ⟨element, listed, found⟩ := readOf.columns column member
    exact columnElement_writable (through element listed) found (balanced column member)
  · exact readOf.keys index (List.mem_of_find?_eq_some found) (List.find?_some found)

/-! Names with dots. -/

theorem quoteName_dotted (d : Dialect) {name : String} (dotted : '.' ∈ name.toList) :
    ∃ first s, (d.quoteName name).toList = Text.enclose d.quote first ++ '.' :: s := by
  obtain ⟨first, second, others, pieces⟩ := Text.pieces_two dotted
  rw [quoteName_text, pieces, List.map_cons, List.map_cons, List.intercalate_cons_cons]
  exact ⟨first, _, by simp; rfl⟩

theorem addElement_dotted {pair : Pair} {column : Column} (dotted : '.' ∈ column.name.toList)
    (table : TableDefinition) : table.addElement? (column.line pair).toList = none := by
  obtain ⟨first, s, text⟩ := quoteName_dotted pair.target dotted
  generalize rest : s ++ (' ' :: ((column.type.mapped pair).toSql.toList
    ++ constraintsText (Constraints.ofSpecs column.specs).kept)) = after
  have closed : ('.' :: after).head? ≠ some pair.target.quote := by
    rcases quote_known pair.target with quote | quote <;> rw [quote] <;> simp
  have name := identifier_enclosed (quote_known pair.target) (.inl rfl) first closed
  have untyped : Fails dataType ('.' :: after) := by
    have skipped : gaps ('.' :: after) = .ok ((), '.' :: after) :=
      congrArg (fun s => Except.ok ((), s)) (skipGaps_of_none _ (solid_of_head after (by decide)))
    rw [Fails, dataType, bind_of_ok skipped]
    exact bind_fails ⟨'.' :: after, rfl⟩
  obtain ⟨stuck, failed⟩ := untyped
  have unread : columnElement? (column.line pair).toList = none := by
    rw [List.nil_append] at name
    rw [columnElement?, line_text, text, List.append_assoc, List.cons_append, rest, name]
    simp only [failed]
  rw [TableDefinition.addElement?, indexElement_line, unread]
  simp

theorem commas_dotted (d : Dialect) {names : List String}
    (dotted : ∃ name ∈ names, '.' ∈ name.toList) (tail : List Char) :
    ∃ (before : List String) (rest : List Char), before ≠ []
      ∧ commas (names.map fun name => (d.quoteName name).toList) ++ tail
        = commas (before.map fun name => Text.enclose d.quote name.toList) ++ '.' :: rest := by
  induction names with
  | nil =>
    obtain ⟨_, member, _⟩ := dotted
    cases member
  | cons name names ih =>
    by_cases here : '.' ∈ name.toList
    · obtain ⟨first, s, text⟩ := quoteName_dotted d here
      refine ⟨[String.ofList first], ?_⟩
      cases names <;> simp [text]
    · have later : ∃ name ∈ names, '.' ∈ name.toList := by simpa [here] using dotted
      obtain ⟨before, rest, nonempty, split⟩ := ih later
      obtain ⟨second, others, rfl⟩ := List.exists_cons_of_ne_nil
        (List.ne_nil_of_mem later.choose_spec.1)
      obtain ⟨head, more, rfl⟩ := List.exists_cons_of_ne_nil nonempty
      refine ⟨name :: head :: more, rest, by simp, ?_⟩
      simp only [List.map_cons, commas_more, quoteName_one d here] at split ⊢
      simp [split]

theorem addElement_dotted_key {pair : Pair} {index : Index}
    (dotted : ∃ name ∈ index.columns, '.' ∈ name.toList) {table result : TableDefinition}
    (added : table.addElement? ("PRIMARY KEY ("
      ++ ", ".intercalate (index.columns.map pair.target.quoteName) ++ ")").toList = some result) :
    ∃ column, result.columns = table.columns ++ [column] := by
  obtain ⟨before, rest, nonempty, split⟩ := commas_dotted pair.target dotted [')']
  obtain ⟨stuck, failed⟩ := index_dotted (quote_known pair.target) nonempty rest
  have unread : indexElement? ("PRIMARY KEY ("
      ++ ", ".intercalate (index.columns.map pair.target.quoteName) ++ ")").toList = none := by
    rw [indexElement?, key_text, split, failed]
  rw [TableDefinition.addElement?, unread] at added
  split at added
  · cases added
  · obtain ⟨column, _, rfl⟩ := Option.map_eq_some_iff.mp added
    exact ⟨column, rfl⟩

theorem ofSql_table {sql : String} {table : TableDefinition}
    (read : SourceStatement.ofSql sql = .ok ⟨sql, .createTable table⟩) :
    TableDefinition.ofText? (statementBody sql.toList) = some table := by
  rw [SourceStatement.ofSql] at read
  split at read
  · cases read
  · simp only [Except.ok.injEq, SourceStatement.mk.injEq, true_and, Statement.ofText] at read
    split at read
    · cases read
    · split at read
      · next found =>
        cases read
        exact found
      · cases read

theorem dotless_of_added {pair : Pair} {columns : List Column} {table result : TableDefinition}
    (added : (columns.map fun column => (column.line pair).toList).foldlM
      TableDefinition.addElement? table = some result) :
    ∀ column ∈ columns, '.' ∉ column.name.toList := by
  induction columns generalizing table with
  | nil => exact fun column member => nomatch member
  | cons column columns ih =>
    rw [List.map_cons, List.foldlM_cons] at added
    obtain ⟨next, found, later⟩ := Option.bind_eq_some_iff.mp added
    refine List.forall_mem_cons.mpr ⟨fun dotted => ?_, ih later⟩
    rw [addElement_dotted dotted] at found
    cases found

theorem dotless_of_written {pair : Pair} {table again : TableDefinition}
    (writable : table.Writable)
    (read : (table.lineTexts pair).foldlM TableDefinition.addElement?
      { name := table.name, columns := [], indexes := [], options := [] } = some again)
    (same : again.columns.map Column.name = table.columns.map Column.name) : table.Dotless := by
  rw [TableDefinition.lineTexts, List.foldlM_append] at read
  obtain ⟨middle, columns, key⟩ := Option.bind_eq_some_iff.mp read
  have dotless := dotless_of_added columns
  rw [addElements_columns writable.columns dotless] at columns
  cases columns
  refine ⟨dotless, fun index found name member dotted => ?_⟩
  rw [TableDefinition.keyLine?, found] at key
  obtain ⟨result, added, last⟩ := Option.bind_eq_some_iff.mp key
  cases last
  obtain ⟨column, more⟩ := addElement_dotted_key ⟨name, member, dotted⟩ added
  rw [more] at same
  simpa using congrArg List.length same

/-- A table definition in which what follows the types is balanced is converted to a definition whose
columns have the same names, exactly if neither the columns nor the columns of the key have dots in
their names. -/
theorem column_names_kept_iff {pair : Pair} (different : pair.target ≠ pair.source)
    (options : Options) {sql : String} {table : TableDefinition}
    (read : SourceStatement.ofSql sql = .ok ⟨sql, .createTable table⟩) (nonempty : table.columns ≠ [])
    (balanced : ∀ column ∈ table.columns, ∀ token ∈ column.specs, isBalanced token = true) :
    ∃ outcome, convertSql pair options sql = .ok outcome
      ∧ ((∃ again, SourceStatement.ofSql outcome.sql = .ok ⟨outcome.sql, .createTable again⟩
          ∧ again.columns.map Column.name = table.columns.map Column.name) ↔ table.Dotless) := by
  have writable := ofText_writable (ofSql_table read) nonempty balanced
  refine ⟨_, by rw [convertSql, read]; rfl, ?_⟩
  rw [converted_table_text different]
  constructor
  · rintro ⟨again, read, same⟩
    have written := ofSql_table read
    rw [statementBody_written writable, ofText_lines writable] at written
    exact dotless_of_written writable written same
  · intro dotless
    refine ⟨table.rewritten pair, ofSql_written pair options.ddlIndent writable dotless, ?_⟩
    simp [TableDefinition.rewritten, Column.rewritten]

def definitionOf? (sql : String) : Option TableDefinition :=
  match SourceStatement.ofSql sql with
  | .ok ⟨_, .createTable table⟩ => some table
  | _ => none

theorem read_of_definitionOf? {sql : String} {table : TableDefinition}
    (found : definitionOf? sql = some table) :
    SourceStatement.ofSql sql = .ok ⟨sql, .createTable table⟩ := by
  rw [definitionOf?] at found
  split at found
  · next text statement read =>
    cases found
    have same : text = sql := by
      rw [SourceStatement.ofSql] at read
      split at read
      · cases read
      · exact (SourceStatement.mk.inj (Except.ok.inj read)).1.symm
    rw [read, same]
  · cases found

def strangeNames : String :=
  "CREATE TABLE t (\x60a \"(,\x60 NUMBER(10) DEFAULT f(',', \"x\") NOT NULL, "
    ++ "\"b\x60\x60\n)\" INT PRIMARY KEY)"

def strangeTable : TableDefinition where
  name := "t"
  columns := [
    { name := "a \"(,", type := { name := "NUMBER", precision := some 10 },
      specs := ["DEFAULT f(',', \"x\")", "NOT", "NULL"] },
    { name := "b\x60\x60\n)", type := { name := "INT" }, specs := ["PRIMARY", "KEY"] }]
  indexes := [{ kind := "PRIMARY KEY", columns := ["b\x60\x60\n)"] }]

theorem strangeTable_dotless : strangeTable.Dotless where
  columns := by decide
  key index found := by
    have first : strangeTable.indexes.find? Index.isPrimaryKey
        = some { kind := "PRIMARY KEY", columns := ["b\x60\x60\n)"] } := by decide
    rw [first] at found
    cases found
    decide

theorem strange_names_kept :
    definitionOf? strangeNames = some strangeTable
      ∧ ∃ outcome, convertSql ⟨.oracle, .mysql⟩ {} strangeNames = .ok outcome
        ∧ ∃ again, SourceStatement.ofSql outcome.sql = .ok ⟨outcome.sql, .createTable again⟩
          ∧ again.columns.map Column.name = ["a \"(,", "b\x60\x60\n)"] := by
  have found : definitionOf? strangeNames = some strangeTable := by decide +kernel
  obtain ⟨outcome, converted, kept⟩ := @column_names_kept_iff ⟨.oracle, .mysql⟩ (by decide) {} _ _
    (read_of_definitionOf? found) (by decide) (by decide)
  exact ⟨found, outcome, converted, kept.mpr strangeTable_dotless⟩

/-- A dot in a quoted name is taken for one between names. -/
theorem dotted_name_split :
    (definitionOf? "CREATE TABLE t (\x60a.b\x60 INT)").map (fun table =>
        (table.columns.map Column.name, table.columns.flatMap Column.specs))
        = some (["a.b"], [])
      ∧ ((convertSql ⟨.mysql, .postgresql⟩ {} "CREATE TABLE t (\x60a.b\x60 INT)").toOption.map
          fun outcome => (outcome.sql, definitionOf? outcome.sql))
        = some ("CREATE TABLE \"t\" (\n    \"a\".\"b\" INTEGER\n)", none) := by
  decide +kernel

end SqlDialects
