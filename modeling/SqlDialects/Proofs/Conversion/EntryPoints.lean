import SqlDialects.Proofs.Grammar.Bodies
import SqlDialects.Proofs.Grammar.Progress

/-
One statement read as it stands and read out of a script, where its comments and separators are
gone. Queries and the heads of table definitions do not tell the two apart.
-/
namespace SqlDialects

open Reader Text

/-! The head of a definition. -/

theorem forward_tableHead {s : List Char} : Onward s 0 0 tableHead := by
  refine .bind forward_keyword fun _ => .bind (.option (.bind forward_keyword fun _ =>
    forward_keyword)) fun _ => .bind forward_keyword fun _ => .bind (n := 1) (.option (.bind
      forward_keyword fun _ => .bind forward_keyword fun _ => forward_keyword)) fun _ => ?_
  exact .bind (advances_dotted advances_namePart) fun _ => .bind (advances_symbol (by decide))
    fun _ => .pure _

/-! Gaps in front of a statement. -/

theorem keyword_behind {α : Type} (word : String) (f : Unit → Reader α) {m : List Char}
    (blank : ∀ c ∈ m, c ∈ gapBlanks) (s : List Char) :
    (keyword word >>= f) (m ++ s) = (keyword word >>= f) s := by
  have same : keyword word (m ++ s) = keyword word s := by
    simp only [keyword, gaps, bind, Reader.bind, skipGaps_blanks blank]
  simp only [bind, Reader.bind, same]

theorem query_behind {m : List Char} (blank : ∀ c ∈ m, c ∈ gapBlanks) (s : List Char) :
    query (m ++ s) = query s :=
  keyword_behind "SELECT" _ blank s

theorem tableHead_behind {m : List Char} (blank : ∀ c ∈ m, c ∈ gapBlanks) (s : List Char) :
    tableHead (m ++ s) = tableHead s :=
  keyword_behind "CREATE" _ blank s

/-! Statements without their comments. -/

/-- A statement that has neither semicolons in its text nor comments in the parts of a table
definition. Its blanks beside comments at either end are gaps. -/
structure CommentsApart (body left : List Char) : Prop where
  single : ScriptScan.code.pieces body = [left]
  blanks : ∀ c ∈ left.takeWhile isBlank ++ left.reverse.takeWhile isBlank, c ∈ gapBlanks
  table : ∀ name rest, tableHead body = .ok (name, rest) → ScriptScan.code.pieces rest = [rest]

theorem CommentsApart.split {body left : List Char} (apart : CommentsApart body left) :
    ∃ m n, left = m ++ trim left ++ n ∧ (∀ c ∈ m, c ∈ gapBlanks) ∧ ∀ c ∈ n, c ∈ gapBlanks := by
  obtain ⟨m, n, split, before, behind⟩ := trim_split left
  have front : left.takeWhile isBlank = m ++ (trim left ++ n).takeWhile isBlank := by
    conv_lhs => rw [split, List.append_assoc, List.takeWhile_append_of_pos before]
  have back : left.reverse.takeWhile isBlank = n.reverse ++ (m ++ trim left).reverse.takeWhile isBlank := by
    conv_lhs => rw [split, List.reverse_append, List.takeWhile_append_of_pos
      fun c member => behind c (List.mem_reverse.mp member)]
  refine ⟨m, n, split, fun c member => apart.blanks c ?_, fun c member => apart.blanks c ?_⟩
  · rw [front]
    simp [member]
  · rw [back]
    simp [member]

theorem uncommented_rest {s rest rest' : List Char} (later : Uncommented rest rest')
    (plain : ScriptScan.code.pieces rest = [rest]) (suffix : rest <:+ s)
    (ends : ∀ c, s.getLast? = some c → c ∉ gapBlanks) : rest' = rest := by
  obtain ⟨g, blank, strips⟩ := later
  have whole : rest = rest' ++ g := by
    have pieces := strips.pieces
    rw [plain] at pieces
    exact (List.cons.inj pieces).1
  cases g using List.reverseRecOn with
  | nil => rw [whole, List.append_nil]
  | append_singleton g c =>
    obtain ⟨t, rfl⟩ := suffix
    have last : (t ++ rest).getLast? = some c := by
      rw [whole, ← List.append_assoc, ← List.append_assoc, List.getLast?_concat]
    exact absurd (blank c (by simp)) (ends c last)

theorem table_uncommented {s w : List Char} (bare : Uncommented s w)
    (ends : ∀ c, s.getLast? = some c → c ∉ gapBlanks)
    (plain : ∀ name rest, tableHead s = .ok (name, rest) → ScriptScan.code.pieces rest = [rest]) :
    TableDefinition.ofText? s = TableDefinition.ofText? w := by
  rw [TableDefinition.ofText?, TableDefinition.ofText?]
  cases head : tableHead s with
  | ok result =>
    obtain ⟨rest', read, later⟩ := tableHead_uncommented.there s w result.1 result.2 bare head
    have same := uncommented_rest later (plain _ _ head) (Alike.leaves (fun _ => forward_tableHead) head)
      ends
    rw [read, same]
  | error stuck =>
    obtain ⟨stuck', failed⟩ := tableHead_uncommented.fails bare ⟨stuck, head⟩
    rw [failed]

theorem ofText_uncommented {s w : List Char} (bare : Uncommented s w)
    (ends : ∀ c, s.getLast? = some c → c ∉ gapBlanks)
    (plain : ∀ name rest, tableHead s = .ok (name, rest) → ScriptScan.code.pieces rest = [rest]) :
    Statement.ofText s = Statement.ofText w := by
  have tables := table_uncommented bare ends plain
  rw [Statement.ofText, Statement.ofText]
  cases read : query s with
  | ok result =>
    obtain ⟨select, rest⟩ := result
    obtain ⟨_, rfl⟩ := query_sound read
    rw [(query_uncommented bare select).mp read]
  | error stuck =>
    cases found : query w with
    | ok result =>
      obtain ⟨select, rest⟩ := result
      obtain ⟨_, rfl⟩ := query_sound found
      rw [(query_uncommented bare select).mpr found] at read
      cases read
    | error stuck' => rw [tables]

theorem ofText_behind {m : List Char} (blank : ∀ c ∈ m, c ∈ gapBlanks) (s : List Char) :
    Statement.ofText (m ++ s) = Statement.ofText s := by
  rw [Statement.ofText, Statement.ofText, query_behind blank, TableDefinition.ofText?,
    TableDefinition.ofText?, tableHead_behind blank]

theorem body_last (s : List Char) : ∀ c, (statementBody s).getLast? = some c → c ∉ gapBlanks := by
  intro c last blank
  have nonempty : trim (dropEndWhile (· == ';') (trim s)) ≠ [] := by
    intro empty
    rw [statementBody, empty] at last
    cases last
  obtain ⟨d, found, solid⟩ := (trimmed_trim nonempty).ends
  rw [← statementBody, last] at found
  rw [← Option.some.inj found] at solid
  simp only [gapBlanks, List.mem_cons, List.not_mem_nil, or_false] at blank
  rcases blank with rfl | rfl | rfl | rfl <;> exact absurd solid (by decide)

/-- A statement whose comments end is the same statement when it is read as it stands and when it is
the one statement of a script, where its comments and separators are gone. -/
theorem one_statement_read_alike {script text : String} {left : List Char}
    (tidy : ScriptScan.code.tidy script.toList = true) (one : splitStatements script = [text])
    (apart : CommentsApart (statementBody script.toList) left) :
    ∃ statement, SourceStatement.ofSql script = .ok ⟨script, statement⟩
      ∧ SourceStatement.ofSql text = .ok ⟨text, statement⟩ := by
  obtain ⟨strips, body, nonempty⟩ := body_of_split tidy one apart.single
  obtain ⟨m, n, split, before, behind⟩ := apart.split
  have bare : Uncommented (statementBody script.toList) (m ++ trim left) :=
    ⟨n, behind, by rwa [← split]⟩
  have full : statementBody script.toList ≠ [] := by
    intro empty
    rw [empty] at strips
    exact nonempty (by rw [strips.nil]; rfl)
  have same := ofText_uncommented bare (body_last _) apart.table
  rw [ofText_behind before] at same
  refine ⟨Statement.ofText (trim left), ?_, ?_⟩
  · simp [SourceStatement.ofSql, full, same]
  · simp [SourceStatement.ofSql, body, nonempty]

def commentedTable : String := "/* of */ CREATE TABLE -- the\n t (a INT DEFAULT '--') ;\n"

theorem commentedTable_apart : CommentsApart (statementBody commentedTable.toList)
    "  CREATE TABLE \n t (a INT DEFAULT '--')".toList where
  single := by decide
  blanks := by
    have around : "  CREATE TABLE \n t (a INT DEFAULT '--')".toList.takeWhile isBlank
        ++ "  CREATE TABLE \n t (a INT DEFAULT '--')".toList.reverse.takeWhile isBlank
          = [' ', ' '] := by decide
    rw [around]
    simp [gapBlanks]
  table name rest head := by
    have read : tableHead (statementBody commentedTable.toList)
        = .ok ("t", "a INT DEFAULT '--')".toList) := by decide +kernel
    rw [read] at head
    cases head
    decide

theorem commentedTable_read :
    splitStatements commentedTable = ["CREATE TABLE \n t (a INT DEFAULT '--')"]
    ∧ ∃ statement, SourceStatement.ofSql commentedTable = .ok ⟨commentedTable, statement⟩
      ∧ SourceStatement.ofSql "CREATE TABLE \n t (a INT DEFAULT '--')"
        = .ok ⟨"CREATE TABLE \n t (a INT DEFAULT '--')", statement⟩ := by
  have one : splitStatements commentedTable = ["CREATE TABLE \n t (a INT DEFAULT '--')"] := by
    decide
  exact ⟨one, one_statement_read_alike (by decide) one commentedTable_apart⟩

def columnSpecs (source : SourceStatement) : List (List String) :=
  match source.statement with
  | .createTable table => table.columns.map (·.specs)
  | _ => []

/-- Behind the head of a table definition, a comment is read as what follows the type. -/
theorem table_comment_is_kept :
    ScriptScan.code.tidy "CREATE TABLE t (a INT /* key */)".toList = true
      ∧ splitStatements "CREATE TABLE t (a INT /* key */)" = ["CREATE TABLE t (a INT  )"]
      ∧ ((SourceStatement.ofSql "CREATE TABLE t (a INT /* key */)").toOption.map columnSpecs)
        = some [["/*", "key", "*/"]]
      ∧ ((SourceStatement.ofSql "CREATE TABLE t (a INT  )").toOption.map columnSpecs) = some [[]] := by
  decide +kernel

-- Semicolons other than those at the end of the text are not taken off.
example : splitStatements ";SELECT 1" = ["SELECT 1"]
    ∧ (query (statementBody ";SELECT 1".toList)).toOption = none
    ∧ ((query "SELECT 1".toList).toOption.map fun found => found.1.items.length) = some 1 := by
  decide +kernel

-- A no-break space in front of a statement is no gap, so it stops the reader behind a comment.
example : splitStatements "/**/\xa0SELECT 1" = ["SELECT 1"]
    ∧ (query (statementBody "/**/\xa0SELECT 1".toList)).toOption.isSome = false := by
  decide +kernel

end SqlDialects
