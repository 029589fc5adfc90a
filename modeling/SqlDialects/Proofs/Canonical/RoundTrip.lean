import SqlDialects.Proofs.Canonical.Names
import SqlDialects.Proofs.Canonical.Query
import SqlDialects.Reader.Statement

/-
The canonical text of a query is a statement of its own, and reading it gives the query back. A
statement loses the blanks around it and the semicolons at its end; a canonical text has none.
-/
namespace SqlDialects

open Reader Spelling

def Closed (t : List Char) : Prop :=
  ∃ c, t.getLast? = some c ∧ Text.isBlank c = false ∧ c ≠ ';'

theorem closed_end (c : Char) (blank : Text.isBlank c = false) (other : c ≠ ';') (t : List Char) :
    Closed (t ++ [c]) :=
  ⟨c, List.getLast?_concat, blank, other⟩

theorem Closed.behind {u : List Char} (closed : Closed u) (t : List Char) : Closed (t ++ u) := by
  obtain ⟨c, last, kept⟩ := closed
  exact ⟨c, by simp [List.getLast?_append, last], kept⟩

theorem Closed.cons {u : List Char} (closed : Closed u) (c : Char) : Closed (c :: u) :=
  closed.behind [c]

theorem Closed.clause {t u : List Char} (closed : Closed t) (clause : u = [] ∨ Closed u) :
    Closed (t ++ u) := by
  rcases clause with rfl | ended
  · simpa using closed
  · exact ended.behind t

theorem closed_of_all {test : Char → Bool} {t : List Char} (nonempty : t ≠ [])
    (inside : ∀ c ∈ t, test c = true) (solid : ∀ c, test c = true → Text.isBlank c = false)
    (other : test ';' = false) : Closed t := by
  have member : t.getLast nonempty ∈ t := List.getLast_mem nonempty
  refine ⟨t.getLast nonempty, List.getLast?_eq_getLast_of_ne_nil nonempty,
    solid _ (inside _ member), fun same => ?_⟩
  rw [same] at member
  rw [inside _ member] at other
  cases other

theorem closed_word {w : List Char} (shape : IsWord w) : Closed w :=
  closed_of_all shape.ne_nil shape.inside (fun _ => not_blank_of_nameCharacter) rfl

theorem closed_digits {ds : List Char} (shape : IsDigits ds) : Closed ds :=
  closed_of_all shape.nonempty shape.inside
    (fun c digit => not_blank_of_nameCharacter (nameCharacter_of_isDigit c digit)) rfl

theorem closed_number {text : String} {t rest : List Char} (spelled : NumberText text t rest) :
    Closed t := by
  cases spelled with
  | whole digits _ _ => exact closed_digits digits
  | @fraction ds fs _ digits places _ =>
    cases fs with
    | nil => exact closed_end '.' rfl (by decide) ds
    | cons c fs => exact ((closed_digits ⟨List.cons_ne_nil c fs, places⟩).cons '.').behind ds

theorem closed_parameter {text : String} {t rest : List Char}
    (spelled : ParameterText text t rest) : Closed t := by
  cases spelled with
  | question => exact closed_end '?' rfl (by decide) []
  | named shape _ => exact (closed_word shape).cons ':'
  | numbered digits _ => exact (closed_digits digits).cons '$'

theorem closed_path {parts : List String} {t rest : List Char} (spelled : PathText parts t rest) :
    Closed t := by
  have part : ∀ {name : String} {t rest : List Char}, PartText name t rest → Closed t := by
    rintro name t rest (⟨known, _⟩ | ⟨shape, _, _⟩)
    · rcases known with rfl | rfl
      · exact closed_end '"' rfl (by decide) ('"' :: _)
      · exact closed_end '\x60' rfl (by decide) ('\x60' :: _)
    · exact closed_word shape
  induction spelled with
  | one found => exact part found
  | more _ _ _ ih => exact (ih.behind _).behind _

section Written

variable {f : String → String} (writes : WritesNames f)
include writes

theorem closed_name {parts : List String} (path : IsPath parts) :
    Closed (f (".".intercalate parts)).toList :=
  closed_path (writes parts [] path fun c first => by cases first)

theorem closed_expr {e : Expr} (wellFormed : e.WellFormed) : Closed (e.written f) := by
  induction wellFormed with
  | call path inside only ih =>
    rw [written_call]
    exact (((closed_end ')' rfl (by decide) _).behind _).cons _).behind _
  | bare part niladic =>
    exact closed_path (.one part)
  | column path other => exact closed_name writes path
  | number spelled => exact closed_number spelled
  | string value =>
    rw [written_string]
    exact closed_end '\x27' rfl (by decide) ('\x27' :: _)
  | null =>
    rw [written_null]
    exact closed_end 'L' rfl (by decide) "NUL".toList
  | star =>
    rw [written_star]
    exact closed_end '*' rfl (by decide) []
  | qualified path =>
    rw [written_qualified]
    exact (closed_end '*' rfl (by decide) ['.']).behind _
  | parameter spelled => exact closed_parameter spelled
  | group inside ih =>
    rw [written_group]
    exact closed_end ')' rfl (by decide) ('(' :: _)
  | not inside tight ih =>
    rw [written_not]
    exact (ih.cons ' ').behind _
  | negate inside tight ih =>
    rw [written_negate]
    exact ih.cons '-'
  | binary first second loose tight ihl ihr =>
    rw [written_binary]
    exact ((ihr.cons ' ').behind _).behind _
  | isNull inside tight ih =>
    rw [written_isNull]
    exact (((closed_end 'L' rfl (by decide) " NUL".toList).behind _).behind _).behind _
  | inList inside tight nonempty each ih _ =>
    rw [written_inList]
    exact ((((closed_end ')' rfl (by decide) _).behind _).behind _).behind _).behind _

theorem closed_alias {word : List Char} {alias? : Option String}
    (parts : ∀ name ∈ alias?, IsPart name) :
    aliasWritten f word alias? = [] ∨ Closed (aliasWritten f word alias?) := by
  cases alias? with
  | none => exact .inl rfl
  | some name =>
    have part := @part_spelled _ writes _ (parts name rfl) [] fun c first => by cases first
    exact .inr (((closed_path (.one part)).cons ' ').behind word)

theorem closed_tableRef {table : TableRef} (wellFormed : table.WellFormed) :
    Closed (table.written f) := by
  obtain ⟨parts, path, named⟩ := wellFormed.name
  rw [TableRef.written, named]
  exact (closed_name writes path).clause (closed_alias writes wellFormed.alias?)

theorem closed_condition {word : String} {condition : Option Expr}
    (wellFormed : ∀ e ∈ condition, e.WellFormed) :
    conditionWritten f word condition = [] ∨ Closed (conditionWritten f word condition) := by
  cases condition with
  | none => exact .inl rfl
  | some e => exact .inr (((closed_expr writes (wellFormed e rfl)).cons ' ').behind _)

theorem closed_joins {joins : List Join} (wellFormed : ∀ join ∈ joins, join.WellFormed) :
    (joins.map (Join.written f)).flatten = [] ∨ Closed (joins.map (Join.written f)).flatten := by
  induction joins with
  | nil => exact .inl rfl
  | cons join joins ih =>
    have shape := wellFormed join (by simp)
    have first : Closed (join.written f) :=
      (((closed_tableRef writes shape.table).clause (closed_condition writes shape.on?)).cons ' ').behind _
    exact .inr (first.clause (ih fun next member => wellFormed next (by simp [member])))

theorem closed_orderItem {item : OrderItem} (wellFormed : item.expr.WellFormed) :
    Closed (item.written f) := by
  refine (closed_expr writes wellFormed).clause ?_
  cases item.descending with
  | false => exact .inl rfl
  | true => exact .inr (closed_end 'C' rfl (by decide) " DES".toList)

omit writes in
theorem closed_commas {α : Type} {text : α → List Char} {as : List α} (nonempty : as ≠ [])
    (each : ∀ a ∈ as, Closed (text a)) : Closed (commas (as.map text)) := by
  induction as with
  | nil => exact absurd rfl nonempty
  | cons a as ih =>
    cases as with
    | nil => simpa using each a (by simp)
    | cons b as =>
      have tail := ih (by simp) fun found member => each found (by simp [member])
      rw [List.map_cons, List.map_cons, commas_more]
      exact ((tail.cons ' ').cons ',').behind _

omit writes in
theorem closed_list {α : Type} {text : α → List Char} {as : List α} (head : List Char)
    (each : ∀ a ∈ as, Closed (text a)) :
    listWritten head (as.map text) = [] ∨ Closed (listWritten head (as.map text)) := by
  cases as with
  | nil => exact .inl rfl
  | cons a as => exact .inr (((closed_commas (List.cons_ne_nil a as) each).cons ' ').behind head)

omit writes in
theorem closed_page (page : Page) : page.written = [] ∨ Closed page.written := by
  have count : ∀ n, Closed (countWritten n) := fun n => (closed_digits (count_digits n)).cons ' '
  have fetched : fetchWritten page.fetch = [] ∨ Closed (fetchWritten page.fetch) := by
    cases page.fetch with
    | none => exact .inl rfl
    | some n =>
      exact .inr ((((closed_end 'Y' rfl (by decide) " ROWS ONL".toList).behind _).behind _).behind _)
  rw [Page.written]
  cases page.limit with
  | some n =>
    cases page.offset with
    | none => exact .inr ((count n).behind _)
    | some m => exact .inr ((((count m).behind _).behind _).behind _)
  | none =>
    cases page.offset with
    | none => exact fetched
    | some m =>
      refine .inr (Closed.clause (((count m).clause ?_).behind _) fetched)
      split
      · exact .inr (closed_end 'S' rfl (by decide) " ROW".toList)
      · exact .inl rfl

theorem closed_query {select : Select} (wellFormed : select.WellFormed) :
    Closed (select.written f) := by
  rw [select_written]
  have items : Closed (commas (select.items.map (SelectItem.written f))) :=
    closed_commas wellFormed.nonempty fun item member =>
      (closed_expr writes (wellFormed.items item member).expr).clause
        (closed_alias writes (wellFormed.items item member).alias?)
  have tables := closed_list (' ' :: "FROM".toList) fun table member =>
    closed_tableRef writes (wellFormed.tables table member)
  have groups := closed_list (' ' :: "GROUP BY".toList) fun e member =>
    closed_expr writes (wellFormed.groupBy e member)
  have orders := closed_list (' ' :: "ORDER BY".toList) fun item member =>
    closed_orderItem writes (wellFormed.orderBy item member)
  have both : ∀ {t u : List Char}, t = [] ∨ Closed t → u = [] ∨ Closed u →
      t ++ u = [] ∨ Closed (t ++ u) := by
    rintro t u (rfl | first) second
    · exact second
    · exact .inr (first.clause second)
  refine (((items.cons ' ').clause ?_).behind _).behind _
  exact both tables (both (closed_joins writes wellFormed.joins)
    (both (closed_condition writes wellFormed.filter) (both groups
      (both (closed_condition writes wellFormed.having) (both orders (closed_page select.page))))))

end Written

/-! Statements. -/

theorem dropEndWhile_of_last {test : Char → Bool} {t : List Char} {c : Char}
    (last : t.getLast? = some c) (kept : test c = false) : Text.dropEndWhile test t = t := by
  rw [Text.dropEndWhile]
  cases found : t.reverse with
  | nil => simpa using congrArg List.reverse found
  | cons d u =>
    have same : d = c := by simpa [found] using List.head?_reverse.trans last
    rw [List.dropWhile_cons_of_neg (by simp [same, kept]), ← found, List.reverse_reverse]

theorem trim_closed {c : Char} {t : List Char} (solid : Text.isBlank c = false)
    (closed : Closed (c :: t)) : Text.trim (c :: t) = c :: t := by
  obtain ⟨d, last, blank, _⟩ := closed
  rw [Text.trim, Text.trimStart, List.dropWhile_cons_of_neg (by simp [solid])]
  exact dropEndWhile_of_last last blank

theorem statementBody_closed {c : Char} {t : List Char} (solid : Text.isBlank c = false)
    (closed : Closed (c :: t)) : statementBody (c :: t) = c :: t := by
  have trimmed := trim_closed solid closed
  obtain ⟨d, last, _, other⟩ := closed
  rw [statementBody, trimmed, dropEndWhile_of_last last (by simp [other]), trimmed]

/-- The canonical text of a well-formed query without doubled signs is a statement that is read as
the query. -/
theorem written_read {f : String → String} (writes : WritesNames f) {select : Select}
    (wellFormed : select.WellFormed) (single : ∀ x, .negate (.negate x) ∉ select.nodes) :
    SourceStatement.ofSql (String.ofList (select.written f))
      = .ok ⟨String.ofList (select.written f), .select select.asWritten⟩ := by
  have read : Reader.query (select.written f) = .ok (select.asWritten, []) :=
    query_complete (query_spelled writes wellFormed single)
  have closed := closed_query writes wellFormed
  obtain ⟨t, begins⟩ : ∃ t, select.written f = 'S' :: t := by
    rw [select_written]
    exact ⟨_, rfl⟩
  rw [begins] at read closed ⊢
  have body : statementBody ('S' :: t) = 'S' :: t := statementBody_closed rfl closed
  simp [SourceStatement.ofSql, body, Statement.ofText, read]

theorem ofSql_select {sql : String} {select : Select} :
    SourceStatement.ofSql sql = .ok ⟨sql, .select select⟩
      ↔ Reader.query (statementBody sql.toList) = .ok (select, []) := by
  constructor
  · intro read
    have found : Statement.ofText (statementBody sql.toList) = .select select := by
      rw [SourceStatement.ofSql] at read
      split at read
      · cases read
      · exact (SourceStatement.mk.inj (Except.ok.inj read)).2
    rw [Statement.ofText] at found
    split at found
    · next rest read => rw [read, Statement.select.inj found, (query_sound read).2]
    · split at found <;> cases found
  · intro read
    have nonempty : (statementBody sql.toList).isEmpty = false := by
      cases body : statementBody sql.toList with
      | nil =>
        rw [body] at read
        cases read
      | cons c t => rfl
    simp [SourceStatement.ofSql, nonempty, Statement.ofText, read]

def canonicalOf? (sql : String) : Option String :=
  match SourceStatement.ofSql sql with
  | .ok ⟨_, .select select⟩ => some select.toSql
  | _ => none

theorem read_of_canonicalOf? {sql text : String} (found : canonicalOf? sql = some text) :
    ∃ select, SourceStatement.ofSql sql = .ok ⟨sql, .select select⟩ ∧ select.toSql = text := by
  rw [canonicalOf?] at found
  split at found
  · next source select read =>
    have same : sql = source := by
      rw [SourceStatement.ofSql] at read
      split at read
      · cases read
      · exact (SourceStatement.mk.inj (Except.ok.inj read)).1
    subst same
    exact ⟨select, read, Option.some.inj found⟩
  · cases found

def queryOf? (sql : String) : Option Select :=
  match SourceStatement.ofSql sql with
  | .ok ⟨_, .select select⟩ => some select
  | _ => none

theorem read_of_queryOf? {sql : String} {α : Type} {view : Select → α} {value : α}
    (found : (queryOf? sql).map view = some value) :
    ∃ select, SourceStatement.ofSql sql = .ok ⟨sql, .select select⟩ ∧ view select = value := by
  obtain ⟨select, read, seen⟩ := Option.map_eq_some_iff.mp found
  have canonical : canonicalOf? sql = some select.toSql := by
    rw [queryOf?] at read
    rw [canonicalOf?]
    split at read
    · cases read
      rfl
    · cases read
  obtain ⟨again, readAgain, _⟩ := read_of_canonicalOf? canonical
  have same : again = select := by
    rw [queryOf?, readAgain] at read
    exact Option.some.inj read
  exact ⟨select, same ▸ readAgain, seen⟩

theorem ofSql_wellFormed {sql : String} {select : Select}
    (read : SourceStatement.ofSql sql = .ok ⟨sql, .select select⟩) : select.WellFormed :=
  query_wellFormed (query_sound (ofSql_select.mp read)).1

theorem Select.written_id (select : Select) : String.ofList (select.written id) = select.toSql := by
  rw [written, mapNames_id, String.ofList_toList]

theorem toSql_read {select : Select} (wellFormed : select.WellFormed)
    (single : ∀ x, .negate (.negate x) ∉ select.nodes) :
    SourceStatement.ofSql select.toSql = .ok ⟨select.toSql, .select select.asWritten⟩ := by
  rw [← select.written_id]
  exact written_read path_spelled wellFormed single

theorem Select.asWritten_toSql (select : Select) : select.asWritten.toSql = select.toSql := by
  have page : select.page.asWritten.toSql = select.page.toSql := by
    rw [Page.toSql, Page.toSql, Page.asWritten]
    cases select.page.limit <;> cases select.page.offset <;> cases select.page.fetch <;> simp
  exact congrArg (HAppend.hAppend _) page

/-- Reading the canonical text of a query that has been read gives the query back. The one
difference is that an offset in front of a fetch clause has its `ROWS` there, which does not show
in the text. -/
theorem canonical_text_reads_back {sql : String} {select : Select}
    (read : SourceStatement.ofSql sql = .ok ⟨sql, .select select⟩)
    (single : ∀ inner, .negate (.negate inner) ∉ select.nodes) :
    SourceStatement.ofSql select.toSql = .ok ⟨select.toSql, .select { select with
        page := { select.page with
          offsetRows := select.page.offsetRows
            || (select.page.offset.isSome && select.page.fetch.isSome) } }⟩
      ∧ Select.toSql { select with
        page := { select.page with
          offsetRows := select.page.offsetRows
            || (select.page.offset.isSome && select.page.fetch.isSome) } } = select.toSql := by
  have again := written_read path_spelled (ofSql_wellFormed read) single
  rw [Select.written, Select.mapNames_id, String.ofList_toList] at again
  exact ⟨again, select.asWritten_toSql⟩

def signedPage : Select where
  items := [⟨.negate (.number "1"), none⟩]
  page := { offset := some 3, fetch := some 2, offsetRows := true }

theorem signedPage_wellFormed : signedPage.WellFormed := by
  have digits : IsDigits ['1'] :=
    ⟨List.cons_ne_nil _ _, List.all_eq_true.mp (rfl : ['1'].all Char.isDigit = true)⟩
  have one : NumberText (String.ofList ['1']) ['1'] [] := .whole digits endsDigits_nil nofun
  exact oneItem_wellFormed (.negate (.number one) (by decide)) ⟨nofun, nofun⟩

theorem signedPage_single (inner : Expr) : .negate (.negate inner) ∉ signedPage.nodes := by
  simp [signedPage, Select.nodes, Select.exprs, Expr.nodes]

theorem signedPage_toSql :
    signedPage.toSql = "SELECT -1 OFFSET 3 ROWS FETCH FIRST 2 ROWS ONLY" := by
  decide

theorem signedPage_read :
    SourceStatement.ofSql signedPage.toSql = .ok ⟨signedPage.toSql, .select signedPage⟩ :=
  toSql_read signedPage_wellFormed signedPage_single

theorem signedPage_reads_back :
    SourceStatement.ofSql "SELECT -1 OFFSET 3 ROWS FETCH FIRST 2 ROWS ONLY"
      = .ok ⟨"SELECT -1 OFFSET 3 ROWS FETCH FIRST 2 ROWS ONLY", .select signedPage⟩ := by
  rw [← signedPage_toSql]
  exact (canonical_text_reads_back signedPage_read signedPage_single).1

end SqlDialects
