import SqlDialects.Proofs.Conversion.OrderlyTexts

/-
The literals and the row limit of a converted text. Where the text of a query is orderly, the text that
comes out is read as a query with the same string literals, which asks for the same rows in the words
of the target.
-/
namespace SqlDialects

open Text

def Select.literals (select : Select) : List String := select.nodes.filterMap Expr.literal?

/-- Texts whose statement is orderly. -/
def Pair.OrderlyText (pair : Pair) : Type :=
  { sql : String // pair.isOrderly (statementBody sql.toList) = true }

section Text

variable {pair : Pair} (options : Options)
  (source : pair.source = .mysql ∨ pair.source = .postgresql)
  (different : pair.target ≠ pair.source) {sql : String} {select : Select}
  (read : SourceStatement.ofSql sql = .ok ⟨sql, .select select⟩)
  (orderly : pair.isOrderly (statementBody sql.toList) = true)
include source different read orderly

/-- The converted text of an orderly query has the string literals of the query. -/
theorem converted_text_literals : ∃ outcome found, convertSql pair options sql = .ok outcome
    ∧ SourceStatement.ofSql outcome.sql = .ok ⟨outcome.sql, .select found⟩
    ∧ found.literals = select.literals := by
  obtain ⟨outcome, found, converted, again, alike⟩ :=
    converted_read options source different read orderly
  exact ⟨outcome, found, converted, again, literals_found alike⟩

end Text

def guardedText : Pair.OrderlyText ⟨.mysql, .oracle⟩ :=
  ⟨"SELECT `a`, IFNULL(c, 'it''s IFNULL(') AS \"x\", '`LIMIT 1' LIMIT 2, 5;", by decide +kernel⟩

theorem guardedText_literals :
    ∃ outcome found, convertSql ⟨.mysql, .oracle⟩ {} guardedText.val = .ok outcome
      ∧ SourceStatement.ofSql outcome.sql = .ok ⟨outcome.sql, .select found⟩
      ∧ found.literals = ["it's IFNULL(", "`LIMIT 1"] := by
  have literals : (queryOf? guardedText.val).map Select.literals
      = some ["it's IFNULL(", "`LIMIT 1"] := by decide +kernel
  obtain ⟨select, read, same⟩ := read_of_queryOf? literals
  rw [← same]
  exact converted_text_literals {} (.inl rfl) (by decide) read guardedText.property

/-- An apostrophe in a quoted name is taken for the start of a literal, and what stands in the next
literal for code. -/
theorem apostrophe_changes_literal :
    (queryOf? "SELECT \"a'b\", 'IFNULL(x)' FROM t").map Select.literals = some ["IFNULL(x)"]
      ∧ ((convertSql ⟨.mysql, .postgresql⟩ {} "SELECT \"a'b\", 'IFNULL(x)' FROM t").toOption.bind
          fun outcome => (queryOf? outcome.sql).map Select.literals) = some ["COALESCE(x)"] := by
  decide +kernel

section Text

variable {pair : Pair} (options : Options)
  (source : pair.source = .mysql ∨ pair.source = .postgresql)
  (different : pair.target ≠ pair.source) {sql : String} {select : Select}
  (read : SourceStatement.ofSql sql = .ok ⟨sql, .select select⟩)
  (orderly : pair.isOrderly (statementBody sql.toList) = true)
include source different read orderly

/-- The converted text of an orderly query gives as many rows behind the same offset, with a count in
the clause of the target; only a fetch clause that is written without a count is left to MySQL. An
offset without a count is marked by `ROWS` where it was marked before. -/
theorem converted_text_page : ∃ outcome found, convertSql pair options sql = .ok outcome
    ∧ SourceStatement.ofSql outcome.sql = .ok ⟨outcome.sql, .select found⟩
    ∧ found.page.count = select.page.count ∧ found.page.offset = select.page.offset
    ∧ (pair.target = .tibero ∨ pair.target = .oracle → found.page.limit = none)
    ∧ (pair.target = .mysql → endsUncounted (statementBody sql.toList) = false →
      found.page.fetch = none)
    ∧ (select.page.count = none → found.page.offsetRows = select.page.offsetRows) := by
  obtain ⟨outcome, found, converted, again, alike⟩ :=
    converted_read options source different read orderly
  obtain ⟨count, offset, unlimited, unfetched, marked⟩ := alike.page
  refine ⟨outcome, found, converted, again, count, offset, fun target => unlimited ?_, unfetched, marked⟩
  rcases target with target | target <;> (rw [target]; rfl)

end Text

def fetchingText : Pair.OrderlyText ⟨.postgresql, .mysql⟩ :=
  ⟨"SELECT a FROM \"t LIMIT\" OFFSET 3 rows fetch Next 2 ROW only", by decide +kernel⟩

theorem fetchingText_page :
    ∃ outcome found, convertSql ⟨.postgresql, .mysql⟩ {} fetchingText.val = .ok outcome
      ∧ SourceStatement.ofSql outcome.sql = .ok ⟨outcome.sql, .select found⟩
      ∧ found.page.count = some 2 ∧ found.page.offset = some 3 ∧ found.page.fetch = none := by
  have page : (queryOf? fetchingText.val).map (fun select => (select.page.count, select.page.offset))
      = some (some 2, some 3) := by decide +kernel
  obtain ⟨select, read, same⟩ := read_of_queryOf? page
  obtain ⟨two, three⟩ := Prod.mk.inj same
  obtain ⟨outcome, found, converted, again, count, offset, _, unfetched, _⟩ :=
    @converted_text_page ⟨.postgresql, .mysql⟩ {} (.inr rfl) (by decide) _ _ read fetchingText.property
  exact ⟨outcome, found, converted, again, count.trans two, offset.trans three,
    unfetched rfl (by decide +kernel)⟩

/-- An offset without a count is not put in the row form of a target that has it. -/
theorem lone_offset_unmarked :
    ((convertSql ⟨.postgresql, .oracle⟩ {} "SELECT a FROM t OFFSET 5").toOption.bind
      fun outcome => (queryOf? outcome.sql).map Select.page)
      = some { offset := some 5, offsetRows := false } := by
  decide +kernel

end SqlDialects
