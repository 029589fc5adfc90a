import SqlDialects.Proofs.Conversion.Options
import SqlDialects.Proofs.Conversion.TreePath

/-
The row limit of a query that is converted as a tree. MySQL and PostgreSQL write the count of Tibero
and Oracle as a limit; the rows asked for stay the same, and they are read off the clause that is
written.
-/
namespace SqlDialects

open Reader

/-- A dialect that fetches the first rows on one side, a dialect with limits on the other. -/
theorem rowLimits_differ {pair : Pair} (source : pair.source = .tibero ∨ pair.source = .oracle)
    (target : pair.target = .mysql ∨ pair.target = .postgresql) :
    pair.source.rowLimit ≠ pair.target.rowLimit ∧ pair.target.rowLimit = .limit := by
  rcases source with source | source <;> rcases target with target | target <;>
    (rw [source, target]; decide)

/-! The page as a limit. -/

/-- The page with its count as a limit. A mark on the offset stays where the limit hides it. -/
def Page.asLimit (page : Page) : Page where
  limit := page.limit.or page.fetch
  offset := page.offset
  offsetRows := (page.limit.or page.fetch).isSome && page.offsetRows

section Page

variable {pair : Pair} (source : pair.source = .tibero ∨ pair.source = .oracle)
  (target : pair.target = .mysql ∨ pair.target = .postgresql) {page : Page}
include source target

theorem adapted_page_limits (wellFormed : page.WellFormed) : (page.adapted pair).1 = page.asLimit := by
  obtain ⟨different, limits⟩ := rowLimits_differ source target
  obtain ⟨limit, offset, fetch, rows⟩ := page
  rw [Page.adapted, if_neg different]
  cases limit with
  | some n =>
    obtain ⟨rfl, rfl⟩ := wellFormed.single rfl
    simp [Page.adaptCount, limits, Page.asLimit]
  | none =>
    cases fetch with
    | some n => simp [Page.adaptCount, limits, Page.asLimit]
    | none =>
      cases offset with
      | some m => simp [Page.adaptLoneOffset, limits, Page.asLimit]
      | none =>
        obtain rfl := wellFormed.offset rfl
        rfl

theorem adapted_page_read (wellFormed : page.WellFormed) :
    Reader.page (page.adapted pair).1.toSql.toList
      = .ok ({ limit := page.limit.or page.fetch, offset := page.offset }, []) := by
  have spelled := page_spelled (adapted_page_wellFormed pair wellFormed)
  rw [← page_written, Page.unmarked_toSql] at spelled
  have read := page_complete spelled (.inl rfl)
  rw [List.append_nil] at read
  rw [read, adapted_page_limits source target wellFormed]
  cases counted : page.limit.or page.fetch <;>
    simp [Page.asLimit, Page.unmarked, Page.asWritten, counted]

end Page

/-! The query around it. -/

theorem adapted_tree_page (pair : Pair) (select : Select) :
    (select.adapted pair).1
      = { ((select.adaptCalls pair).requoted pair.target).1 with
          page := (select.page.adapted pair).1 } := by
  simp only [Select.adapted, Select.requoted]
  split <;> rfl

theorem Note.warning_shown {options : Options} {notes : List Note} {warning : Warning}
    (member : .warn warning ∈ notes) (grave : warning.severity ≠ .info) :
    warning ∈ Note.warnings options notes :=
  List.mem_filterMap.mpr ⟨_, member, by simp [Note.warning?, grave]⟩

theorem loneOffset_warned {pair : Pair} (source : pair.source = .tibero ∨ pair.source = .oracle)
    (target : pair.target = .mysql) {select : Select} (offset : select.page.offset.isSome = true)
    (uncounted : select.page.limit.or select.page.fetch = none) (options : Options) (sql : String) :
    offsetWithoutLimit ∈ (SourceStatement.convert pair options ⟨sql, .select select⟩).warnings := by
  obtain ⟨different, _⟩ := rowLimits_differ source (.inl target)
  obtain ⟨m, found⟩ := Option.isSome_iff_exists.mp offset
  obtain ⟨unlimited, unfetched⟩ := Option.or_eq_none_iff.mp uncounted
  have noted : .warn offsetWithoutLimit ∈ (select.page.adapted pair).2 := by
    rw [Page.adapted, if_neg different]
    simp [found, unlimited, unfetched, Page.adaptLoneOffset, target]
  have shown : .warn offsetWithoutLimit ∈ (select.convert pair sql).2 := by
    have tree : select.convert pair sql = select.convertTree pair := by
      rcases source with source | source <;> (rw [Select.convert, source])
    rw [tree, Select.convertTree, Select.adapted]
    simp [noted]
  have distinct : pair.isIdentity = false := by
    rcases source with source | source <;> simp [Pair.isIdentity, source, target]
  rw [SourceStatement.convert_eq, SourceStatement.allNotes, distinct]
  exact Note.warning_shown shown (by decide)

/-- Queries are read with a page of one count, and a mark only on an offset without a limit. From
Tibero and Oracle to MySQL and PostgreSQL such a page gets its count as the limit and keeps its
offset, while the rest of the query is converted as if there were no page; the clause that is written
is read as the same count and offset, without a mark. In MySQL an offset alone is always warned
of. -/
theorem adapted_page_kept {pair : Pair} (source : pair.source = .tibero ∨ pair.source = .oracle)
    (target : pair.target = .mysql ∨ pair.target = .postgresql) :
    (∀ sql select, SourceStatement.ofSql sql = .ok ⟨sql, .select select⟩ → select.page.WellFormed)
      ∧ ∀ select : Select, select.page.WellFormed →
        (select.page.adapted pair).1.fetch = none
        ∧ (select.page.adapted pair).1.limit = select.page.limit.or select.page.fetch
        ∧ (select.page.adapted pair).1.offset = select.page.offset
        ∧ (select.adapted pair).1
          = { ((select.adaptCalls pair).requoted pair.target).1 with
              page := (select.page.adapted pair).1 }
        ∧ Reader.page (select.page.adapted pair).1.toSql.toList
          = .ok ({ limit := select.page.limit.or select.page.fetch
                   offset := select.page.offset
                   offsetRows := false }, [])
        ∧ (pair.target = .mysql → select.page.offset.isSome = true →
          select.page.limit.or select.page.fetch = none → ∀ options sql,
          offsetWithoutLimit
            ∈ (SourceStatement.convert pair options ⟨sql, .select select⟩).warnings) := by
  refine ⟨fun sql select read => (ofSql_wellFormed read).page, fun select wellFormed => ?_⟩
  have limits := adapted_page_limits source target wellFormed
  exact ⟨by rw [limits]; rfl, by rw [limits]; rfl, by rw [limits]; rfl,
    adapted_tree_page pair select, adapted_page_read source target wellFormed,
    fun mysql offset uncounted options sql =>
      loneOffset_warned source mysql offset uncounted options sql⟩

def lastPage : Select where
  items := [⟨.star none, none⟩]
  page := { offset := some 3, fetch := some 18446744073709551615, offsetRows := true }

theorem lastPage_kept :
    Reader.page (lastPage.page.adapted ⟨.oracle, .mysql⟩).1.toSql.toList
      = .ok ({ limit := some 18446744073709551615, offset := some 3 }, []) :=
  ((adapted_page_kept (.inr rfl) (.inl rfl)).2 lastPage ⟨nofun, nofun⟩).2.2.2.2.1

end SqlDialects
