import SqlDialects.Proofs.Canonical.Spelled
import SqlDialects.Proofs.Grammar.QueryReading

/-
The canonical text of a well-formed query spells it, clause by clause. Every clause is missing or
begins with a blank and a capital letter, so it cannot be taken for more of what stands before it.
-/
namespace SqlDialects

open Reader Spelling

def ClauseText (t : List Char) : Prop := t = [] ∨ ∃ c u, t = ' ' :: c :: u ∧ c.isUpper = true

theorem clause_capital {c : Char} (capital : c.isUpper = true) (u : List Char) :
    ClauseText (' ' :: c :: u) :=
  .inr ⟨c, u, rfl, capital⟩

theorem ClauseText.append {t u : List Char} (first : ClauseText t) (second : ClauseText u) :
    ClauseText (t ++ u) := by
  rcases first with rfl | ⟨c, v, rfl, capital⟩
  · exact second
  · exact clause_capital capital (v ++ u)

theorem ClauseText.breaks {t : List Char} (clause : ClauseText t) : Breaks t := by
  rcases clause with rfl | ⟨c, u, rfl, capital⟩
  · exact breaks_nil
  · refine breaks_blank (solid_of_head u (Text.not_mem_of_all capital rfl)) fun first => ?_
    cases first
    cases capital

theorem clause_word (word : String) (capital : word.toList.head?.any Char.isUpper = true)
    (rest : List Char) : ClauseText (' ' :: word.toList ++ rest) := by
  cases found : word.toList with
  | nil => simp [found] at capital
  | cons c u => exact clause_capital (by simpa [found] using capital) (u ++ rest)

theorem condition_clause (f : String → String) (word : String)
    (capital : word.toList.head?.any Char.isUpper = true) (condition : Option Expr) :
    ClauseText (conditionWritten f word condition) := by
  cases condition with
  | none => exact .inl rfl
  | some e => exact clause_word word capital _

theorem list_clause (word : String) (capital : word.toList.head?.any Char.isUpper = true)
    (texts : List (List Char)) : ClauseText (listWritten (' ' :: word.toList) texts) := by
  rw [listWritten]
  split
  · exact .inl rfl
  · exact clause_word word capital _

theorem joins_clause (f : String → String) (joins : List Join) :
    ClauseText (joins.map (Join.written f)).flatten := by
  cases joins with
  | nil => exact .inl rfl
  | cons join joins =>
    rw [List.map_cons, List.flatten_cons, Join.written]
    cases join.kind <;> exact clause_capital rfl _

theorem fetch_clause (fetch : Option UInt64) : ClauseText (fetchWritten fetch) := by
  cases fetch with
  | none => exact .inl rfl
  | some n => exact clause_capital rfl _

theorem page_clause (page : Page) : ClauseText page.written := by
  rw [Page.written]
  cases page.limit with
  | some n => cases page.offset <;> exact clause_capital rfl _
  | none =>
    refine .append ?_ (fetch_clause page.fetch)
    cases page.offset with
    | none => exact .inl rfl
    | some m => exact clause_capital rfl _

/-! The rows asked for. -/

theorem count_digits (n : UInt64) : IsDigits (Page.countSql n).toList := decimal_digits n.toNat

theorem count_value (n : UInt64) : digitsValue (Page.countSql n).toList = n.toNat :=
  decimal_value n.toNat

theorem count_spelled (n : UInt64) {rest : List Char} (ended : EndsDigits rest) :
    CountText n (countWritten n) rest := by
  have solid : afterGap ((Page.countSql n).toList ++ rest) = none := by
    cases found : (Page.countSql n).toList with
    | nil => exact absurd found (count_digits n).nonempty
    | cons c ds =>
      have digit : c.isDigit = true := (count_digits n).inside c (by simp [found])
      exact solid_of_head _ (Text.not_mem_of_all digit rfl)
  have spelled : CountText (UInt64.ofNat (digitsValue (Page.countSql n).toList))
      ([' '] ++ (Page.countSql n).toList) rest :=
    .mk (gap_blank solid) (count_digits n) (by rw [count_value]; exact n.toNat_lt_size) ended
  rwa [count_value, UInt64.ofNat_toNat] at spelled

/-- The page as its canonical text is read: an offset in front of a fetch clause has its `ROWS`. -/
def Page.asWritten (page : Page) : Page :=
  { page with offsetRows := page.offsetRows || (page.offset.isSome && page.fetch.isSome) }

def Select.asWritten (select : Select) : Select := { select with page := select.page.asWritten }

theorem limit_spelled (n : UInt64) (offset : Option UInt64) :
    PageText { limit := some n, offset } (limitWritten n offset) [] := by
  cases offset with
  | none =>
    rw [limitWritten, ← List.append_nil (countWritten n)]
    exact .limit (keyword_spelled (.inr rfl) rfl (by decide) (endsWord_blank _))
      (count_spelled n endsDigits_nil) (.missing [])
  | some m =>
    refine .limit ?_ (count_spelled n (breaks_endsDigits (clause_capital rfl _).breaks))
      (.there ⟨(), ' ' :: "OFFSET".toList, _, rfl, ?_, count_spelled m endsDigits_nil⟩)
    · exact keyword_spelled (.inr rfl) rfl (by decide) (endsWord_blank _)
    · exact keyword_spelled (.inr rfl) rfl (by decide) (endsWord_blank _)

theorem offset_spelled (rows : Bool) (offset : Option UInt64) {rest : List Char}
    (clause : ClauseText rest) :
    Maybe OffsetText (offset.map fun m => (m, rows)) (offsetWritten rows offset) rest := by
  cases offset with
  | none => exact .missing rest
  | some m =>
    have marked : ClauseText (if rows then ' ' :: "ROWS".toList else []) := by
      cases rows with
      | false => exact .inl rfl
      | true => exact clause_capital rfl _
    refine .there (.mk (keyword_spelled (.inr rfl) rfl (by decide) (endsWord_blank _))
      (count_spelled m (breaks_endsDigits (marked.append clause).breaks)) ?_)
    cases rows with
    | false => exact .missing rest
    | true =>
      exact .there (a := ()) (.inl (keyword_spelled (.inr rfl) rfl (by decide)
        (breaks_endsWord clause.breaks)))

theorem fetch_spelled (fetch : Option UInt64) : Maybe FetchText fetch (fetchWritten fetch) [] := by
  cases fetch with
  | none => exact .missing []
  | some n =>
    refine .there (@FetchText.mk (some n) _ _ _ _ _ _ ?_ (.inl ?_)
      (.there (count_spelled n (breaks_endsDigits (clause_capital rfl _).breaks))) (.inl ?_) ?_)
    · exact keyword_spelled (.inr rfl) rfl (by decide) (endsWord_blank _)
    · exact keyword_spelled (.inr rfl) rfl (by decide) (endsWord_blank _)
    · exact keyword_spelled (.inr rfl) rfl (by decide) (endsWord_blank _)
    · exact keyword_spelled (.inr rfl) rfl (by decide) endsWord_nil

theorem page_spelled {page : Page} (wellFormed : page.WellFormed) :
    PageText page.asWritten page.written [] := by
  obtain ⟨limit, offset, fetch, rows⟩ := page
  cases limit with
  | some n =>
    obtain ⟨noFetch, noRows⟩ := wellFormed.single rfl
    cases noFetch
    cases noRows
    simpa [Page.written, Page.asWritten] using limit_spelled n offset
  | none =>
    have clause : ClauseText (fetchWritten fetch ++ []) := (fetch_clause fetch).append (.inl rfl)
    have spelled := PageText.offset (offset_spelled (fetch.isSome || rows) offset clause)
      (fetch_spelled fetch)
    cases offset with
    | none =>
      cases wellFormed.offset rfl
      simpa [Page.written, Page.asWritten, Page.ofOffset] using spelled
    | some m =>
      simpa [Page.written, Page.asWritten, Page.ofOffset, Bool.or_comm] using spelled

/-! Items, tables, joins and conditions. -/

section Clauses

variable {f : String → String} (writes : WritesNames f)
include writes

theorem anyExpr_spelled {e : Expr} (wellFormed : e.WellFormed)
    (single : ∀ x, .negate (.negate x) ∉ e.nodes) {g rest : List Char} (spaced : Spaced g)
    (breaks : Breaks rest) : AnyExprText e (g ++ e.written f) rest :=
  ⟨sizeOf e + 1, (expr_spelled writes wellFormed single (Nat.le_refl _) breaks).lower spaced
    (Nat.le_refl 1) e.level_bounds.1⟩

theorem part_spelled {name : String} (part : IsPart name) {rest : List Char}
    (ended : EndsName rest) : PartText name (f name).toList rest := by
  have spelled := writes [name] rest (isPath_one part) ended
  rw [String.intercalate_singleton] at spelled
  generalize (f name).toList = t at spelled ⊢
  cases spelled with
  | one part => exact part
  | more _ _ tail => nomatch tail

omit writes in
theorem part_solid {name : String} {t rest : List Char} (spelled : PartText name t rest) :
    afterGap (t ++ rest) = none := by
  obtain ⟨c, first, start⟩ := part_head spelled
  cases found : t ++ rest with
  | nil => rfl
  | cons d u =>
    rw [found] at first
    cases first
    refine solid_of_head u ?_
    rcases start with quote | start
    · simp only [List.mem_cons, List.not_mem_nil, or_false] at quote
      rcases quote with rfl | rfl <;> decide
    · exact Text.not_mem_of_all start rfl

theorem alias_spelled {alias? : Option String} (parts : ∀ name ∈ alias?, IsPart name)
    {as rest : List Char} {word : Option Unit}
    (optional : ∀ s, Maybe (KeywordText "AS") word as (' ' :: s)) (breaks : Breaks rest) :
    AliasText alias? (aliasWritten f as alias?) rest := by
  cases alias? with
  | none => exact .missing rest
  | some name =>
    have part := part_spelled writes (parts name rfl) (breaks_endsName breaks)
    exact .there (.mk (optional _) (gap_blank (part_solid part)) part)

theorem selectItem_spelled {item : SelectItem} (wellFormed : item.WellFormed)
    (single : ∀ x, .negate (.negate x) ∉ item.expr.nodes) {g rest : List Char} (spaced : Spaced g)
    (breaks : Breaks rest) : SelectItemText item (g ++ item.written f) rest := by
  have shown : AliasText item.alias? (aliasWritten f (' ' :: "AS".toList) item.alias?) rest :=
    alias_spelled writes wellFormed.alias?
      (fun s => .there (a := ()) (keyword_spelled (.inr rfl) rfl (by decide) (endsWord_blank s))) breaks
  have before : Breaks (aliasWritten f (' ' :: "AS".toList) item.alias? ++ rest) := by
    cases item.alias? with
    | none => exact breaks
    | some name => exact (clause_capital rfl _).breaks
  rw [SelectItem.written, ← List.append_assoc]
  exact .mk (anyExpr_spelled writes wellFormed.expr single spaced before) shown

theorem tableRef_spelled {table : TableRef} (wellFormed : table.WellFormed) {g rest : List Char}
    (spaced : Spaced g) (breaks : Breaks rest) :
    TableRefText table (g ++ table.written f) rest := by
  obtain ⟨name, alias?⟩ := table
  obtain ⟨⟨parts, path, rfl⟩, named⟩ := wellFormed
  have shown : AliasText alias? (aliasWritten f [] alias?) rest :=
    alias_spelled writes named (fun s => .missing _) breaks
  have ended : EndsName (aliasWritten f [] alias? ++ rest) := by
    cases alias? with
    | none => exact breaks_endsName breaks
    | some name =>
      intro c first
      cases first
      decide
  have spelled := writes parts _ path ended
  obtain ⟨name, u, v, split, part⟩ := path_head spelled
  have solid := part_solid part
  rw [← split] at solid
  rw [TableRef.written, ← List.append_assoc]
  exact .mk ⟨g, _, rfl, spaced.gap solid, spelled⟩ shown

theorem condition_spelled (word : String) (capital : Capital word) (nonempty : word.toList ≠ [])
    {condition : Option Expr} (wellFormed : ∀ e ∈ condition, e.WellFormed)
    (single : ∀ e ∈ condition, ∀ x, .negate (.negate x) ∉ e.nodes) {rest : List Char}
    (breaks : Breaks rest) :
    ConditionText word condition (conditionWritten f word condition) rest := by
  cases condition with
  | none => exact .missing rest
  | some e =>
    refine .there ⟨(), ' ' :: word.toList, _, rfl, ?_, anyExpr_spelled (g := [' ']) writes
      (wellFormed e rfl) (single e rfl) (.inr rfl) breaks⟩
    exact keyword_spelled (.inr rfl) capital nonempty (endsWord_blank _)

omit writes in
theorem joinKind_spelled (kind : JoinKind) (s : List Char) :
    JoinKindText kind (' ' :: kind.toSql.toList) (' ' :: s) := by
  have word : ∀ (word : String) (s : List Char), Capital word → word.toList ≠ [] →
      KeywordText word () ([' '] ++ word.toList) (' ' :: s) := fun _ s capital nonempty =>
    keyword_spelled (.inr rfl) capital nonempty (endsWord_blank s)
  have join : ∀ s, KeywordText "JOIN" () ([' '] ++ "JOIN".toList) (' ' :: s) := fun s =>
    word "JOIN" s rfl (by decide)
  cases kind with
  | inner => exact .inner (.missing _) (join s)
  | left => exact .outer (.head _) (word "LEFT" _ rfl (by decide)) (.missing _) (join s)
  | right =>
    exact .outer (.tail _ (.head _)) (word "RIGHT" _ rfl (by decide)) (.missing _) (join s)
  | full =>
    exact .outer (.tail _ (.tail _ (.head _))) (word "FULL" _ rfl (by decide)) (.missing _) (join s)
  | cross => exact .cross (word "CROSS" _ rfl (by decide)) (join s)

theorem join_spelled {join : Join} (wellFormed : join.WellFormed)
    (single : ∀ e ∈ join.on?, ∀ x, .negate (.negate x) ∉ e.nodes) {rest : List Char}
    (breaks : Breaks rest) : JoinText join (join.written f) rest := by
  have before : Breaks (conditionWritten f "ON" join.on? ++ rest) := by
    cases join.on? with
    | none => exact breaks
    | some e => exact (clause_capital rfl _).breaks
  exact .mk (joinKind_spelled join.kind _)
    (tableRef_spelled writes wellFormed.table (.inr rfl) before)
    (condition_spelled writes "ON" rfl (by decide) wellFormed.on? single breaks)

theorem joins_spelled {joins : List Join} (wellFormed : ∀ join ∈ joins, join.WellFormed)
    (single : ∀ join ∈ joins, ∀ e ∈ join.on?, ∀ x, .negate (.negate x) ∉ e.nodes)
    {rest : List Char} (clause : ClauseText rest) :
    Many JoinText joins (joins.map (Join.written f)).flatten rest := by
  induction joins with
  | nil => exact .none rest
  | cons join joins ih =>
    refine .more (join_spelled writes (wellFormed join (by simp)) (single join (by simp)) ?_)
      (ih (fun next member => wellFormed next (by simp [member]))
        (fun next member => single next (by simp [member])))
    exact ((joins_clause f joins).append clause).breaks

theorem orderItem_spelled {item : OrderItem} (wellFormed : item.expr.WellFormed)
    (single : ∀ x, .negate (.negate x) ∉ item.expr.nodes) {g rest : List Char} (spaced : Spaced g)
    (breaks : Breaks rest) : OrderItemText item (g ++ item.written f) rest := by
  obtain ⟨e, descending⟩ := item
  rw [OrderItem.written, ← List.append_assoc]
  cases descending with
  | false =>
    exact @OrderItemText.mk _ none _ _ _ (anyExpr_spelled writes wellFormed single spaced breaks)
      (.missing rest)
  | true =>
    refine @OrderItemText.mk _ (some true) _ _ _ (anyExpr_spelled writes wellFormed single spaced
      (clause_capital rfl _).breaks) (.there (.descending ?_))
    exact keyword_spelled (.inr rfl) rfl (by decide) (breaks_endsWord breaks)

end Clauses

theorem list_spelled {α : Type} {head : Spelling Unit} {item : Spelling α} {h : List Char}
    {text : α → List Char} {as : List α} (mark : ∀ s, head () h (' ' :: s))
    (each : ∀ a ∈ as, ∀ g rest, Spaced g → Breaks rest → item a (g ++ text a) rest)
    {rest : List Char} (breaks : Breaks rest) :
    ListText head item as (listWritten h (as.map text)) rest := by
  cases as with
  | nil => exact .missing rest
  | cons a as =>
    exact .there (mark _) (commas_spelled (g := [' ']) (List.cons_ne_nil a as) each (.inr rfl) breaks)

theorem words_spelled (one other : String) (capital : Capital one) (nonempty : one.toList ≠ [])
    (next : Capital other) (more : other.toList ≠ []) (s : List Char) :
    WordsText one other () (' ' :: one.toList ++ ' ' :: other.toList) (' ' :: s) :=
  ⟨(), ' ' :: one.toList, ' ' :: other.toList, rfl,
    keyword_spelled (.inr rfl) capital nonempty (endsWord_blank _),
    keyword_spelled (.inr rfl) next more (endsWord_blank s)⟩

/-- The canonical text of a well-formed query without doubled signs spells it, whatever quotes its
names are written in. -/
theorem query_spelled {f : String → String} (writes : WritesNames f) {select : Select}
    (wellFormed : select.WellFormed) (single : ∀ x, .negate (.negate x) ∉ select.nodes) :
    QueryText select.asWritten (select.written f) := by
  have each : ∀ e : Expr, _ → ∀ x, .negate (.negate x) ∉ e.nodes := fun e member x found =>
    single x (List.mem_flatMap.mpr ⟨e, Select.mem_exprs.mpr member, found⟩)
  have page := (page_clause select.page).append (.inl rfl)
  have orders :=
    (list_clause "ORDER BY" rfl (select.orderBy.map (OrderItem.written f))).append page
  have havings := (condition_clause f "HAVING" rfl select.having).append orders
  have groups := (list_clause "GROUP BY" rfl (select.groupBy.map (Expr.written f))).append havings
  have filters := (condition_clause f "WHERE" rfl select.filter).append groups
  have joins := (joins_clause f select.joins).append filters
  have tables := (list_clause "FROM" rfl (select.tables.map (TableRef.written f))).append joins
  rw [select_written, ← List.append_nil select.page.written]
  refine @QueryText.mk select.asWritten _ _ _ _ _ _ _ _ _ _ _ ?_ ?_ ?_ ?_ ?_ ?_ ?_ ?_ ?_
    (page_spelled wellFormed.page)
    (gap_none solid_nil)
  · refine keyword_spelled (.inl rfl) rfl (by decide) ?_
    cases select.distinct <;> exact endsWord_blank _
  · show Present _ select.distinct _ _
    cases select.distinct with
    | false => exact .missing _
    | true =>
      exact .there (a := ()) (keyword_spelled (.inr rfl) rfl (by decide) (endsWord_blank _))
  · refine commas_spelled (g := [' ']) wellFormed.nonempty (fun item member g rest spaced breaks => ?_)
      (.inr rfl) tables.breaks
    exact selectItem_spelled writes (wellFormed.items item member)
      (each _ (.inl ⟨item, member, rfl⟩)) spaced breaks
  · exact @list_spelled _ (KeywordText "FROM") _ _ _ _
      (fun s => keyword_spelled (.inr rfl) rfl (by decide) (endsWord_blank s))
      (fun table member g rest => tableRef_spelled writes (wellFormed.tables table member)) _
        joins.breaks
  · exact joins_spelled writes wellFormed.joins
      (fun join member e found => each e (.inr (.inl ⟨join, member, found⟩))) filters
  · exact condition_spelled writes "WHERE" rfl (by decide) wellFormed.filter
      (fun e member => each e (.inr (.inr (.inl member)))) groups.breaks
  · exact list_spelled (words_spelled "GROUP" "BY" rfl (by decide) rfl (by decide))
      (fun e member g rest => anyExpr_spelled writes (wellFormed.groupBy e member)
        (each e (.inr (.inr (.inr (.inl member)))))) havings.breaks
  · exact condition_spelled writes "HAVING" rfl (by decide) wellFormed.having
      (fun e member => each e (.inr (.inr (.inr (.inr (.inl member)))))) orders.breaks
  · exact list_spelled (words_spelled "ORDER" "BY" rfl (by decide) rfl (by decide))
      (fun item member g rest => orderItem_spelled writes (wellFormed.orderBy item member)
        (each _ (.inr (.inr (.inr (.inr (.inr ⟨item, member, rfl⟩))))))) page.breaks

end SqlDialects
