import SqlDialects.Proofs.Grammar.Expression
import SqlDialects.Reader.Query

/-
The written form of queries, clause by clause, and that whatever is read as a query was written so.
-/
namespace SqlDialects

open Reader Spelling

def AnyExprText : Spelling Expr := fun e t rest => ∃ depth, ExprText depth e t rest

inductive NewNameText : String → List Char → List Char → Prop
  | mk {word : Option Unit} {name : String} {as g t rest : List Char}
      (optional : Maybe (KeywordText "AS") word as (g ++ (t ++ rest)))
      (gap : Gap g (t ++ rest)) (part : PartText name t rest) :
      NewNameText name (as ++ (g ++ t)) rest

def AliasText : Spelling (Option String) := Maybe NewNameText

inductive SelectItemText : SelectItem → List Char → List Char → Prop
  | mk {e : Expr} {name : Option String} {t u rest : List Char} (value : AnyExprText e t (u ++ rest))
      (shown : AliasText name u rest) : SelectItemText ⟨e, name⟩ (t ++ u) rest

inductive TableRefText : TableRef → List Char → List Char → Prop
  | mk {parts : List String} {name : Option String} {t u rest : List Char}
      (path : BehindGap PathText parts t (u ++ rest)) (shown : AliasText name u rest) :
      TableRefText ⟨".".intercalate parts, name⟩ (t ++ u) rest

def outerSides : List (String × JoinKind) := [("LEFT", .left), ("RIGHT", .right), ("FULL", .full)]

inductive JoinKindText : JoinKind → List Char → List Char → Prop
  | inner {word : Option Unit} {t u rest : List Char}
      (optional : Maybe (KeywordText "INNER") word t (u ++ rest))
      (join : KeywordText "JOIN" () u rest) : JoinKindText .inner (t ++ u) rest
  | outer {side : String} {kind : JoinKind} {word : Option Unit} {t u v rest : List Char}
      (listed : (side, kind) ∈ outerSides) (mark : KeywordText side () t (u ++ (v ++ rest)))
      (optional : Maybe (KeywordText "OUTER") word u (v ++ rest))
      (join : KeywordText "JOIN" () v rest) : JoinKindText kind (t ++ (u ++ v)) rest
  | cross {t u rest : List Char} (mark : KeywordText "CROSS" () t (u ++ rest))
      (join : KeywordText "JOIN" () u rest) : JoinKindText .cross (t ++ u) rest

/-- A condition behind its keyword; it may be missing. -/
def ConditionText (word : String) : Spelling (Option Expr) :=
  Maybe (Behind (KeywordText word) AnyExprText)

inductive JoinText : Join → List Char → List Char → Prop
  | mk {kind : JoinKind} {table : TableRef} {condition : Option Expr} {t u v rest : List Char}
      (mark : JoinKindText kind t (u ++ (v ++ rest))) (joined : TableRefText table u (v ++ rest))
      (on : ConditionText "ON" condition v rest) :
      JoinText ⟨kind, table, condition⟩ (t ++ (u ++ v)) rest

inductive DirectionText : Bool → List Char → List Char → Prop
  | descending {t rest : List Char} (h : KeywordText "DESC" () t rest) : DirectionText true t rest
  | ascending {t rest : List Char} (h : KeywordText "ASC" () t rest) : DirectionText false t rest

inductive OrderItemText : OrderItem → List Char → List Char → Prop
  | mk {e : Expr} {direction : Option Bool} {t u rest : List Char}
      (value : AnyExprText e t (u ++ rest)) (way : Maybe DirectionText direction u rest) :
      OrderItemText ⟨e, direction.getD false⟩ (t ++ u) rest

def EitherWord (one other : String) : Spelling Unit :=
  fun a t rest => KeywordText one a t rest ∨ KeywordText other a t rest

inductive FetchText : UInt64 → List Char → List Char → Prop
  | mk {count : Option UInt64} {f n c r o rest : List Char}
      (fetch : KeywordText "FETCH" () f (n ++ (c ++ (r ++ (o ++ rest)))))
      (next : EitherWord "FIRST" "NEXT" () n (c ++ (r ++ (o ++ rest))))
      (number : Maybe CountText count c (r ++ (o ++ rest)))
      (rows : EitherWord "ROWS" "ROW" () r (o ++ rest)) (only : KeywordText "ONLY" () o rest) :
      FetchText (count.getD 1) (f ++ (n ++ (c ++ (r ++ o)))) rest

inductive OffsetText : UInt64 × Bool → List Char → List Char → Prop
  | mk {count : UInt64} {rows : Bool} {o c r rest : List Char}
      (offset : KeywordText "OFFSET" () o (c ++ (r ++ rest)))
      (number : CountText count c (r ++ rest))
      (shown : Present (EitherWord "ROWS" "ROW") rows r rest) :
      OffsetText (count, rows) (o ++ (c ++ r)) rest

def Page.ofOffset (offset : Option (UInt64 × Bool)) (fetch : Option UInt64) : Page :=
  { offset := offset.map (·.1)
    fetch
    offsetRows := match offset with
      | some (_, rows) => rows
      | none => false }

inductive PageText : Page → List Char → List Char → Prop
  | comma {skipped count : UInt64} {l m c n rest : List Char}
      (limit : KeywordText "LIMIT" () l (m ++ (c ++ (n ++ rest))))
      (first : CountText skipped m (c ++ (n ++ rest)))
      (between : SymbolText "," () c (n ++ rest)) (second : CountText count n rest) :
      PageText { limit := some count, offset := some skipped } (l ++ (m ++ (c ++ n))) rest
  | limit {count : UInt64} {offset : Option UInt64} {l n o rest : List Char}
      (limit : KeywordText "LIMIT" () l (n ++ (o ++ rest))) (first : CountText count n (o ++ rest))
      (second : Maybe (Behind (KeywordText "OFFSET") CountText) offset o rest) :
      PageText { limit := some count, offset } (l ++ (n ++ o)) rest
  | offset {offset : Option (UInt64 × Bool)} {fetch : Option UInt64} {o f rest : List Char}
      (first : Maybe OffsetText offset o (f ++ rest)) (second : Maybe FetchText fetch f rest) :
      PageText (.ofOffset offset fetch) (o ++ f) rest

/-- A list behind its keywords; it may be missing. -/
inductive ListText {α : Type} (head : Spelling Unit) (item : Spelling α) :
    List α → List Char → List Char → Prop
  | missing (rest : List Char) : ListText head item [] [] rest
  | there {as : List α} {t u rest : List Char} (mark : head () t (u ++ rest))
      (listed : Separated (SymbolText ",") item as u rest) : ListText head item as (t ++ u) rest

def WordsText (one other : String) : Spelling Unit :=
  Behind (KeywordText one) (KeywordText other)

inductive QueryText : Select → List Char → Prop
  | mk {select : Select} {k d i f j w g h o p last : List Char}
      (word : KeywordText "SELECT" () k
        (d ++ (i ++ (f ++ (j ++ (w ++ (g ++ (h ++ (o ++ (p ++ last))))))))))
      (distinct : Present (KeywordText "DISTINCT") select.distinct d
        (i ++ (f ++ (j ++ (w ++ (g ++ (h ++ (o ++ (p ++ last)))))))))
      (items : Separated (SymbolText ",") SelectItemText select.items i
        (f ++ (j ++ (w ++ (g ++ (h ++ (o ++ (p ++ last))))))))
      (tables : ListText (KeywordText "FROM") TableRefText select.tables f
        (j ++ (w ++ (g ++ (h ++ (o ++ (p ++ last)))))))
      (joins : Many JoinText select.joins j (w ++ (g ++ (h ++ (o ++ (p ++ last))))))
      (filter : ConditionText "WHERE" select.filter w (g ++ (h ++ (o ++ (p ++ last)))))
      (groupBy : ListText (WordsText "GROUP" "BY") AnyExprText select.groupBy g
        (h ++ (o ++ (p ++ last))))
      (having : ConditionText "HAVING" select.having h (o ++ (p ++ last)))
      (orderBy : ListText (WordsText "ORDER" "BY") OrderItemText select.orderBy o (p ++ last))
      (page : PageText select.page p last) (ended : Gap last []) :
      QueryText select (k ++ (d ++ (i ++ (f ++ (j ++ (w ++ (g ++ (h ++ (o ++ (p ++ last))))))))))

namespace Reader

theorem sound_expr : Sound expr AnyExprText := by
  intro s e rest read
  obtain ⟨t, split, spelled⟩ := sound_exprWithin (s.length + 1) s e rest read
  exact ⟨t, split, _, spelled⟩

theorem sound_newName :
    Sound (do let _ ← option (keyword "AS"); gaps; quotedNamePart) NewNameText := by
  intro s name rest read
  obtain ⟨word, middle, found, read⟩ := bind_ok read
  obtain ⟨_, after, skipped, part⟩ := bind_ok read
  cases skipped
  obtain ⟨as, rfl, optional⟩ := sound_option (sound_keyword "AS" rfl) _ _ _ found
  obtain ⟨g, split, gap⟩ := skipGaps_split middle
  obtain ⟨t, same, spelled⟩ := sound_part _ _ _ part
  rw [same] at split gap
  subst split
  exact ⟨as ++ (g ++ t), by simp, .mk optional gap spelled⟩

theorem sound_alias : Sound aliasName AliasText := sound_option sound_newName

theorem sound_selectItem : Sound selectItem SelectItemText := by
  intro s item rest read
  obtain ⟨e, middle, value, read⟩ := bind_ok read
  obtain ⟨name, after, shown, done⟩ := bind_ok read
  cases done
  obtain ⟨t, rfl, first⟩ := sound_expr _ _ _ value
  obtain ⟨u, rfl, second⟩ := sound_alias _ _ _ shown
  exact ⟨t ++ u, by simp, .mk first second⟩

theorem sound_tableRef : Sound tableRef TableRefText := by
  intro s table rest read
  obtain ⟨parts, middle, path, read⟩ := bind_ok read
  obtain ⟨name, after, shown, done⟩ := bind_ok read
  cases done
  obtain ⟨t, rfl, first⟩ := sound_quotedPath _ _ _ path
  obtain ⟨u, rfl, second⟩ := sound_alias _ _ _ shown
  exact ⟨t ++ u, by simp, .mk first second⟩

theorem capital_outer {side : String} {kind : JoinKind} (listed : (side, kind) ∈ outerSides) :
    Capital side :=
  List.all_eq_true.mp (rfl : outerSides.all (fun entry => entry.1.toList.all Char.isUpper) = true)
    (side, kind) listed

theorem sound_outerJoin {side : String} {kind : JoinKind} (listed : (side, kind) ∈ outerSides) :
    Sound (outerJoin side kind) JoinKindText := by
  intro s found rest read
  obtain ⟨_, afterSide, mark, read⟩ := bind_ok read
  obtain ⟨word, afterOuter, outer, read⟩ := bind_ok read
  obtain ⟨_, afterJoin, join, done⟩ := bind_ok read
  cases done
  obtain ⟨t, rfl, first⟩ := sound_keyword side (capital_outer listed) _ _ _ mark
  obtain ⟨u, rfl, second⟩ := sound_option (sound_keyword "OUTER" rfl) _ _ _ outer
  obtain ⟨v, rfl, third⟩ := sound_keyword "JOIN" rfl _ _ _ join
  exact ⟨t ++ (u ++ v), by simp, .outer listed first second third⟩

theorem sound_joinKind : Sound joinKind JoinKindText := by
  intro s kind rest read
  rcases orElse_ok read with read | ⟨_, read⟩
  · obtain ⟨word, middle, inner, read⟩ := bind_ok read
    obtain ⟨_, after, join, done⟩ := bind_ok read
    cases done
    obtain ⟨t, rfl, first⟩ := sound_option (sound_keyword "INNER" rfl) _ _ _ inner
    obtain ⟨u, rfl, second⟩ := sound_keyword "JOIN" rfl _ _ _ join
    exact ⟨t ++ u, by simp, .inner first second⟩
  rcases orElse_ok read with read | ⟨_, read⟩
  · exact sound_outerJoin (by simp [outerSides]) _ _ _ read
  rcases orElse_ok read with read | ⟨_, read⟩
  · exact sound_outerJoin (by simp [outerSides]) _ _ _ read
  rcases orElse_ok read with read | ⟨_, read⟩
  · exact sound_outerJoin (by simp [outerSides]) _ _ _ read
  · obtain ⟨_, middle, cross, read⟩ := bind_ok read
    obtain ⟨_, after, join, done⟩ := bind_ok read
    cases done
    obtain ⟨t, rfl, first⟩ := sound_keyword "CROSS" rfl _ _ _ cross
    obtain ⟨u, rfl, second⟩ := sound_keyword "JOIN" rfl _ _ _ join
    exact ⟨t ++ u, by simp, .cross first second⟩

theorem sound_condition (word : String) (capital : Capital word) :
    Sound (conditionClause word) (ConditionText word) :=
  sound_option (sound_behind (sound_keyword word capital) sound_expr)

theorem sound_join : Sound join JoinText := by
  intro s found rest read
  obtain ⟨kind, afterKind, mark, read⟩ := bind_ok read
  obtain ⟨table, afterTable, joined, read⟩ := bind_ok read
  obtain ⟨condition, afterCondition, on, done⟩ := bind_ok read
  cases done
  obtain ⟨t, rfl, first⟩ := sound_joinKind _ _ _ mark
  obtain ⟨u, rfl, second⟩ := sound_tableRef _ _ _ joined
  obtain ⟨v, rfl, third⟩ := sound_condition "ON" rfl _ _ _ on
  exact ⟨t ++ (u ++ v), by simp, .mk first second third⟩

theorem sound_direction :
    Sound ((do keyword "DESC"; pure true) <|> (do keyword "ASC"; pure false)) DirectionText := by
  intro s way rest read
  rcases orElse_ok read with read | ⟨_, read⟩
  · obtain ⟨_, middle, found, done⟩ := bind_ok read
    cases done
    obtain ⟨t, split, spelled⟩ := sound_keyword "DESC" rfl _ _ _ found
    exact ⟨t, split, .descending spelled⟩
  · obtain ⟨_, middle, found, done⟩ := bind_ok read
    cases done
    obtain ⟨t, split, spelled⟩ := sound_keyword "ASC" rfl _ _ _ found
    exact ⟨t, split, .ascending spelled⟩

theorem sound_orderItem : Sound orderItem OrderItemText := by
  intro s item rest read
  obtain ⟨e, middle, value, read⟩ := bind_ok read
  obtain ⟨direction, after, way, done⟩ := bind_ok read
  cases done
  obtain ⟨t, rfl, first⟩ := sound_expr _ _ _ value
  obtain ⟨u, rfl, second⟩ := sound_option sound_direction _ _ _ way
  exact ⟨t ++ u, by simp, .mk first second⟩

theorem sound_either (one other : String) (capital : Capital one) (also : Capital other) :
    Sound (keyword one <|> keyword other) (EitherWord one other) := by
  intro s a rest read
  rcases orElse_ok read with read | ⟨_, read⟩
  · obtain ⟨t, split, spelled⟩ := sound_keyword one capital _ _ _ read
    exact ⟨t, split, .inl spelled⟩
  · obtain ⟨t, split, spelled⟩ := sound_keyword other also _ _ _ read
    exact ⟨t, split, .inr spelled⟩

theorem sound_rows : Sound rowsKeyword (EitherWord "ROWS" "ROW") :=
  sound_either "ROWS" "ROW" rfl rfl

theorem sound_fetch : Sound fetchClause FetchText := by
  intro s n rest read
  obtain ⟨_, afterFetch, fetch, read⟩ := bind_ok read
  obtain ⟨_, afterNext, next, read⟩ := bind_ok read
  obtain ⟨count, afterCount, number, read⟩ := bind_ok read
  obtain ⟨_, afterRows, rows, read⟩ := bind_ok read
  obtain ⟨_, afterOnly, only, done⟩ := bind_ok read
  cases done
  obtain ⟨f, rfl, first⟩ := sound_keyword "FETCH" rfl _ _ _ fetch
  obtain ⟨m, rfl, second⟩ := sound_either "FIRST" "NEXT" rfl rfl _ _ _ next
  obtain ⟨c, rfl, third⟩ := sound_option sound_rowCount _ _ _ number
  obtain ⟨r, rfl, fourth⟩ := sound_rows _ _ _ rows
  obtain ⟨o, rfl, fifth⟩ := sound_keyword "ONLY" rfl _ _ _ only
  exact ⟨f ++ (m ++ (c ++ (r ++ o))), by simp, .mk first second third fourth fifth⟩

theorem sound_offset : Sound (do
    keyword "OFFSET"
    let count ← rowCount
    let rows ← present rowsKeyword
    pure (count, rows)) OffsetText := by
  intro s found rest read
  obtain ⟨_, afterOffset, offset, read⟩ := bind_ok read
  obtain ⟨count, afterCount, number, read⟩ := bind_ok read
  obtain ⟨rows, afterRows, shown, done⟩ := bind_ok read
  cases done
  obtain ⟨o, rfl, first⟩ := sound_keyword "OFFSET" rfl _ _ _ offset
  obtain ⟨c, rfl, second⟩ := sound_rowCount _ _ _ number
  obtain ⟨r, rfl, third⟩ := sound_present sound_rows _ _ _ shown
  exact ⟨o ++ (c ++ r), by simp, .mk first second third⟩

theorem sound_page : Sound page PageText := by
  intro s found rest read
  rcases whenRead_ok read with ⟨_, afterLimit, limit, follows⟩ | ⟨_, follows⟩
  · obtain ⟨first, afterFirst, number, second⟩ := bind_ok follows
    obtain ⟨l, rfl, word⟩ := sound_keyword "LIMIT" rfl _ _ _ limit
    obtain ⟨n, rfl, counted⟩ := sound_rowCount _ _ _ number
    rcases whenRead_ok second with ⟨_, afterComma, comma, second⟩ | ⟨_, second⟩
    · obtain ⟨count, afterCount, total, done⟩ := bind_ok second
      cases done
      obtain ⟨c, rfl, between⟩ := sound_symbol "," _ _ _ comma
      obtain ⟨m, rfl, last⟩ := sound_rowCount _ _ _ total
      exact ⟨l ++ (n ++ (c ++ m)), by simp, .comma word counted between last⟩
    · obtain ⟨offset, afterOffset, skipped, done⟩ := bind_ok second
      cases done
      obtain ⟨o, rfl, last⟩ := sound_option
        (sound_behind (sound_keyword "OFFSET" rfl) sound_rowCount) _ _ _ skipped
      exact ⟨l ++ (n ++ o), by simp, .limit word counted last⟩
  · obtain ⟨offset, afterOffset, skipped, follows⟩ := bind_ok follows
    obtain ⟨fetch, afterFetch, fetched, done⟩ := bind_ok follows
    cases done
    obtain ⟨o, rfl, first⟩ := sound_option sound_offset _ _ _ skipped
    obtain ⟨f, rfl, second⟩ := sound_option sound_fetch _ _ _ fetched
    exact ⟨o ++ f, by simp, .offset first second⟩

theorem sound_list {α : Type} {head : Reader Unit} {r : Reader α} {mark : Spelling Unit}
    {item : Spelling α} (soundHead : Sound head mark) (sound : Sound r item) :
    Sound (listClause head r) (ListText mark item) := by
  intro s as rest read
  obtain ⟨items, middle, found, done⟩ := bind_ok read
  cases done
  obtain ⟨t, rfl, spelled⟩ := sound_option
    (sound_behind soundHead (sound_separatedBy (sound_symbol ",") sound)) _ _ _ found
  cases spelled with
  | missing => exact ⟨[], rfl, .missing _⟩
  | there h =>
    obtain ⟨_, m, v, rfl, marked, listed⟩ := h
    exact ⟨m ++ v, rfl, .there marked listed⟩

theorem sound_words (one other : String) (capital : Capital one) (also : Capital other) :
    Sound (do keyword one; keyword other) (WordsText one other) :=
  sound_behind (sound_keyword one capital) (sound_keyword other also)

theorem query_sound {s rest : List Char} {select : Select} (read : query s = .ok (select, rest)) :
    QueryText select s ∧ rest = [] := by
  obtain ⟨_, _, word, read⟩ := bind_ok read
  obtain ⟨distinct, _, only, read⟩ := bind_ok read
  obtain ⟨items, _, listed, read⟩ := bind_ok read
  obtain ⟨tables, _, named, read⟩ := bind_ok read
  obtain ⟨joins, _, joined, read⟩ := bind_ok read
  obtain ⟨filter, _, filtered, read⟩ := bind_ok read
  obtain ⟨groupBy, _, grouped, read⟩ := bind_ok read
  obtain ⟨having, _, kept, read⟩ := bind_ok read
  obtain ⟨orderBy, _, ordered, read⟩ := bind_ok read
  obtain ⟨page, last, paged, read⟩ := bind_ok read
  obtain ⟨_, _, skipped, read⟩ := bind_ok read
  obtain ⟨_, after, ended, done⟩ := bind_ok read
  cases done
  cases skipped
  have nothing : skipGaps last = [] ∧ rest = [] := by
    cases found : skipGaps last with
    | nil =>
      rw [found] at ended
      cases ended
      exact ⟨rfl, rfl⟩
    | cons c s =>
      rw [found] at ended
      cases ended
  obtain ⟨k, rfl, first⟩ := sound_keyword "SELECT" rfl _ _ _ word
  obtain ⟨d, rfl, second⟩ := sound_present (sound_keyword "DISTINCT" rfl) _ _ _ only
  obtain ⟨i, rfl, third⟩ := sound_separatedBy (sound_symbol ",") sound_selectItem _ _ _ listed
  obtain ⟨f, rfl, fourth⟩ := sound_list (sound_keyword "FROM" rfl) sound_tableRef _ _ _ named
  obtain ⟨j, rfl, fifth⟩ := sound_many sound_join _ _ _ joined
  obtain ⟨w, rfl, sixth⟩ := sound_condition "WHERE" rfl _ _ _ filtered
  obtain ⟨g, rfl, seventh⟩ :=
    sound_list (sound_words "GROUP" "BY" rfl rfl) sound_expr _ _ _ grouped
  obtain ⟨h, rfl, eighth⟩ := sound_condition "HAVING" rfl _ _ _ kept
  obtain ⟨o, rfl, ninth⟩ :=
    sound_list (sound_words "ORDER" "BY" rfl rfl) sound_orderItem _ _ _ ordered
  obtain ⟨p, rfl, tenth⟩ := sound_page _ _ _ paged
  refine ⟨.mk first second third fourth fifth sixth seventh eighth ninth tenth ?_, nothing.2⟩
  rw [Gap, List.append_nil]
  exact nothing.1

end Reader

end SqlDialects
