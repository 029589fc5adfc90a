import SqlDialects.Proofs.Grammar.Carrying

/-
Whole queries in a changed text, clause by clause, and the calls and pages of a change that does
nothing to them but find their lexemes again.
-/
namespace SqlDialects

open Reader Spelling

variable {α : Type}

structure Select.Like (like : Expr → Expr → Prop) (paged : Page → Page → Prop) (a b : Select) :
    Prop where
  distinct : a.distinct = b.distinct
  items : List.Forall₂ (fun x y => like x.expr y.expr ∧ x.alias? = y.alias?) a.items b.items
  tables : a.tables = b.tables
  joins : List.Forall₂ (fun x y => x.kind = y.kind ∧ x.table = y.table
    ∧ Option.Rel like x.on? y.on?) a.joins b.joins
  filter : Option.Rel like a.filter b.filter
  groupBy : List.Forall₂ like a.groupBy b.groupBy
  having : Option.Rel like a.having b.having
  orderBy : List.Forall₂ (fun x y => like x.expr y.expr ∧ x.descending = y.descending)
    a.orderBy b.orderBy
  page : paged a.page b.page

namespace Change

variable {change : Change} {ends : List Char → Prop} {like : Expr → Expr → Prop}
  {paged : Page → Page → Prop}

/-! Clauses. -/

theorem carries_maybe_eq {part : Spelling α} (each : change.Carries ends part Eq) :
    change.Carries ends (Maybe part) Eq := by
  intro found t rest w spelled ended changed
  obtain ⟨found', t', rest', split, spelled', same, changed⟩ :=
    carries_maybe each found t rest w spelled ended changed
  refine ⟨found', t', rest', split, spelled', ?_, changed⟩
  cases same with
  | some same => rw [same]
  | none => rfl

theorem carries_list {head : Spelling Unit} {item : Spelling α} {alike : α → α → Prop}
    (lexical : change.Lexical) (mark : change.Carries Anywhere head Eq)
    (each : change.Carries Uncontinued item alike) :
    change.Carries Uncontinued (ListText head item) (List.Forall₂ alike) := by
  intro as t rest w spelled ended changed
  cases spelled with
  | missing => exact ⟨[], [], w, rfl, .missing w, .nil, changed⟩
  | there marked listed =>
    rw [List.append_assoc] at changed
    obtain ⟨_, t', w', rfl, marked', rfl, changed⟩ := mark _ _ _ _ marked trivial changed
    obtain ⟨bs, u', rest', rfl, listed', same, changed⟩ :=
      carries_separated (lexical.symbol "," (by simp)) each
        (fun _ _ _ comma => uncontinued_symbol comma ⟨',', rfl, by decide⟩) _ _ _ _ listed ended changed
    exact ⟨bs, t' ++ u', rest', by simp, .there marked' listed', same, changed⟩

theorem uncontinued_condition {word : String} {condition : Option Expr} {t rest : List Char}
    (spelled : ConditionText word condition t rest) (capital : Capital word)
    (nonempty : word.toList ≠ []) (after : Uncontinued rest) : Uncontinued (t ++ rest) := by
  cases spelled with
  | missing => exact after
  | there h =>
    obtain ⟨_, m, v, rfl, mark, value⟩ := h
    rw [List.append_assoc]
    exact uncontinued_keyword mark capital nonempty

theorem uncontinued_direction {way : Option Bool} {t rest : List Char}
    (spelled : Maybe DirectionText way t rest) (after : Uncontinued rest) : Uncontinued (t ++ rest) := by
  cases spelled with
  | missing => exact after
  | there h =>
    cases h with
    | descending h => exact uncontinued_keyword h rfl (by decide)
    | ascending h => exact uncontinued_keyword h rfl (by decide)

section Lawful

variable (lawful : change.Lawful like paged)

include lawful

theorem carries_exprText (depth : Nat) : change.Carries Uncontinued (ExprText depth) like := by
  induction depth with
  | zero => exact fun _ _ _ _ spelled => absurd spelled id
  | succ depth ih => exact carries_or lawful ih

theorem carries_expr : change.Carries Uncontinued AnyExprText like := by
  rintro e t rest w ⟨depth, spelled⟩ ended changed
  obtain ⟨e', t', rest', split, spelled', same, changed⟩ :=
    carries_exprText lawful depth e t rest w spelled ended changed
  exact ⟨e', t', rest', split, ⟨depth, spelled'⟩, same, changed⟩

theorem carries_newName : change.Carries Uncontinued NewNameText Eq := by
  intro name t rest w spelled ended changed
  cases spelled with
  | @mk word name as g t rest optional gap part =>
    simp only [List.append_assoc] at changed
    obtain ⟨_, as', w', rfl, optional', rfl, changed⟩ :=
      carries_maybe_eq (lawful.lexical.keyword "AS" (by decide)) _ _ _ _ optional trivial changed
    rw [← List.append_assoc] at changed
    obtain ⟨_, t', rest', rfl, ⟨g', u', rfl, gap', part'⟩, rfl, changed⟩ :=
      carries_behindGap lawful.lexical lawful.lexical.part name (g ++ t) rest w' ⟨g, t, rfl, gap, part⟩
        ended changed
    rw [List.append_assoc] at optional'
    exact ⟨name, as' ++ (g' ++ u'), rest', by simp, .mk optional' gap' part', rfl, changed⟩

theorem carries_alias : change.Carries Uncontinued AliasText Eq :=
  carries_maybe_eq (carries_newName lawful)

theorem carries_selectItem : change.Carries Uncontinued SelectItemText
    fun x y => like x.expr y.expr ∧ x.alias? = y.alias? := by
  intro item t rest w spelled ended changed
  cases spelled with
  | @mk e name t u rest value shown =>
    rw [List.append_assoc] at changed
    obtain ⟨e', t', w', rfl, value', same, changed⟩ :=
      carries_expr lawful _ _ _ _ value (uncontinued_alias shown ended) changed
    obtain ⟨_, u', rest', rfl, shown', rfl, changed⟩ :=
      carries_alias lawful _ _ _ _ shown ended changed
    exact ⟨⟨e', name⟩, t' ++ u', rest', by simp, .mk value' shown', ⟨same, rfl⟩, changed⟩

theorem carries_tableRef : change.Carries Uncontinued TableRefText Eq := by
  intro table t rest w spelled ended changed
  cases spelled with
  | @mk parts name t u rest path shown =>
    rw [List.append_assoc] at changed
    obtain ⟨_, t', w', rfl, path', rfl, changed⟩ :=
      carries_behindGap lawful.lexical (carries_path lawful.lexical) _ _ _ _ path
        (uncontinued_alias shown ended) changed
    obtain ⟨_, u', rest', rfl, shown', rfl, changed⟩ :=
      carries_alias lawful _ _ _ _ shown ended changed
    exact ⟨_, t' ++ u', rest', by simp, .mk path' shown', rfl, changed⟩

theorem carries_joinKind : change.Carries Anywhere JoinKindText Eq := by
  intro kind t rest w spelled ended changed
  have word := lawful.lexical.keyword
  have join := word "JOIN" (by decide)
  cases spelled with
  | inner optional last =>
    rw [List.append_assoc] at changed
    obtain ⟨_, t', w', rfl, optional', rfl, changed⟩ :=
      carries_maybe_eq (word "INNER" (by decide)) _ _ _ _ optional trivial changed
    obtain ⟨_, u', rest', rfl, last', rfl, changed⟩ := join _ _ _ _ last trivial changed
    exact ⟨_, t' ++ u', rest', by simp, .inner optional' last', rfl, changed⟩
  | @outer side kind optional t u v rest listed mark outer last =>
    have known : side ∈ queryWords := by
      simp only [outerSides, List.mem_cons, Prod.mk.injEq, List.not_mem_nil, or_false] at listed
      rcases listed with ⟨rfl, _⟩ | ⟨rfl, _⟩ | ⟨rfl, _⟩ <;> decide
    simp only [List.append_assoc] at changed
    obtain ⟨_, t', w', rfl, mark', rfl, changed⟩ := word side known _ _ _ _ mark trivial changed
    obtain ⟨_, u', w'', rfl, outer', rfl, changed⟩ :=
      carries_maybe_eq (word "OUTER" (by decide)) _ _ _ _ outer trivial changed
    obtain ⟨_, v', rest', rfl, last', rfl, changed⟩ := join _ _ _ _ last trivial changed
    exact ⟨_, t' ++ (u' ++ v'), rest', by simp, .outer listed mark' outer' last', rfl, changed⟩
  | cross mark last =>
    rw [List.append_assoc] at changed
    obtain ⟨_, t', w', rfl, mark', rfl, changed⟩ :=
      word "CROSS" (by decide) _ _ _ _ mark trivial changed
    obtain ⟨_, u', rest', rfl, last', rfl, changed⟩ := join _ _ _ _ last trivial changed
    exact ⟨_, t' ++ u', rest', by simp, .cross mark' last', rfl, changed⟩

theorem carries_condition {word : String} (known : word ∈ queryWords) :
    change.Carries Uncontinued (ConditionText word) (Option.Rel like) :=
  carries_maybe (carries_behind (lawful.lexical.keyword word known) (carries_expr lawful))

theorem carries_join : change.Carries Uncontinued JoinText fun x y => x.kind = y.kind
    ∧ x.table = y.table ∧ Option.Rel like x.on? y.on? := by
  intro found t rest w spelled ended changed
  cases spelled with
  | @mk kind table condition t u v rest mark joined on =>
    simp only [List.append_assoc] at changed
    obtain ⟨_, t', w', rfl, mark', rfl, changed⟩ :=
      carries_joinKind lawful _ _ _ _ mark trivial changed
    obtain ⟨_, u', w'', rfl, joined', rfl, changed⟩ := carries_tableRef lawful _ _ _ _ joined
      (uncontinued_condition on rfl (by decide) ended) changed
    obtain ⟨condition', v', rest', rfl, on', same, changed⟩ :=
      carries_condition lawful (by decide) _ _ _ _ on ended changed
    exact ⟨⟨kind, table, condition'⟩, t' ++ (u' ++ v'), rest', by simp, .mk mark' joined' on',
      ⟨rfl, rfl, same⟩, changed⟩

theorem carries_direction : change.Carries Anywhere DirectionText Eq := by
  intro way t rest w spelled ended changed
  cases spelled with
  | descending h =>
    obtain ⟨_, t', rest', rfl, h', rfl, changed⟩ :=
      lawful.lexical.keyword "DESC" (by decide) _ _ _ _ h trivial changed
    exact ⟨_, t', rest', rfl, .descending h', rfl, changed⟩
  | ascending h =>
    obtain ⟨_, t', rest', rfl, h', rfl, changed⟩ :=
      lawful.lexical.keyword "ASC" (by decide) _ _ _ _ h trivial changed
    exact ⟨_, t', rest', rfl, .ascending h', rfl, changed⟩

theorem carries_orderItem : change.Carries Uncontinued OrderItemText
    fun x y => like x.expr y.expr ∧ x.descending = y.descending := by
  intro item t rest w spelled ended changed
  cases spelled with
  | @mk e direction t u rest value way =>
    rw [List.append_assoc] at changed
    obtain ⟨e', t', w', rfl, value', same, changed⟩ :=
      carries_expr lawful _ _ _ _ value (uncontinued_direction way ended) changed
    obtain ⟨_, u', rest', rfl, way', rfl, changed⟩ :=
      carries_maybe_eq (carries_direction lawful) _ _ _ _ way trivial changed
    exact ⟨⟨e', direction.getD false⟩, t' ++ u', rest', by simp, .mk value' way', ⟨same, rfl⟩,
      changed⟩

theorem carries_words {one other : String} (known : one ∈ queryWords) (also : other ∈ queryWords) :
    change.Carries Anywhere (WordsText one other) Eq :=
  carries_behind (lawful.lexical.keyword one known) (lawful.lexical.keyword other also)

/-- A query is found again in the changed text, with like expressions and a page for its page, and the
ends of both texts are reached together. -/
theorem carries_query_to_end {select : Select} {s w : List Char} (spelled : QueryText select s)
    (changed : change s w) :
    (∃ found, QueryText found w ∧ select.Like like paged found) ∧ change [] [] := by
  have lexical := lawful.lexical
  have word := lexical.keyword
  cases spelled with
  | @mk k d i f j w g h o p last first only items tables joins filter groupBy having orderBy page
      ended =>
    have atEnd : skipGaps last = [] := by rw [Gap, List.append_nil] at ended; exact ended
    -- behind each clause the text goes on with the word of a later one
    have behindPage : Opens [] last := .inl atEnd
    have behindOrder := page_opens page behindPage
    have behindHaving := list_opens orderBy (fun _ _ h => words_leads h rfl) behindOrder
    have behindGroup := condition_opens having rfl behindHaving
    have behindFilter := list_opens groupBy (fun _ _ h => words_leads h rfl) behindGroup
    have behindJoins : Opens filterWords _ := condition_opens filter rfl behindFilter
    have behindTables := joins_opens joins behindJoins
    have behindItems := list_opens tables (fun _ _ h => keyword_leads h rfl) behindTables
    obtain ⟨_, k', w1, rfl, first', rfl, changed⟩ :=
      word "SELECT" (by decide) _ _ _ _ first trivial changed
    obtain ⟨distinct, d', w2, rfl, only', alike, changed⟩ :=
      carries_present (word "DISTINCT" (by decide)) _ _ _ _ only trivial changed
    obtain ⟨shown, i', w3, rfl, items', sameItems, changed⟩ :=
      carries_separated (lexical.symbol "," (by simp)) (carries_selectItem lawful)
        (fun _ _ _ comma => uncontinued_symbol comma ⟨',', rfl, by decide⟩) _ _ _ _ items
        (uncontinued_opens behindItems (by decide)) changed
    obtain ⟨named, f', w4, rfl, tables', sameTables, changed⟩ :=
      carries_list lexical (word "FROM" (by decide)) (carries_tableRef lawful) _ _ _ _ tables
        (uncontinued_opens behindTables (by decide)) changed
    obtain ⟨joined, j', w5, rfl, joins', sameJoins, changed⟩ :=
      carries_many (carries_join lawful) (fun _ _ _ join => uncontinued_opens
        (.inr (joinText_leads join)) (by decide)) _ _ _ _ joins
        (uncontinued_opens behindJoins (by decide)) changed
    obtain ⟨kept, f'', w6, rfl, filter', sameFilter, changed⟩ :=
      carries_condition lawful (by decide) _ _ _ _ filter
        (uncontinued_opens behindFilter (by decide)) changed
    obtain ⟨grouped, g', w7, rfl, groupBy', sameGroups, changed⟩ :=
      carries_list lexical (carries_words lawful (by decide) (by decide)) (carries_expr lawful)
        _ _ _ _ groupBy (uncontinued_opens behindGroup (by decide)) changed
    obtain ⟨had, h', w8, rfl, having', sameHaving, changed⟩ :=
      carries_condition lawful (by decide) _ _ _ _ having
        (uncontinued_opens behindHaving (by decide)) changed
    obtain ⟨ordered, o', w9, rfl, orderBy', sameOrder, changed⟩ :=
      carries_list lexical (carries_words lawful (by decide) (by decide)) (carries_orderItem lawful)
        _ _ _ _ orderBy (uncontinued_opens behindOrder (by decide)) changed
    obtain ⟨rows, p', last', rfl, page', samePage, changed⟩ :=
      lawful.page _ _ _ _ page atEnd changed
    have finished := lexical.gap changed
    rw [atEnd] at finished
    have nothing := lexical.ended finished (afterGap_skipGaps last')
    rw [List.forall₂_eq_eq_eq] at sameTables
    refine ⟨⟨⟨distinct, shown, named, joined, kept, grouped, had, ordered, rows⟩,
      .mk first' only' items' tables' joins' filter' groupBy' having' orderBy' page'
        (by rw [Gap, List.append_nil, nothing]),
      ⟨alike, sameItems, sameTables, sameJoins, sameFilter, sameGroups, sameHaving, sameOrder,
        samePage⟩⟩, ?_⟩
    rwa [nothing] at finished

theorem carries_query {select : Select} {s w : List Char} (spelled : QueryText select s)
    (changed : change s w) : ∃ found, QueryText found w ∧ select.Like like paged found :=
  (carries_query_to_end lawful spelled changed).1

end Lawful

/-! A change of texts of one kind, where the end of such a text is of that kind too. -/

def within (change : Change) (kind : List Char → Prop) : Change := fun s w => change s w ∧ kind s

section Within

variable {kind : List Char → Prop} (closed : ∀ {t rest}, kind (t ++ rest) → kind rest)

include closed

theorem Finds.within {spelling : Spelling α} {wanted : α → Prop} {t rest w : List Char}
    (found : change.Finds spelling wanted rest w) (known : kind (t ++ rest)) :
    (change.within kind).Finds spelling wanted rest w := by
  obtain ⟨b, t', rest', split, spelled, alike, changed⟩ := found
  exact ⟨b, t', rest', split, spelled, alike, changed, closed known⟩

theorem Carries.within {spelling : Spelling α} {alike : α → α → Prop}
    (carried : change.Carries ends spelling alike) : (change.within kind).Carries ends spelling alike :=
  fun a t rest w spelled ended changed =>
    (carried a t rest w spelled ended changed.1).within closed changed.2

theorem Lexical.within (lexical : change.Lexical) : (change.within kind).Lexical where
  gap := by
    rintro s w ⟨changed, known⟩
    obtain ⟨g, split, _⟩ := skipGaps_split s
    rw [split] at known
    exact ⟨lexical.gap changed, closed known⟩
  ended changed := lexical.ended changed.1
  uncontinued changed := lexical.uncontinued changed.1
  keyword word listed := (lexical.keyword word listed).within closed
  symbol text listed := (lexical.symbol text listed).within closed
  operator table listed := (lexical.operator table listed).within closed
  mark text listed := (lexical.mark text listed).within closed
  null := lexical.null.within closed
  literal := lexical.literal.within closed
  number := lexical.number.within closed
  parameter := lexical.parameter.within closed
  part := lexical.part.within closed

theorem Lawful.within {also : Page → Page → Prop} (lawful : change.Lawful like paged)
    (page : (change.within kind).Carries AtEnd PageText also) :
    (change.within kind).Lawful like also where
  lexical := lawful.lexical.within closed
  congruent := lawful.congruent
  ilike spelled changed := (lawful.ilike spelled changed.1).within closed changed.2
  call {depth parts e t opening args rest w} _ named opened inside ended changed := by
    have known : kind ((t ++ (opening ++ args)) ++ rest) := by
      simpa only [List.append_assoc] using changed.2
    exact (lawful.call (carries_exprText lawful depth) named opened inside ended changed.1).within closed
      known
  page := page

end Within

/-! Calls and pages of which nothing but the lexemes is changed. -/

theorem finds_call {nested : Spelling Expr} {parts : List String} {e : Expr}
    {t opening args rest w : List Char} (lexical : change.Lexical) (all : like (.star none) (.star none))
    (call : ∀ {name distinct as bs}, List.Forall₂ like as bs →
      like (.call name as distinct false) (.call name bs distinct false))
    (part : change.Carries Anywhere PartText Eq) (inner : change.Carries Uncontinued nested like)
    (named : PathText parts t (opening ++ (args ++ rest)))
    (opened : SymbolText "(" () opening (args ++ rest))
    (inside : ArgumentsText nested (".".intercalate parts) e args rest)
    (changed : change (t ++ (opening ++ (args ++ rest))) w) :
    change.Finds (OperandText nested) (like e) rest w := by
  obtain ⟨found, t', w', rfl, named', same, changed⟩ :=
    carries_separated (lexical.mark "." (by simp)) part (fun _ _ _ _ => trivial) _ _ _ _ named
      trivial changed
  rw [List.forall₂_eq_eq_eq] at same
  subst same
  obtain ⟨_, o', w'', rfl, opened', rfl, changed⟩ :=
    lexical.symbol "(" (by simp) _ _ _ _ opened trivial changed
  obtain ⟨_, a', rest', rfl, inside', ⟨as, bs, distinct, rfl, rfl, alike⟩, changed⟩ :=
    carries_arguments lexical inner all inside changed
  exact ⟨_, t' ++ (o' ++ a'), rest', by simp, .call named' opened' inside', call alike, changed⟩

def pageKeywords : List String :=
  ["LIMIT", "OFFSET", "FETCH", "FIRST", "NEXT", "ROWS", "ROW", "ONLY"]

section Pages

variable (word : ∀ word ∈ pageKeywords, change.Carries Anywhere (KeywordText word) Eq)
  (count : change.Carries Anywhere CountText Eq)

include word

theorem carries_either {one other : String} (known : one ∈ pageKeywords)
    (also : other ∈ pageKeywords) : change.Carries Anywhere (EitherWord one other) Eq := by
  rintro a t rest w (h | h) ended changed
  · obtain ⟨_, t', rest', rfl, h', rfl, changed⟩ := word one known _ _ _ _ h ended changed
    exact ⟨_, t', rest', rfl, .inl h', rfl, changed⟩
  · obtain ⟨_, t', rest', rfl, h', rfl, changed⟩ := word other also _ _ _ _ h ended changed
    exact ⟨_, t', rest', rfl, .inr h', rfl, changed⟩

include count

theorem carries_fetch : change.Carries Anywhere FetchText Eq := by
  intro n t rest w spelled ended changed
  cases spelled with
  | @mk number f n c r o rest fetch next counted rows only =>
    simp only [List.append_assoc] at changed
    obtain ⟨_, f', w1, rfl, fetch', rfl, changed⟩ :=
      word "FETCH" (by decide) _ _ _ _ fetch trivial changed
    obtain ⟨_, n', w2, rfl, next', rfl, changed⟩ :=
      carries_either word (by decide) (by decide) _ _ _ _ next trivial changed
    obtain ⟨_, c', w3, rfl, counted', rfl, changed⟩ :=
      carries_maybe_eq count _ _ _ _ counted trivial changed
    obtain ⟨_, r', w4, rfl, rows', rfl, changed⟩ :=
      carries_either word (by decide) (by decide) _ _ _ _ rows trivial changed
    obtain ⟨_, o', rest', rfl, only', rfl, changed⟩ :=
      word "ONLY" (by decide) _ _ _ _ only trivial changed
    exact ⟨_, f' ++ (n' ++ (c' ++ (r' ++ o'))), rest', by simp,
      .mk fetch' next' counted' rows' only', rfl, changed⟩

theorem carries_offset : change.Carries Anywhere OffsetText Eq := by
  intro found t rest w spelled ended changed
  cases spelled with
  | @mk number rows o c r rest offset counted shown =>
    simp only [List.append_assoc] at changed
    obtain ⟨_, o', w1, rfl, offset', rfl, changed⟩ :=
      word "OFFSET" (by decide) _ _ _ _ offset trivial changed
    obtain ⟨_, c', w2, rfl, counted', rfl, changed⟩ := count _ _ _ _ counted trivial changed
    obtain ⟨_, r', rest', rfl, shown', rfl, changed⟩ :=
      carries_present (carries_either word (by decide) (by decide)) _ _ _ _ shown trivial changed
    exact ⟨_, o' ++ (c' ++ r'), rest', by simp, .mk offset' counted' shown', rfl, changed⟩

theorem carries_page (comma : change.Carries Anywhere (SymbolText ",") Eq) :
    change.Carries Anywhere PageText Eq := by
  intro page t rest w spelled ended changed
  cases spelled with
  | comma limit first between second =>
    simp only [List.append_assoc] at changed
    obtain ⟨_, l', w1, rfl, limit', rfl, changed⟩ :=
      word "LIMIT" (by decide) _ _ _ _ limit trivial changed
    obtain ⟨_, m', w2, rfl, first', rfl, changed⟩ := count _ _ _ _ first trivial changed
    obtain ⟨_, c', w3, rfl, between', rfl, changed⟩ := comma _ _ _ _ between trivial changed
    obtain ⟨_, n', rest', rfl, second', rfl, changed⟩ := count _ _ _ _ second trivial changed
    exact ⟨_, l' ++ (m' ++ (c' ++ n')), rest', by simp, .comma limit' first' between' second', rfl,
      changed⟩
  | limit limit first second =>
    simp only [List.append_assoc] at changed
    obtain ⟨_, l', w1, rfl, limit', rfl, changed⟩ :=
      word "LIMIT" (by decide) _ _ _ _ limit trivial changed
    obtain ⟨_, n', w2, rfl, first', rfl, changed⟩ := count _ _ _ _ first trivial changed
    obtain ⟨_, o', rest', rfl, second', rfl, changed⟩ :=
      carries_maybe_eq (carries_behind (word "OFFSET" (by decide)) count) _ _ _ _ second trivial
        changed
    exact ⟨_, l' ++ (n' ++ o'), rest', by simp, .limit limit' first' second', rfl, changed⟩
  | offset first second =>
    rw [List.append_assoc] at changed
    obtain ⟨_, o', w1, rfl, first', rfl, changed⟩ :=
      carries_maybe_eq (carries_offset word count) _ _ _ _ first trivial changed
    obtain ⟨_, f', rest', rfl, second', rfl, changed⟩ :=
      carries_maybe_eq (carries_fetch word count) _ _ _ _ second trivial changed
    exact ⟨_, o' ++ f', rest', by simp, .offset first' second', rfl, changed⟩

end Pages

end Change

end SqlDialects
