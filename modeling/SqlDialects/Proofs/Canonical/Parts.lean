import SqlDialects.Proofs.Canonical.Query
import SqlDialects.Proofs.Sql.Nodes
import SqlDialects.Reader.Nesting

/-
What is known of the parts of canonical text, put together. A property of texts that says whether a
quoted name of a function was found in them holds of the text of a query once it holds of names,
string literals, operators and characters without a meaning of their own, and is kept by `++`.
-/
namespace SqlDialects

open Reader

/-! Characters without a meaning of their own. -/

def isOrdinary (c : Char) : Bool :=
  !Nesting.isQuote c && c != ';' && c != '-' && c != '/'

theorem ordinary_nameCharacter {c : Char} (inside : isNameCharacter c = true) :
    isOrdinary c = true := by
  have other : c ∉ ['\x27', '"', '\x60', ';', '-', '/'] := Text.not_mem_of_all inside rfl
  simp only [List.mem_cons, List.not_mem_nil, or_false, not_or] at other
  simp [isOrdinary, Nesting.isQuote, other]

theorem word_ordinary {w : List Char} (inside : ∀ c ∈ w, isNameCharacter c = true) :
    w.all isOrdinary = true :=
  List.all_eq_true.mpr fun c member => ordinary_nameCharacter (inside c member)

theorem digits_ordinary {ds : List Char} (digits : ∀ c ∈ ds, c.isDigit = true) :
    ds.all isOrdinary = true :=
  word_ordinary fun c member => nameCharacter_of_isDigit c (digits c member)

theorem number_ordinary {text : String} {t rest : List Char} (spelled : NumberText text t rest) :
    t.all isOrdinary = true := by
  cases spelled with
  | whole digits _ _ => exact digits_ordinary digits.inside
  | fraction digits places _ =>
    rw [List.all_append, List.all_cons, digits_ordinary digits.inside, digits_ordinary places]
    rfl

theorem parameter_ordinary {text : String} {t rest : List Char}
    (spelled : ParameterText text t rest) : t.all isOrdinary = true := by
  cases spelled with
  | question => rfl
  | named shape _ =>
    rw [List.all_cons, word_ordinary shape.inside]
    rfl
  | numbered digits _ =>
    rw [List.all_cons, digits_ordinary digits.inside]
    rfl

theorem page_ordinary (page : Page) : page.written.all isOrdinary = true := by
  have count : ∀ n, (countWritten n).all isOrdinary = true := fun n => by
    rw [countWritten, List.all_cons, digits_ordinary (count_digits n).inside]
    rfl
  obtain ⟨limit, offset, fetch, rows⟩ := page
  cases limit <;> cases offset <;> cases fetch <;> cases rows <;>
    simp only [Page.written, limitWritten, offsetWritten, fetchWritten, List.all_append, count] <;>
    rfl

/-! Calls of functions with a quoted name. -/

def Expr.isQuotedCall : Expr → Bool
  | .call name _ _ _ => name.toList.contains '"'
  | _ => false

def Expr.callsQuoted (e : Expr) : Bool := e.nodes.any isQuotedCall

namespace Expr

theorem listNodes_any (es : List Expr) :
    (listNodes es).any isQuotedCall = es.any callsQuoted := by
  rw [listNodes_eq, List.any_flatMap]
  rfl

theorem callsQuoted_call (name : String) (args : List Expr) (distinct bare : Bool) :
    (call name args distinct bare).callsQuoted
      = (name.toList.contains '"' || args.any callsQuoted) := by
  rw [callsQuoted, nodes, List.any_cons, listNodes_any]
  rfl

theorem callsQuoted_binary (left right : Expr) (op : BinaryOp) :
    (binary left op right).callsQuoted = (left.callsQuoted || right.callsQuoted) := by
  rw [callsQuoted, nodes, List.any_cons, List.any_append]
  rfl

theorem callsQuoted_inList (subject : Expr) (values : List Expr) (negated : Bool) :
    (inList subject values negated).callsQuoted
      = (subject.callsQuoted || values.any callsQuoted) := by
  rw [callsQuoted, nodes, List.any_cons, List.any_append, listNodes_any]
  rfl

end Expr

def Select.callsQuoted (select : Select) : Bool := select.exprs.any Expr.callsQuoted

theorem Select.callsQuoted_eq (select : Select) :
    select.callsQuoted = ((select.items.any fun item => item.expr.callsQuoted)
      || ((select.joins.any fun join => join.on?.any Expr.callsQuoted)
      || (select.filter.any Expr.callsQuoted || (select.groupBy.any Expr.callsQuoted
      || (select.having.any Expr.callsQuoted
      || select.orderBy.any fun item => item.expr.callsQuoted))))) := by
  have toList : ∀ e? : Option Expr, e?.toList.any Expr.callsQuoted = e?.any Expr.callsQuoted := by
    intro e?
    cases e? <;> simp
  have joined : (select.joins.filterMap Join.on?).any Expr.callsQuoted
      = select.joins.any fun join => join.on?.any Expr.callsQuoted := by
    rw [List.any_filterMap]
    refine congrArg (List.any select.joins) (funext fun join => ?_)
    cases join.on? <;> rfl
  simp only [callsQuoted, exprs, List.any_append, List.any_map, toList, joined, Bool.or_assoc]
  rfl

/-! From the parts to the whole. -/

/-- What has to be known of the parts of a text with its names written by `f`. A sign stands only in
front of expressions for which `Sign` holds. -/
structure ByParts (f : String → String) (Sign : Expr → Prop) (P : List Char → Bool → Prop) :
    Prop where
  append {t u : List Char} {a b : Bool} : P t a → P u b → P (t ++ u) (a || b)
  ordinary {t : List Char} : t.all isOrdinary = true → P t false
  literal (body : List Char) : P (Text.enclose '\x27' body) false
  name {parts : List String} : IsPath parts → P (f (".".intercalate parts)).toList false
  called {parts : List String} : IsPath parts →
    P (".".intercalate parts).toList ((".".intercalate parts).toList.contains '"')
  operator (op : BinaryOp) : P (' ' :: op.toSql.toList ++ [' ']) false
  negated {e : Expr} {a : Bool} : Sign e → e.WellFormed → 7 ≤ e.level → P (e.written f) a →
    P ('-' :: e.written f) a

namespace ByParts

variable {f : String → String} {Sign : Expr → Prop} {P : List Char → Bool → Prop}

variable (known : ByParts f Sign P)
include known

theorem behind {t u : List Char} {a : Bool} (first : P t false) (second : P u a) : P (t ++ u) a :=
  known.append first second

theorem before {t u : List Char} {a : Bool} (first : P t a) (second : P u false) :
    P (t ++ u) a := by
  have whole := known.append first second
  rwa [Bool.or_false] at whole

theorem opened {t u : List Char} {a : Bool} (first : t.all isOrdinary = true) (second : P u a) :
    P (t ++ u) a :=
  known.behind (known.ordinary first) second

theorem ended {t u : List Char} {a : Bool} (first : P t a) (second : u.all isOrdinary = true) :
    P (t ++ u) a :=
  known.before first (known.ordinary second)

theorem optional {t : List Char} (check : t.all isOrdinary = true) (given : Bool) :
    P (if given then t else []) false := by
  cases given
  · exact known.ordinary rfl
  · exact known.ordinary check

theorem commas {α : Type} {items : List α} {text : α → List Char} {found : α → Bool}
    (each : ∀ a ∈ items, P (text a) (found a)) :
    P (commas (items.map text)) (items.any found) := by
  induction items with
  | nil => exact known.ordinary rfl
  | cons a items ih =>
    have first := each a List.mem_cons_self
    have tail := ih fun b member => each b (.tail a member)
    cases items with
    | nil => simpa using first
    | cons b items =>
      rw [List.map_cons, List.map_cons, commas_more, List.any_cons]
      exact known.append first (known.opened (t := [',', ' ']) (by decide) tail)

theorem part {name : String} (isPart : IsPart name) : P (f name).toList false := by
  have written := known.name (isPath_one isPart)
  rwa [String.intercalate_singleton] at written

theorem expr {e : Expr} (wellFormed : e.WellFormed) (signs : ∀ x, .negate x ∈ e.nodes → Sign x) :
    P (e.written f) e.callsQuoted := by
  induction wellFormed with
  | @call parts args distinct path inside only ih =>
    have listed := known.commas fun a member => ih a member fun x inner => signs x (by
      rw [Expr.nodes, Expr.listNodes_eq]
      exact .tail _ (List.mem_flatMap.mpr ⟨a, member, inner⟩))
    have head := known.optional (t := "DISTINCT ".toList) (by decide) distinct
    rw [written_call, Expr.callsQuoted_call]
    exact known.append (known.called path) (known.opened (t := ['(']) rfl
      (known.behind head (known.ended listed rfl)))
  | bare part niladic =>
    have written := known.called (isPath_one part)
    rw [String.intercalate_singleton] at written
    rwa [written_bare, Expr.callsQuoted_call, List.any_nil, Bool.or_false]
  | column path other => exact known.name path
  | number spelled => exact known.ordinary (number_ordinary spelled)
  | string value =>
    rw [written_string]
    exact known.literal _
  | null =>
    rw [written_null]
    exact known.ordinary (by decide)
  | star =>
    rw [written_star]
    exact known.ordinary rfl
  | qualified path =>
    rw [written_qualified]
    exact known.ended (known.name path) rfl
  | parameter spelled => exact known.ordinary (parameter_ordinary spelled)
  | group inside ih =>
    rw [written_group]
    exact known.opened (t := ['(']) rfl
      (known.ended (ih fun x inner => signs x (.tail _ inner)) rfl)
  | not inside tight ih =>
    have whole := known.opened (t := "NOT".toList ++ [' ']) (by decide)
      (ih fun x inner => signs x (.tail _ inner))
    rw [List.append_assoc] at whole
    rw [written_not]
    exact whole
  | negate inside tight ih =>
    rw [written_negate]
    exact known.negated (signs _ (Expr.mem_nodes _)) inside tight
      (ih fun x inner => signs x (.tail _ inner))
  | @binary left right op first second loose tight ihl ihr =>
    have leftKnown := ihl fun x inner => signs x (.tail _ (List.mem_append_left _ inner))
    have rightKnown := ihr fun x inner => signs x (.tail _ (List.mem_append_right _ inner))
    have whole := known.append leftKnown (known.behind (known.operator op) rightKnown)
    rw [written_binary, Expr.callsQuoted_binary]
    simpa using whole
  | @isNull subject negated inside tight ih =>
    rw [written_isNull]
    refine known.ended (ih fun x inner => signs x (.tail _ inner)) ?_
    cases negated <;> decide
  | @inList subject values negated inside tight nonempty each ih ihv =>
    have first := ih fun x inner => signs x (.tail _ (List.mem_append_left _ inner))
    have listed := known.commas fun a member => ihv a member fun x inner => signs x (by
      rw [Expr.nodes, Expr.listNodes_eq]
      exact .tail _ (List.mem_append_right _ (List.mem_flatMap.mpr ⟨a, member, inner⟩)))
    have word := known.optional (t := ' ' :: "NOT".toList) (by decide) negated
    have whole := known.append first (known.behind word
      (known.opened (t := ' ' :: "IN".toList ++ ' ' :: "(".toList) (by decide)
        (known.ended (u := [')']) listed rfl)))
    rw [written_inList, Expr.callsQuoted_inList]
    simpa using whole

theorem aliasName {word : List Char} (check : word.all isOrdinary = true) {alias? : Option String}
    (parts : ∀ name ∈ alias?, IsPart name) : P (aliasWritten f word alias?) false := by
  cases alias? with
  | none => exact known.ordinary rfl
  | some name =>
    exact known.opened check (known.opened (t := [' ']) rfl (known.part (parts name rfl)))

theorem tableRef {table : TableRef} (wellFormed : table.WellFormed) :
    P (table.written f) false := by
  obtain ⟨parts, path, named⟩ := wellFormed.name
  rw [TableRef.written, named]
  exact known.before (known.name path) (known.aliasName rfl wellFormed.alias?)

theorem condition (word : String) (check : (' ' :: word.toList ++ [' ']).all isOrdinary = true)
    {condition : Option Expr} (wellFormed : ∀ e ∈ condition, e.WellFormed)
    (signs : ∀ e ∈ condition, ∀ x, .negate x ∈ e.nodes → Sign x) :
    P (conditionWritten f word condition) (condition.any Expr.callsQuoted) := by
  cases condition with
  | none => exact known.ordinary rfl
  | some e =>
    have whole := known.opened check (known.expr (wellFormed e rfl) (signs e rfl))
    rwa [List.append_assoc] at whole

theorem joins {joins : List Join} (wellFormed : ∀ join ∈ joins, join.WellFormed)
    (signs : ∀ join ∈ joins, ∀ e ∈ join.on?, ∀ x, .negate x ∈ e.nodes → Sign x) :
    P (joins.map (Join.written f)).flatten
      (joins.any fun join => join.on?.any Expr.callsQuoted) := by
  induction joins with
  | nil => exact known.ordinary rfl
  | cons join joins ih =>
    have shape := wellFormed join List.mem_cons_self
    have kind : (' ' :: join.kind.toSql.toList).all isOrdinary = true := by
      cases join.kind <;> decide
    have table := known.opened (t := [' ']) rfl (known.tableRef shape.table)
    have on := known.condition "ON" (by decide) shape.on? (signs join List.mem_cons_self)
    exact known.append (known.opened kind (known.behind table on))
      (ih (fun next member => wellFormed next (.tail join member))
        fun next member => signs next (.tail join member))

theorem list {α : Type} (head : List Char) (check : head.all isOrdinary = true) {items : List α}
    {text : α → List Char} {found : α → Bool} (each : ∀ a ∈ items, P (text a) (found a)) :
    P (listWritten head (items.map text)) (items.any found) := by
  cases items with
  | nil => exact known.ordinary rfl
  | cons a items => exact known.opened check (known.opened (t := [' ']) rfl (known.commas each))

theorem query {select : Select} (wellFormed : select.WellFormed)
    (signs : ∀ x, .negate x ∈ select.nodes → Sign x) : P (select.written f) select.callsQuoted := by
  have each : ∀ e ∈ select.exprs, ∀ x, .negate x ∈ e.nodes → Sign x := fun e member x found =>
    signs x (List.mem_flatMap.mpr ⟨e, member, found⟩)
  simp only [Select.mem_exprs] at each
  have items : P (SqlDialects.commas (select.items.map (SelectItem.written f)))
      (select.items.any fun item => item.expr.callsQuoted) :=
    known.commas fun item member =>
      known.before (known.expr (wellFormed.items item member).expr
          (each _ (.inl ⟨item, member, rfl⟩)))
        (known.aliasName (by decide) (wellFormed.items item member).alias?)
  have tables := known.list (' ' :: "FROM".toList) (by decide)
    fun table member => known.tableRef (wellFormed.tables table member)
  rw [List.any_eq_false.mpr (by simp)] at tables
  have joins := known.joins wellFormed.joins fun join member e found =>
    each e (.inr (.inl ⟨join, member, found⟩))
  have filter := known.condition "WHERE" (by decide) wellFormed.filter fun e found =>
    each e (.inr (.inr (.inl found)))
  have groups := known.list (' ' :: "GROUP BY".toList) (by decide) fun e member =>
    known.expr (wellFormed.groupBy e member) (each e (.inr (.inr (.inr (.inl member)))))
  have having := known.condition "HAVING" (by decide) wellFormed.having fun e found =>
    each e (.inr (.inr (.inr (.inr (.inl found)))))
  have orders : P
      (listWritten (' ' :: "ORDER BY".toList) (select.orderBy.map (OrderItem.written f)))
      (select.orderBy.any fun item => item.expr.callsQuoted) :=
    known.list _ (by decide) fun item member =>
      known.before (known.expr (wellFormed.orderBy item member)
          (each _ (.inr (.inr (.inr (.inr (.inr ⟨item, member, rfl⟩)))))))
        (known.optional (by decide) item.descending)
  have distinct := known.optional (t := ' ' :: "DISTINCT".toList) (by decide) select.distinct
  have page := page_ordinary select.page
  rw [select_written, Select.callsQuoted_eq]
  exact known.opened (t := "SELECT".toList) (by decide) (known.behind distinct
    (known.append (known.opened (t := [' ']) rfl items) (known.behind tables (known.append joins
      (known.append filter (known.append groups (known.append having
        (known.ended orders page))))))))

end ByParts

end SqlDialects
