import SqlDialects.Proofs.Conversion.RenamedCalls
import SqlDialects.Proofs.Grammar.Script

/-
Double quotes in a query that was converted for MySQL. Every quoted name of the tree is written in
backquotes, but for the names of functions: these are the only ones whose double quotes are left.
-/
namespace SqlDialects

open Reader

/-! Double quotes in code. -/

/-- Whether a double quote stands in code, outside of string literals and of names in backquotes. The
first argument is the quote that is open, if any. -/
def quoteInCode : Option Char → List Char → Bool
  | _, [] => false
  | none, c :: rest =>
    c == '"' || quoteInCode (if c = '\x27' ∨ c = '\x60' then some c else none) rest
  | some q, c :: rest => quoteInCode (if c = q then none else some q) rest

def Leaves (t : List Char) (found : Bool) : Prop :=
  ∀ rest, quoteInCode none (t ++ rest) = (found || quoteInCode none rest)

theorem leaves_nil : Leaves [] false := fun _ => rfl

theorem Leaves.append {t u : List Char} {a b : Bool} (first : Leaves t a) (second : Leaves u b) :
    Leaves (t ++ u) (a || b) := by
  intro rest
  rw [List.append_assoc, first, second, Bool.or_assoc]

theorem Leaves.behind {t u : List Char} {b : Bool} (first : Leaves t false) (second : Leaves u b) :
    Leaves (t ++ u) b := first.append second

theorem leaves_unquoted {t : List Char} (unquoted : ∀ c ∈ t, Nesting.isQuote c = false) :
    Leaves t false := by
  induction t with
  | nil => exact leaves_nil
  | cons c t ih =>
    intro rest
    have tail := ih (fun d member => unquoted d (.tail c member)) rest
    have plain := unquoted c List.mem_cons_self
    simp only [Nesting.isQuote, Bool.or_eq_false_iff, beq_eq_false_iff_ne] at plain
    simpa [quoteInCode, plain, beq_eq_false_iff_ne.mpr plain.1.2] using tail

theorem leaves_text {t : List Char} (check : t.all (!Nesting.isQuote ·) = true) :
    Leaves t false := by
  refine leaves_unquoted fun c member => ?_
  simpa using List.all_eq_true.mp check c member

theorem leaves_enclose {q : Char} (known : q = '\x27' ∨ q = '\x60') (body : List Char) :
    Leaves (Text.enclose q body) false := by
  have opened : ∀ rest, quoteInCode none (q :: rest) = quoteInCode (some q) rest := by
    intro rest
    rcases known with rfl | rfl <;> simp [quoteInCode]
  have closed : ∀ rest, quoteInCode (some q) (Text.double q body ++ q :: rest)
      = quoteInCode none rest := by
    intro rest
    induction body with
    | nil => simp [Text.double, quoteInCode]
    | cons c body ih =>
      rw [Text.double]
      split
      · rw [List.cons_append, List.cons_append, quoteInCode, if_pos rfl, opened, ih]
      · next other => rw [List.cons_append, quoteInCode, if_neg other, ih]
  intro rest
  rw [Text.enclose, List.cons_append, opened, List.append_assoc, List.singleton_append, closed,
    Bool.false_or]

theorem leaves_quoted (body : List Char) : Leaves (Text.enclose '"' body) true := fun _ => rfl

theorem leaves_ordinary {t : List Char} (check : t.all isOrdinary = true) : Leaves t false := by
  refine leaves_unquoted fun c member => ?_
  have ordinary := List.all_eq_true.mp check c member
  simp only [isOrdinary, Bool.and_eq_true, Bool.not_eq_true'] at ordinary
  exact ordinary.1.1.1

/-! Names. -/

theorem leaves_path {parts : List String} (path : IsPath parts) :
    Leaves (".".intercalate parts).toList ((".".intercalate parts).toList.contains '"') := by
  have part : ∀ {name : String}, IsPart name → Leaves name.toList (name.toList.contains '"') := by
    intro name isPart
    rcases isPart_cases isPart with ⟨body, quoted⟩ | ⟨shape, _⟩
    · rw [quoted]
      exact leaves_quoted body
    · have free : name.toList.contains '"' = false := by
        rw [← Bool.not_eq_true, List.contains_iff_mem]
        exact fun member => (word_unquoted shape _ member).2 rfl
      rw [free]
      exact leaves_ordinary (word_ordinary shape.inside)
  obtain ⟨nonempty, each⟩ := path
  induction parts with
  | nil => exact absurd rfl nonempty
  | cons first parts ih =>
    cases parts with
    | nil =>
      rw [String.intercalate_singleton]
      exact part (each first (by simp))
    | cons next parts =>
      have tail := ih (by simp) fun found member => each found (.tail first member)
      have dot : Leaves ['.'] false := leaves_text rfl
      rw [dotted_cons, List.contains_append, List.contains_append]
      exact (part (each first (by simp))).append (dot.append tail)

theorem leaves_requoted {parts : List String} (path : IsPath parts) :
    Leaves (requotedName '\x60' (".".intercalate parts)).toList false := by
  have part : ∀ {name : String}, IsPart name → ∃ t, Leaves t false ∧ ∀ rest,
      rest.head? ≠ some '"' → (Text.requoteFrom '"' '\x60' .code (name.toList ++ rest)).1
        = t ++ (Text.requoteFrom '"' '\x60' .code rest).1 := by
    intro name isPart
    rcases isPart_cases isPart with ⟨body, quoted⟩ | ⟨shape, _⟩
    · refine ⟨Text.enclose '\x60' body, leaves_enclose (.inr rfl) body, fun rest closed => ?_⟩
      rw [quoted, Text.requoteFrom_enclosed (by decide) body closed]
    · refine ⟨name.toList, leaves_ordinary (word_ordinary shape.inside), fun rest _ => ?_⟩
      rw [Text.requoteFrom_plain (word_unquoted shape)]
  rw [requotedName, String.toList_ofList, Text.requote]
  obtain ⟨nonempty, each⟩ := path
  induction parts with
  | nil => exact absurd rfl nonempty
  | cons first parts ih =>
    obtain ⟨t, leaves, requoted⟩ := part (each first (by simp))
    cases parts with
    | nil =>
      have alone := requoted [] (by simp)
      rw [List.append_nil, Text.requoteFrom_nil, List.append_nil] at alone
      rwa [String.intercalate_singleton, alone]
    | cons next parts =>
      have tail := ih (by simp) fun found member => each found (.tail first member)
      have dot : Leaves ['.'] false := leaves_text rfl
      rw [dotted_cons, requoted _ (by simp), Text.requoteFrom_plain (by simp)]
      exact leaves.behind (dot.behind tail)

/-! Queries. -/

theorem leaves_parts : ByParts (requotedName '\x60') (fun _ => True) Leaves where
  append := Leaves.append
  ordinary := leaves_ordinary
  literal body := leaves_enclose (.inl rfl) body
  name := leaves_requoted
  called := leaves_path
  operator op := by cases op <;> exact leaves_text (by decide)
  negated _ _ _ leaves := (leaves_text (t := ['-']) rfl).behind leaves

theorem Select.callsQuoted_iff (select : Select) :
    select.callsQuoted = true ↔ ∃ name args distinct bare,
      .call name args distinct bare ∈ select.nodes ∧ '"' ∈ name.toList := by
  simp only [callsQuoted, Expr.callsQuoted, nodes, List.any_eq_true, List.mem_flatMap]
  constructor
  · rintro ⟨e, listed, node, found, quoted⟩
    cases node with
    | call name args distinct bare =>
      exact ⟨name, args, distinct, bare, ⟨e, listed, found⟩, List.contains_iff_mem.mp quoted⟩
    | _ => cases quoted
  · rintro ⟨name, args, distinct, bare, ⟨e, listed, found⟩, quoted⟩
    exact ⟨e, listed, _, found, List.contains_iff_mem.mpr quoted⟩

/-- The text of a query for MySQL has a double quote in code if a function with a quoted name is
called in it, and not otherwise. -/
theorem leaves_query {select : Select} (wellFormed : select.WellFormed) :
    Leaves (select.written (requotedName '\x60')) select.callsQuoted :=
  leaves_parts.query wellFormed fun _ _ => trivial

/-! Renamed calls. -/

theorem sources_unquoted :
    allMappings.all (fun mapping => !mapping.source.toList.contains '"'
      && mapping.action.target?.all fun target => !target.toList.contains '"') = true := by
  decide +kernel

theorem newName_unquoted {pair : Pair} {call : Call} {target : String}
    (found : call.newName? pair = some target) :
    call.name.toList.contains '"' = false ∧ target.toList.contains '"' = false := by
  obtain ⟨mapping, listed, source, named⟩ := Call.newName_listed found
  have free := List.all_eq_true.mp sources_unquoted mapping (table_listed listed)
  rw [named, source, Text.upper, String.toList_ofList] at free
  simp only [Option.all_some, Bool.and_eq_true, Bool.not_eq_true'] at free
  refine ⟨?_, free.2⟩
  rw [← Bool.not_eq_true, List.contains_iff_mem] at free ⊢
  exact fun quoted => free.1 (List.mem_map.mpr ⟨'"', quoted, rfl⟩)

theorem adaptCalls_callsQuoted (pair : Pair) (e : Expr) :
    (e.adaptCalls pair).callsQuoted = e.callsQuoted := by
  cases e with
  | call name args distinct bare =>
    have each : (args.map (Expr.adaptCalls pair)).any Expr.callsQuoted
        = args.any Expr.callsQuoted := by
      rw [List.any_map, Bool.eq_iff_iff, List.any_eq_true, List.any_eq_true]
      refine exists_congr fun a => and_congr_right fun member => ?_
      have smaller := List.sizeOf_lt_of_mem member
      rw [Function.comp, adaptCalls_callsQuoted pair a]
    rw [Expr.adaptCalls_call]
    cases found : Call.newName? pair ⟨name, args, distinct, bare⟩ with
    | none => simp only [Expr.callsQuoted_call, each]
    | some target =>
      obtain ⟨old, new⟩ := newName_unquoted found
      simp only [Expr.callsQuoted_call, each, old, new]
  | binary left op right =>
    rw [Expr.adaptCalls, Expr.callsQuoted_binary, Expr.callsQuoted_binary,
      adaptCalls_callsQuoted pair left, adaptCalls_callsQuoted pair right]
  | _ => rfl

theorem adaptedTree_callsQuoted (pair : Pair) (select : Select) :
    (select.adaptedTree pair).callsQuoted = select.callsQuoted := by
  rw [Select.callsQuoted_eq, Select.callsQuoted_eq, Select.adaptedTree, Select.adaptCalls]
  simp only [List.any_map, Option.any_map, Function.comp_def, adaptCalls_callsQuoted]

/-- A query of Tibero or Oracle that is converted for MySQL has a double quote outside of string
literals and of names in backquotes exactly if a function with a quoted name is called in it. -/
theorem quotes_left_by_calls {pair : Pair} (source : pair.source = .tibero ∨ pair.source = .oracle)
    (target : pair.target = .mysql) (options : Options) {sql : String} {select : Select}
    (read : SourceStatement.ofSql sql = .ok ⟨sql, .select select⟩) :
    ∃ outcome, convertSql pair options sql = .ok outcome
      ∧ (quoteInCode none outcome.sql.toList = true ↔ ∃ name args distinct bare,
        .call name args distinct bare ∈ select.nodes ∧ '"' ∈ name.toList) := by
  have distinct : pair.isIdentity = false := by
    rcases source with source | source <;> simp [Pair.isIdentity, source, target]
  have named : ∀ tree : Select, (tree.requoted pair.target).1 = tree.mapNames (requotedName '\x60') := by
    intro tree
    rw [target]
    rfl
  refine ⟨.ofNotes options (select.convert pair sql).1 (select.convert pair sql).2, ?_, ?_⟩
  · simp [convertSql, read, Except.map, SourceStatement.convert, distinct]
  · have scanned := leaves_query (select.adaptedTree_wellFormed pair (ofSql_wellFormed read)) []
    rw [List.append_nil, quoteInCode, Bool.or_false, adaptedTree_callsQuoted] at scanned
    rw [← Select.callsQuoted_iff, ← scanned, Outcome.ofNotes, convert_tree_text sql select source named,
      String.toList_ofList]

theorem quoted_names_requoted :
    ∃ outcome, convertSql ⟨.tibero, .mysql⟩ {} "SELECT f(\"a\"\"b\", '\"') \"c\" FROM \"s\".t" = .ok outcome
      ∧ quoteInCode none outcome.sql.toList = false := by
  have unquoted : (queryOf? "SELECT f(\"a\"\"b\", '\"') \"c\" FROM \"s\".t").map Select.callsQuoted
      = some false := by
    decide +kernel
  obtain ⟨select, read, found⟩ := read_of_queryOf? unquoted
  obtain ⟨outcome, converted, left⟩ :=
    @quotes_left_by_calls ⟨.tibero, .mysql⟩ (.inl rfl) rfl {} _ _ read
  rw [← Select.callsQuoted_iff, found] at left
  exact ⟨outcome, converted, by simpa using left⟩

/-- The name of a function stays in double quotes. -/
theorem quoted_call_kept :
    ((convertSql ⟨.oracle, .mysql⟩ {} "SELECT \"f\"(1) FROM t").toOption.map Outcome.sql)
        = some "SELECT \"f\"(1) FROM t"
      ∧ quoteInCode none "SELECT \"f\"(1) FROM t".toList = true := by
  decide +kernel

end SqlDialects
