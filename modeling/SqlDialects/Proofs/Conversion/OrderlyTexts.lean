import SqlDialects.Proofs.Conversion.AuditTrail
import SqlDialects.Proofs.Conversion.RenamedCalls
import SqlDialects.Proofs.Rules.ConvertedCalls
import SqlDialects.Proofs.Rules.ConvertedPages
import SqlDialects.Proofs.Rules.Endings

/-
Converted texts of orderly queries. What the rules of a pair make of such a text is read as a query
with the names and the string literals of the first one, with the names that the function table has
for its calls, and with a row limit for the same rows.
-/
namespace SqlDialects

open Text Pattern Reader Spelling Change Lexeme

/-! The names of calls, in the tree and in the text. -/

def Expr.function? : Expr → Option String
  | .call name _ _ _ => some name
  | _ => none

def Expr.functionIn? (pair : Pair) : Expr → Option String
  | .call name args distinct bare =>
    some ((Call.newName? pair ⟨name, args, distinct, bare⟩).getD name)
  | _ => none

/-- The rules and the function table know a call by the same name. The table goes by the whole name,
the rules by the last word in it. -/
def Expr.FoundByName (pair : Pair) : Expr → Prop
  | .call name _ _ false => ∀ mapping ∈ FunctionMapping.table pair,
      mapping.action.target?.isSome = true → Same (lastWord name.toList) mapping.source →
        mapping.source = Text.upper name
  | _ => True

instance (k : List Char) (word : String) : Decidable (Same k word) :=
  inferInstanceAs (Decidable (k.map foldCase = word.toList.map foldCase))

instance (pair : Pair) : DecidablePred (Expr.FoundByName pair)
  | .call name _ _ false => inferInstanceAs (Decidable (∀ mapping ∈ FunctionMapping.table pair,
      mapping.action.target?.isSome = true → Same (lastWord name.toList) mapping.source →
        mapping.source = Text.upper name))
  | .call _ _ _ true | .binary .. | .column _ | .star _ | .group _ | .not _ | .negate _ | .isNull ..
  | .inList .. | .number _ | .string _ | .null | .parameter _ => inferInstanceAs (Decidable True)

theorem upper_found {name source : String} (capital : IsCapitalWord source)
    (upper : Text.upper name = source) :
    IsLastWord name ∧ Same (lastWord name.toList) source := by
  have raised : name.toList.map Char.toUpper = source.toList := by
    rw [← upper, Text.upper, String.toList_ofList]
  have plain : ∀ c ∈ name.toList, isPlain c = true := by
    intro c member
    have letter := capital.inside c.toUpper (by rw [← raised]; exact List.mem_map_of_mem member)
    rcases (Bool.or_eq_true ..).mp letter with upper | low
    · exact plain_of_isAlpha (by simpa using upper)
    · cases lower : c.isLower with
      | true =>
        have letter : c.toUpper.isUpper = true := by simp [Char.isAlpha, lower]
        rw [beq_iff_eq.mp low] at letter
        cases letter
      | false =>
        rw [Char.toUpper_eq_of_not_isLower (by simp [lower])] at low
        simp [isPlain, low]
  have run : IsRun name.toList := by
    refine ⟨fun empty => capital.nonempty ?_, plain⟩
    rw [← raised, empty]
    rfl
  have whole := lastWord_word run.word.inside
  refine ⟨whole, ?_⟩
  rw [whole]
  exact (same_iff run capital).mpr upper

section Table

variable {table : List FunctionMapping} {mapping : FunctionMapping}

theorem find_listed (turns : inTurn table = true) (listed : mapping ∈ table) :
    table.find? (fun other => other.source == mapping.source) = some mapping := by
  induction table with
  | nil => cases listed
  | cons first table ih =>
    simp only [inTurn, Bool.and_eq_true] at turns
    rcases List.mem_cons.mp listed with rfl | listed
    · simp
    · have other := List.all_eq_true.mp turns.1.2 mapping listed
      have apart : (first.source == mapping.source) = false := by
        simp only [Bool.and_eq_true, bne_iff_ne] at other
        simpa using other.1.symm
      rw [List.find?_cons, apart]
      exact ih turns.2 listed

end Table

theorem lookup_listed {pair : Pair} {name : String} {mapping : FunctionMapping}
    (found : FunctionMapping.lookup? pair name = some mapping) :
    mapping ∈ FunctionMapping.table pair ∧ mapping.source = Text.upper name :=
  ⟨List.mem_of_find?_eq_some found, by simpa using List.find?_some found⟩

theorem newName_eq (pair : Pair) (call : Call) : call.newName? pair
    = ((FunctionMapping.lookup? pair call.name).bind (·.action.target?)).filter
      fun target => !losesArguments target call.args := by
  rw [Call.newName?]
  cases FunctionMapping.lookup? pair call.name with
  | none => rfl
  | some mapping =>
    simp only [Option.map_some, Option.bind_some]
    cases mapping.action with
    | rename target | approximate target _ =>
      have loses : (isNiladic target && !call.args.isEmpty) = losesArguments target call.args := rfl
      simp only [FunctionAction.target?, Option.filter_some, loses]
      cases losesArguments target call.args <;> rfl
    | unsupported _ | native => rfl

section Names

variable {pair : Pair} (source : pair.source = .mysql ∨ pair.source = .postgresql)
  {name : String} {args : List Expr} {distinct bare : Bool}
include source

theorem newName_listed {mapping : FunctionMapping} (listed : mapping ∈ FunctionMapping.table pair)
    {target : String} (found : mapping.action.target? = some target)
    (same : mapping.source = Text.upper name) (written : isNiladic target = false ∨ args = []) :
    Call.newName? pair ⟨name, args, distinct, bare⟩ = some target := by
  have first : FunctionMapping.lookup? pair name = some mapping := by
    rw [FunctionMapping.lookup?, ← same]
    exact find_listed (table_inTurn source) listed
  have fits : losesArguments target args = false := by
    rcases written with called | rfl
    · simp [losesArguments, called]
    · simp [losesArguments]
  rw [newName_eq, first, Option.bind_some, found, Option.filter_some, fits]
  rfl

theorem newName_found {mapping : FunctionMapping} (listed : mapping ∈ FunctionMapping.table pair)
    {target : String} (found : mapping.action.target? = some target)
    (same : Same (lastWord name.toList) mapping.source)
    (known : (Expr.call name args distinct false).FoundByName pair)
    (written : isNiladic target = false ∨ args = []) :
    IsLastWord name ∧ Call.newName? pair ⟨name, args, distinct, false⟩ = some target := by
  have upper := known mapping listed (by simp [found]) same
  have capital := (inTurn_listed (table_inTurn source) listed).1.capital
  exact ⟨(upper_found capital upper.symm).1, newName_listed source listed found upper written⟩

theorem newName_kept (others : ∀ mapping ∈ FunctionMapping.table pair, ∀ target,
      mapping.action.target? = some target → Same (lastWord name.toList) mapping.source →
        isNiladic target = true ∧ args ≠ []) :
    Call.newName? pair ⟨name, args, distinct, bare⟩ = none := by
  rw [newName_eq, Option.filter_eq_none_iff]
  intro target found
  obtain ⟨mapping, first, found⟩ := Option.bind_eq_some_iff.mp found
  obtain ⟨listed, same⟩ := lookup_listed first
  have capital := (inTurn_listed (table_inTurn source) listed).1.capital
  obtain ⟨niladic, filled⟩ := others mapping listed target found (upper_found capital same.symm).2
  simp [losesArguments, niladic, filled]

theorem newName_niladic (niladic : isNiladic name = true) :
    Call.newName? pair ⟨name, args, distinct, bare⟩ = none := by
  rw [newName_eq, Option.filter_eq_none_iff]
  intro target found
  obtain ⟨mapping, first, _⟩ := Option.bind_eq_some_iff.mp found
  obtain ⟨listed, same⟩ := lookup_listed first
  have renameable := (inTurn_listed (table_inTurn source) listed).1
  have apart := @Renameable.uncalled _ name renameable name niladic
  rw [newName, if_pos same.symm] at apart
  cases apart

end Names

/-! Expressions with the same names and literals. -/

def Expr.literal? : Expr → Option String
  | .string value => some value
  | _ => none

/-- The second expression has all names and the literals of the first. Where the rules and the table
know every call by the same name, its calls are those of the first one under their new names. -/
structure Expr.Converted (pair : Pair) (e e' : Expr) : Prop where
  names : e.names.Sublist e'.names
  literals : e'.nodes.filterMap Expr.literal? = e.nodes.filterMap Expr.literal?
  calls : (∀ x ∈ e.nodes, x.FoundByName pair) →
    e'.nodes.filterMap Expr.function? = e.nodes.filterMap (Expr.functionIn? pair)

theorem converted_list {pair : Pair} {as bs : List Expr}
    (alike : List.Forall₂ (Expr.Converted pair) as bs) :
    (Expr.listNames as).Sublist (Expr.listNames bs)
      ∧ (Expr.listNodes bs).filterMap Expr.literal? = (Expr.listNodes as).filterMap Expr.literal?
      ∧ ((∀ x ∈ Expr.listNodes as, x.FoundByName pair) →
        (Expr.listNodes bs).filterMap Expr.function?
          = (Expr.listNodes as).filterMap (Expr.functionIn? pair)) := by
  induction alike with
  | nil => exact ⟨List.Sublist.refl _, rfl, fun _ => rfl⟩
  | @cons a b as bs first others ih =>
    obtain ⟨names, literals, calls⟩ := ih
    refine ⟨first.names.append names, ?_, fun known => ?_⟩
    · rw [Expr.listNodes, Expr.listNodes, List.filterMap_append, List.filterMap_append, first.literals,
        literals]
    · rw [Expr.listNodes, List.forall_mem_append] at known
      rw [Expr.listNodes, Expr.listNodes, List.filterMap_append, List.filterMap_append,
        first.calls known.1, calls known.2]

theorem converted_binary {pair : Pair} {a b c d : Expr} (op other : BinaryOp)
    (left : a.Converted pair b) (right : c.Converted pair d) :
    (Expr.binary a op c).Converted pair (.binary b other d) := by
  refine ⟨left.names.append right.names, ?_, fun known => ?_⟩
  · simp only [Expr.nodes, List.filterMap_cons, List.filterMap_append, Expr.literal?, left.literals,
      right.literals]
  · have below := (List.forall_mem_cons.mp known).2
    rw [List.forall_mem_append] at below
    simp only [Expr.nodes, List.filterMap_cons, List.filterMap_append, Expr.function?,
      Expr.functionIn?, left.calls below.1, right.calls below.2]

theorem converted_congruent {pair : Pair}
    (source : pair.source = .mysql ∨ pair.source = .postgresql) : Congruent (Expr.Converted pair) where
  leaf e leaf := by
    cases e with
    | column | number | string | null | star | parameter =>
      exact ⟨List.Sublist.refl _, rfl, fun _ => rfl⟩
    | call | binary | group | not | negate | isNull | inList => cases leaf
  bare name niladic := by
    refine ⟨List.Sublist.refl _, rfl, fun _ => ?_⟩
    have same : Expr.functionIn? pair (.call name [] false true) = some name := by
      rw [Expr.functionIn?, newName_niladic source niladic]
      rfl
    rw [Expr.nodes, Expr.listNodes, List.filterMap_cons_some same]
    rfl
  binary op := converted_binary op op
  group inner := ⟨inner.names, inner.literals, fun known => inner.calls (List.forall_mem_cons.mp known).2⟩
  not inner := ⟨inner.names, inner.literals, fun known => inner.calls (List.forall_mem_cons.mp known).2⟩
  negate inner := ⟨inner.names, inner.literals, fun known => inner.calls (List.forall_mem_cons.mp known).2⟩
  isNull inner := ⟨inner.names, inner.literals, fun known => inner.calls (List.forall_mem_cons.mp known).2⟩
  inList subject values := by
    obtain ⟨names, literals, calls⟩ := converted_list values
    refine ⟨subject.names.append names, ?_, fun known => ?_⟩
    · simp only [Expr.nodes, List.filterMap_cons, List.filterMap_append, Expr.literal?, subject.literals,
        literals]
    · have below := (List.forall_mem_cons.mp known).2
      rw [List.forall_mem_append] at below
      simp only [Expr.nodes, List.filterMap_cons, List.filterMap_append, Expr.function?,
        Expr.functionIn?, subject.calls below.1, calls below.2]

/-! Calls. -/

theorem arguments_closed {depth : Nat} {name : String} {e : Expr} {t rest : List Char}
    (spelled : ArgumentsText (ExprText depth) name e t rest) (closed : front (t ++ rest) = some ')') :
    e = .call name [] false false ∧ SymbolText ")" () t rest := by
  have begins : ∀ e t rest, ExprText depth e t rest → Begins ["NULL", "NOT"] (t ++ rest) := by
    intro e t rest spelled
    cases depth with
    | zero => cases spelled
    | succ depth => exact or_begins spelled
  cases spelled with
  | none closing => exact ⟨rfl, closing⟩
  | all star closing =>
    rw [List.append_assoc, front, symbol_front star] at closed
    cases closed
  | some only listed closing =>
    exfalso
    simp only [List.append_assoc] at closed
    cases only with
    | missing =>
      obtain ⟨c, first, start⟩ := (values_begins begins listed).start
      rw [List.nil_append, first] at closed
      cases closed
      cases start
    | there word =>
      obtain ⟨c, first, letter⟩ := keyword_front word rfl (by decide)
      rw [first] at closed
      cases closed
      cases letter

section Calls

variable {pair : Pair} (source : pair.source = .mysql ∨ pair.source = .postgresql)
  (different : pair.target ≠ pair.source)

theorem converted_call {name new : String} {as bs : List Expr} {distinct bare : Bool}
    (alike : List.Forall₂ (Expr.Converted pair) as bs)
    (named : (Expr.call name as distinct false).FoundByName pair →
      (Call.newName? pair ⟨name, as, distinct, false⟩).getD name = new) :
    (Expr.call name as distinct false).Converted pair (.call new bs distinct bare) := by
  obtain ⟨names, literals, calls⟩ := converted_list alike
  refine ⟨names, literals, fun known => ?_⟩
  obtain ⟨here, below⟩ := List.forall_mem_cons.mp known
  simp only [Expr.nodes, List.filterMap_cons, Expr.function?, Expr.functionIn?, calls below, named here]

theorem arguments_unclosed {depth : Nat} {name : String} {as : List Expr} {distinct : Bool}
    {t rest : List Char} (spelled : ArgumentsText (ExprText depth) name (.call name as distinct false) t rest)
    (orderly : pair.isOrderly (t ++ rest) = true) (unclosed : Unclosed (t ++ rest)) : as ≠ [] := by
  cases spelled with
  | none closed =>
    refine absurd ?_ unclosed
    rw [← orderly_gaps orderly]
    exact closing_front closed
  | all star closed => exact List.cons_ne_nil _ _
  | some only listed closed => cases listed <;> exact List.cons_ne_nil _ _

include source different

theorem converts_lexical : pair.Converts.Lexical :=
  (converts_keeping source different).lexical (fun _ listed => listed) fun _ stop => stop

theorem converts_call {depth : Nat} {parts : List String} {e : Expr}
    {t opening args rest w : List Char}
    (inner : pair.Converts.Carries Uncontinued (ExprText depth) (Expr.Converted pair))
    (named : PathText parts t (opening ++ (args ++ rest)))
    (opened : SymbolText "(" () opening (args ++ rest))
    (inside : ArgumentsText (ExprText depth) (".".intercalate parts) e args rest)
    (ended : Uncontinued rest) (changed : pair.Converts (t ++ (opening ++ (args ++ rest))) w) :
    pair.Converts.Finds (OperandText (ExprText depth)) (Expr.Converted pair e) rest w := by
  have lexical := converts_lexical source different
  have all := (converted_congruent source).leaf (.star none) rfl
  obtain ⟨orderly, rfl⟩ := changed
  obtain ⟨called, later⟩ := converted_path source different named opened orderly
  cases called with
  | kept others named' opened' text =>
    obtain ⟨_, a', rest', split, inside', ⟨as, bs, distinct, rfl, rfl, alike⟩, changed⟩ :=
      carries_arguments lexical inner all inside ⟨later, rfl⟩
    rw [split] at named' opened' text
    refine ⟨_, _, rest', by simpa using text, .call named' opened' inside', ?_, changed⟩
    refine converted_call alike fun _ => ?_
    rw [newName_kept source fun mapping listed target found same => ?_]
    · rfl
    · obtain ⟨niladic, unclosed⟩ := others mapping listed target found same
      exact ⟨niladic, arguments_unclosed inside later unclosed⟩
  | @renamed mapping target new t' listed found same called whole named' text =>
    obtain ⟨_, a', rest', split, inside', ⟨as, bs, distinct, rfl, rfl, alike⟩, changed⟩ :=
      @carries_arguments _ _ lexical _ inner _ (".".intercalate new) _ _ _ _ all inside ⟨later, rfl⟩
    rw [split] at named' text
    have solid : afterGap ("(".toList ++ (a' ++ rest')) = none := solid_of_head _ (by decide)
    have opened' : SymbolText "(" () ([] ++ "(".toList) (a' ++ rest') := .mk (skipGaps_of_none _ solid)
    refine ⟨_, _, rest', by simpa using text, .call named' opened' inside', ?_, changed⟩
    refine converted_call alike fun known => ?_
    obtain ⟨last, new⟩ := newName_found source listed found same known (.inl called)
    rw [new, whole last]
    simp
  | @dropped mapping target new h t' last listed found same bare whole blank closed named' text =>
    have first : skipGaps (args ++ rest) = ')' :: last := by
      rw [orderly_gaps later, closed, List.dropWhile_append_of_pos blank]
      rfl
    obtain ⟨rfl, closing⟩ := arguments_closed inside (by rw [front, first]; rfl)
    obtain rfl : rest = last := by
      have same := (symbol_front closing).symm.trans first
      exact (List.cons.inj same).2
    rw [closed] at later
    have orderly := (orderly_mark rfl rfl (orderly_blanks blank later).2).2.2.2.2
    have changed : pair.Converts rest (pair.converted rest) := ⟨orderly, rfl⟩
    have uncalled := (lexical.uncontinued changed ended).uncalled
    have single : (Expr.call (".".intercalate parts) [] false false).FoundByName pair →
        new = [target] ∧ Call.newName? pair ⟨".".intercalate parts, [], false, false⟩ = some target := by
      intro known
      obtain ⟨last, new⟩ := newName_found source listed found same known (.inr rfl)
      exact ⟨whole last, new⟩
    cases alone : new.length == 1 && isNiladic (".".intercalate new) with
    | true =>
      simp only [Bool.and_eq_true, beq_iff_eq] at alone
      obtain ⟨name, rfl⟩ := List.length_eq_one_iff.mp alone.1
      refine ⟨_, t', _, text, .bare named' (by simpa using alone.2) uncalled, ?_, changed⟩
      refine converted_call .nil fun known => ?_
      obtain ⟨same, new⟩ := single known
      rw [new, Option.getD_some]
      exact (List.cons.inj same).1.symm
    | false =>
      refine ⟨_, t', _, text, .column named' alone uncalled, ⟨List.nil_sublist _, rfl, fun known => ?_⟩,
        changed⟩
      -- a name without a dot is that of the target, which is written without parentheses
      rw [(single (known _ List.mem_cons_self)).1] at alone
      simp [bare] at alone

theorem converts_lawful (body : List Char) :
    (pair.Converts.within (· <:+ body)).Lawful (Expr.Converted pair) (Page.Converted pair body) := by
  have closed : ∀ {t rest : List Char}, t ++ rest <:+ body → rest <:+ body :=
    fun inside => (List.suffix_append _ _).trans inside
  have lawful : pair.Converts.Lawful (Expr.Converted pair) fun _ _ => True :=
    { lexical := converts_lexical source different
      congruent := converted_congruent source
      ilike := fun spelled changed => converts_ilike source different (converted_congruent source)
        (converted_binary .ilike .like) spelled changed
      call := fun inner named opened inside ended changed =>
        converts_call source different inner named opened inside ended changed
      page := by
        rintro page t rest w spelled atEnd ⟨orderly, rfl⟩
        obtain ⟨found, t', rest', split, limit, _, changed⟩ :=
          converts_page source different spelled atEnd List.suffix_rfl orderly
        exact ⟨found, t', rest', split, limit, trivial, changed⟩ }
  refine lawful.within closed ?_
  rintro page t rest w spelled atEnd ⟨⟨orderly, rfl⟩, inside⟩
  exact (converts_page source different spelled atEnd inside orderly).within closed inside

end Calls

/-! Whole queries. -/

section Queries

variable {pair : Pair} {paged : Page → Page → Prop} {select found : Select}
  (alike : select.Like (Expr.Converted pair) paged found)

theorem sublist_flatMap {related : α → β → Prop} {f : α → List γ} {g : β → List γ} {as : List α}
    {bs : List β} (each : ∀ a b, related a b → (f a).Sublist (g b))
    (alike : List.Forall₂ related as bs) : (as.flatMap f).Sublist (bs.flatMap g) := by
  induction alike with
  | nil => exact .slnil
  | cons first _ ih =>
    rw [List.flatMap_cons, List.flatMap_cons]
    exact (each _ _ first).append ih

theorem forall_toList {related : α → β → Prop} {a : Option α} {b : Option β}
    (alike : Option.Rel related a b) : List.Forall₂ related a.toList b.toList := by
  cases alike with
  | some same => exact .cons same .nil
  | none => exact .nil

include alike

theorem names_found : select.names.Sublist found.names := by
  have expressions : ∀ {as bs}, List.Forall₂ (Expr.Converted pair) as bs →
      (as.flatMap Expr.names).Sublist (bs.flatMap Expr.names) :=
    sublist_flatMap fun _ _ same => same.names
  have items := sublist_flatMap (f := fun item : SelectItem => item.expr.names ++ item.alias?.toList)
    (g := fun item : SelectItem => item.expr.names ++ item.alias?.toList)
    (fun a b same => by rw [same.2]; exact same.1.names.append (.refl _)) alike.items
  have joins := sublist_flatMap
    (f := fun join : Join => join.table.names ++ join.on?.toList.flatMap Expr.names)
    (g := fun join : Join => join.table.names ++ join.on?.toList.flatMap Expr.names)
    (fun a b same => by
      rw [same.2.1]
      exact (List.Sublist.refl _).append (expressions (forall_toList same.2.2))) alike.joins
  have order := sublist_flatMap (f := fun item : OrderItem => item.expr.names)
    (g := fun item : OrderItem => item.expr.names) (fun a b same => same.1.names) alike.orderBy
  have filter := expressions (forall_toList alike.filter)
  have having := expressions (forall_toList alike.having)
  rw [Select.names, Select.names, alike.tables]
  exact (((((items.append (.refl _)).append joins).append filter).append
    (expressions alike.groupBy)).append having).append order

theorem exprs_found : List.Forall₂ (Expr.Converted pair) select.exprs found.exprs := by
  have items := (List.forall₂_map_left_iff.mpr (List.forall₂_map_right_iff.mpr
    (alike.items.imp fun _ _ same => same.1)))
  have order := (List.forall₂_map_left_iff.mpr (List.forall₂_map_right_iff.mpr
    (alike.orderBy.imp fun _ _ same => same.1)))
  have joins := List.rel_filterMap (P := Expr.Converted pair) (fun _ _ same => same.2.2) alike.joins
  exact List.rel_append (List.rel_append (List.rel_append (List.rel_append (List.rel_append items joins)
    (forall_toList alike.filter)) alike.groupBy) (forall_toList alike.having)) order

theorem literals_found :
    found.nodes.filterMap Expr.literal? = select.nodes.filterMap Expr.literal? := by
  have listed := (converted_list (exprs_found alike)).2.1
  rwa [Expr.listNodes_eq, Expr.listNodes_eq] at listed

theorem calls_found (known : ∀ x ∈ select.nodes, x.FoundByName pair) :
    found.nodes.filterMap Expr.function? = select.nodes.filterMap (Expr.functionIn? pair) := by
  have listed := (converted_list (exprs_found alike)).2.2
  rw [Expr.listNodes_eq, Expr.listNodes_eq] at listed
  exact listed known

end Queries

/-! Statements. -/

section Statements

variable {pair : Pair} (options : Options)
  (source : pair.source = .mysql ∨ pair.source = .postgresql) (different : pair.target ≠ pair.source)

include source different in
theorem converted_body {s : List Char} (orderly : pair.isOrderly (statementBody s) = true)
    (nonempty : statementBody s ≠ []) :
    statementBody (pair.converted s) = pair.converted (statementBody s) := by
  have steps := converted_steps source different
  have keeps := converted_keepsEnd source different
  have trimmed : Trimmed (statementBody s) := trimmed_trim nonempty
  have taken : ∀ {m t : List Char}, (∀ c ∈ m, isBlank c = true) →
      statementBody (m ++ t) = statementBody t := by
    intro m t blank
    simpa using @statementBody_around m [] blank (by simp) t
  obtain ⟨m, n, split, before, behind⟩ := statementBody_split s
  generalize body : statementBody s = b at *
  obtain ⟨c, first, solid⟩ := trimmed.begins
  obtain ⟨d, last, blank⟩ := trimmed.ends
  have closed : Closed b := ⟨d, last, blank, orderly_last orderly last⟩
  obtain ⟨p, rfl⟩ := List.head?_eq_some_iff.mp first
  have nothing : statementEnd n = [] := by
    rw [split, List.append_assoc, taken before, statementBody_append solid closed] at body
    simpa using body
  have loose : ∀ c ∈ n, isLoose c = true := by
    intro c member
    simpa [isLoose] using behind c member
  have ended := keeps.closed closed
  obtain ⟨e, q, converted⟩ := List.exists_cons_of_ne_nil ended.ne_nil
  have front : isBlank e = false := by
    refine Reader.dropWhile_ended isBlank (pair.converted (c :: p)) e ?_
    rw [steps.dropBlanks, List.dropWhile_cons_of_neg (by simp [solid]), converted]
    rfl
  rw [converted] at ended
  rw [split, List.append_assoc, steps.blanks before, keeps.behind _ loose, taken before, converted,
    statementBody_append front ended, nothing, List.append_nil]

variable {sql : String} {select : Select}
  (read : SourceStatement.ofSql sql = .ok ⟨sql, .select select⟩)
  (orderly : pair.isOrderly (statementBody sql.toList) = true)
include source different read

theorem convertSql_applied : ∃ outcome, convertSql pair options sql = .ok outcome
    ∧ outcome.sql = String.ofList (TextRule.runAll (TextRule.pipeline pair) sql.toList) := by
  have distinct : pair.isIdentity = false := by simpa [Pair.isIdentity] using different.symm
  refine ⟨.ofNotes options (select.convert pair sql).1 (select.convert pair sql).2, ?_,
    convert_applied source sql select⟩
  simp [convertSql, read, Except.map, SourceStatement.convert, distinct]

include orderly

theorem converted_read : ∃ outcome found, convertSql pair options sql = .ok outcome
    ∧ SourceStatement.ofSql outcome.sql = .ok ⟨outcome.sql, .select found⟩
    ∧ select.Like (Expr.Converted pair) (Page.Converted pair (statementBody sql.toList)) found := by
  have query := ofSql_select.mp read
  obtain ⟨found, again, alike⟩ := carries_query (converts_lawful source different _)
    (query_sound query).1 ⟨⟨orderly, rfl⟩, List.suffix_rfl⟩
  obtain ⟨outcome, converted, text⟩ := convertSql_applied options source different read
  have nonempty : statementBody sql.toList ≠ [] := by
    intro empty
    rw [empty] at query
    cases query
  refine ⟨outcome, found, converted, ofSql_select.mpr ?_, alike⟩
  rw [text, String.toList_ofList, ← Pair.converted, converted_body source different orderly nonempty]
  exact query_complete again

/-- The converted text of an orderly query has all names of the query, quoted or not, in their order and
with the same characters. -/
theorem converted_text_names : ∃ outcome found, convertSql pair options sql = .ok outcome
    ∧ SourceStatement.ofSql outcome.sql = .ok ⟨outcome.sql, .select found⟩
    ∧ select.names.Sublist found.names := by
  obtain ⟨outcome, found, converted, again, alike⟩ :=
    converted_read options source different read orderly
  exact ⟨outcome, found, converted, again, names_found alike⟩

end Statements

def quotedText : String :=
  "SELECT `a``b`, `u`.*, IFNULL(c, 'LIMIT 1') AS \"Total\" FROM `db`.t AS `u` LIMIT 2, 5 ;"

theorem quotedText_names : ∃ outcome found, convertSql ⟨.mysql, .postgresql⟩ {} quotedText = .ok outcome
    ∧ SourceStatement.ofSql outcome.sql = .ok ⟨outcome.sql, .select found⟩
    ∧ ["\"a`b\"", "\"u\"", "c", "\"Total\"", "\"db\".t", "\"u\""].Sublist found.names := by
  have names : (queryOf? quotedText).map Select.names
      = some ["\"a`b\"", "\"u\"", "c", "\"Total\"", "\"db\".t", "\"u\""] := by decide +kernel
  obtain ⟨select, read, same⟩ := read_of_queryOf? names
  rw [← same]
  exact converted_text_names {} (.inl rfl) (by decide) read (by decide +kernel)

/-- What stands in a quoted name is taken for a call. -/
theorem quoted_call_renamed :
    (queryOf? "SELECT `IFNULL(x)` FROM t").map Select.names = some ["\"IFNULL(x)\"", "t"]
      ∧ ((convertSql ⟨.mysql, .postgresql⟩ {} "SELECT `IFNULL(x)` FROM t").toOption.bind
          fun outcome => (queryOf? outcome.sql).map Select.names) = some ["\"COALESCE(x)\"", "t"] := by
  decide +kernel

section Statements

variable {pair : Pair} (options : Options)
  (source : pair.source = .mysql ∨ pair.source = .postgresql) (different : pair.target ≠ pair.source)
  {sql : String} {select : Select} (read : SourceStatement.ofSql sql = .ok ⟨sql, .select select⟩)
  (orderly : pair.isOrderly (statementBody sql.toList) = true)
include source different read orderly

/-- The calls in the converted text of an orderly query have the names that the function table gives
them, where the rules and the table know every call of the query by the same name. -/
theorem converted_text_calls (known : ∀ x ∈ select.nodes, x.FoundByName pair) :
    ∃ outcome found, convertSql pair options sql = .ok outcome
      ∧ SourceStatement.ofSql outcome.sql = .ok ⟨outcome.sql, .select found⟩
      ∧ found.nodes.filterMap Expr.function? = select.nodes.filterMap (Expr.functionIn? pair) := by
  obtain ⟨outcome, found, converted, again, alike⟩ :=
    converted_read options source different read orderly
  exact ⟨outcome, found, converted, again, calls_found alike known⟩

end Statements

def calledText : String :=
  "SELECT ifnull(NOW(), LENGTH(\"a.b\")), count(*) FROM t WHERE f(x) LIKE 'IFNULL(y)' LIMIT 5;"

theorem calledText_calls : ∃ outcome found, convertSql ⟨.mysql, .oracle⟩ {} calledText = .ok outcome
    ∧ SourceStatement.ofSql outcome.sql = .ok ⟨outcome.sql, .select found⟩
    ∧ found.nodes.filterMap Expr.function? = ["NVL", "SYSDATE", "LENGTH", "count", "f"] := by
  have calls : (queryOf? calledText).map (fun select =>
        (decide (∀ x ∈ select.nodes, x.FoundByName ⟨.mysql, .oracle⟩),
          select.nodes.filterMap (Expr.functionIn? ⟨.mysql, .oracle⟩)))
      = some (true, ["NVL", "SYSDATE", "LENGTH", "count", "f"]) := by decide +kernel
  obtain ⟨select, read, same⟩ := read_of_queryOf? calls
  obtain ⟨known, named⟩ := Prod.mk.inj same
  rw [← named]
  exact converted_text_calls {} (.inl rfl) (by decide) read (by decide +kernel) (of_decide_eq_true known)

/-- A call of the table in a name with a dot is renamed, though the table does not have that name. -/
theorem dotted_call_renamed :
    (queryOf? "SELECT s.IFNULL(a, b) FROM t").map (fun select =>
        select.nodes.filterMap (Expr.functionIn? ⟨.mysql, .postgresql⟩)) = some ["s.IFNULL"]
      ∧ ((convertSql ⟨.mysql, .postgresql⟩ {} "SELECT s.IFNULL(a, b) FROM t").toOption.bind
          fun outcome => (queryOf? outcome.sql).map fun found =>
            found.nodes.filterMap Expr.function?) = some ["s.COALESCE"] := by
  decide +kernel

end SqlDialects
