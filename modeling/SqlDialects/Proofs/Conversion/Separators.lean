import SqlDialects.Proofs.Conversion.DefinitionHeads
import SqlDialects.Proofs.Pattern.Cutting

/-
Blanks and semicolons behind one statement. As long as its semicolons stand in one run, a text is read
without them. Of several runs only the last is taken off, and the others stay in the statement: there
they make something else of a query, unless a comment at its end holds them, become options of a table
definition, and stand for a statement where there is none.
-/
namespace SqlDialects

open Reader Text Nesting Pattern

/-! A text and the separators behind it. -/

def bareStatement (s : List Char) : List Char := dropEndWhile isLoose (trimStart s)

/-- The blanks and semicolons behind a text; those from the first semicolon on, if it holds nothing
else. -/
def separators (s : List Char) : List Char := ((trimStart s).reverse.takeWhile isLoose).reverse

def OneRun (t : List Char) : Prop :=
  ∃ m k n, t = m ++ k ++ n ∧ (∀ c ∈ m, isBlank c = true) ∧ (∀ c ∈ k, (c == ';') = true)
    ∧ ∀ c ∈ n, isBlank c = true

theorem isTrail_iff {t : List Char} : IsTrail t ↔ ∀ c ∈ t, isLoose c = true := by
  simp only [IsTrail, isLoose, Bool.or_eq_true, beq_iff_eq]

theorem bareStatement_separators (s : List Char) : bareStatement s ++ separators s = trimStart s := by
  rw [bareStatement, separators, dropEndWhile, ← List.reverse_append, List.takeWhile_append_dropWhile,
    List.reverse_reverse]

theorem separators_trail (s : List Char) : IsTrail (separators s) :=
  isTrail_iff.mpr fun _ member => List.mem_takeWhile_imp (List.mem_reverse.mp member)

theorem dropEndWhile_last {test : Char → Bool} {s : List Char} (full : dropEndWhile test s ≠ []) :
    ∃ c, (dropEndWhile test s).getLast? = some c ∧ test c = false := by
  obtain ⟨c, last⟩ := Option.isSome_iff_exists.mp (List.getLast?_isSome.mpr full)
  refine ⟨c, last, dropWhile_ended test s.reverse c ?_⟩
  rwa [dropEndWhile, List.getLast?_reverse] at last

theorem trimStart_append (s w : List Char) : trimStart (s ++ w) = trimStart s ++ w
    ∨ trimStart s = [] ∧ trimStart (s ++ w) = trimStart w := by
  rw [trimStart, List.dropWhile_append]
  split
  · next empty => exact .inr ⟨List.isEmpty_iff.mp empty, rfl⟩
  · exact .inl rfl

section Behind

variable {w : List Char} (trail : IsTrail w) (s : List Char)
include trail

theorem bareStatement_append : bareStatement (s ++ w) = bareStatement s := by
  have loose := isTrail_iff.mp trail
  rcases trimStart_append s w with same | ⟨blank, same⟩
  · rw [bareStatement, same, dropEndWhile_all loose, ← bareStatement]
  · have inner : ∀ c ∈ trimStart w, isLoose c = true := fun c member =>
      loose c ((List.dropWhile_suffix isBlank).subset member)
    have nothing := dropEndWhile_all inner []
    rw [bareStatement, bareStatement, same, blank, ← nothing, List.nil_append]

theorem separators_append : separators s <+: separators (s ++ w) := by
  rcases trimStart_append s w with same | ⟨blank, same⟩
  · refine ⟨w, ?_⟩
    rw [separators, separators, same, List.reverse_append, List.takeWhile_append_of_pos fun c member =>
      isTrail_iff.mp trail c (List.mem_reverse.mp member), List.reverse_append, List.reverse_reverse]
  · rw [separators, blank]
    exact List.nil_prefix

end Behind

/-! What is left of separators. -/

theorem OneRun.front {t u : List Char} (run : OneRun u) (front : t <+: u) : OneRun t := by
  obtain ⟨m, k, n, rfl, before, semicolons, behind⟩ := run
  refine ⟨m.take t.length, k.take (t.length - m.length), n.take (t.length - (m ++ k).length), ?_,
    fun c member => before c (List.mem_of_mem_take member),
    fun c member => semicolons c (List.mem_of_mem_take member),
    fun c member => behind c (List.mem_of_mem_take member)⟩
  conv_lhs => rw [List.prefix_iff_eq_take.mp front]
  simp [List.take_append, Nat.sub_sub]

theorem dropEndWhile_front (test : Char → Bool) (s : List Char) : dropEndWhile test s <+: s := by
  obtain ⟨tail, split, _⟩ := dropEndWhile_split test s
  exact ⟨tail, split.symm⟩

theorem statementEnd_front (t : List Char) : statementEnd t <+: t :=
  ((dropEndWhile_front _ _).trans (dropEndWhile_front _ _)).trans (dropEndWhile_front _ _)

theorem statementEnd_eq_nil_iff {t : List Char} : statementEnd t = [] ↔ OneRun t := by
  constructor
  · intro nothing
    obtain ⟨n, last, behind⟩ := dropEndWhile_split isBlank t
    obtain ⟨k, middle, semicolons⟩ := dropEndWhile_split (· == ';') (dropEndWhile isBlank t)
    obtain ⟨m, first, before⟩ :=
      dropEndWhile_split isBlank (dropEndWhile (· == ';') (dropEndWhile isBlank t))
    rw [← statementEnd, nothing, List.nil_append] at first
    exact ⟨m, k, n, by rw [← first, ← middle, ← last], first ▸ before, semicolons, behind⟩
  · rintro ⟨m, k, n, rfl, before, semicolons, behind⟩
    rw [statementEnd, dropEndWhile_all behind]
    -- semicolons keep the blanks in front of them from being taken off first
    have inner : dropEndWhile isBlank (m ++ k) = m ++ k ∨ dropEndWhile isBlank (m ++ k) = [] := by
      cases k using List.reverseRecOn with
      | nil => exact .inr ((congrArg _ (List.append_nil m)).trans (dropEndWhile_all before []))
      | append_singleton k c =>
        have mark : c = ';' := by simpa using semicolons c (by simp)
        refine .inl (dropEndWhile_of_last (c := c) (by simp) ?_)
        rw [mark]
        rfl
    rcases inner with same | nothing
    · obtain ⟨semis, split, _⟩ := dropEndWhile_split (· == ';') m
      rw [same, dropEndWhile_all semicolons]
      refine dropEndWhile_all (s := []) fun c member => before c ?_
      rw [split]
      exact List.mem_append_left _ member
    · rw [nothing]
      rfl

theorem statementEnd_last {t : List Char} (trail : IsTrail t) (full : statementEnd t ≠ []) :
    (statementEnd t).getLast? = some ';' := by
  obtain ⟨c, last, solid⟩ : ∃ c, (statementEnd t).getLast? = some c ∧ isBlank c = false :=
    dropEndWhile_last full
  rcases trail c ((statementEnd_front t).subset (List.mem_of_getLast? last)) with blank | rfl
  · rw [solid] at blank
    cases blank
  · exact last

theorem trimStart_front {v s : List Char} (front : v <+: trimStart s) : trimStart v = v := by
  obtain ⟨r, joined⟩ := front
  cases v with
  | nil => rfl
  | cons c v =>
    have first : (s.dropWhile isBlank).head? = some c := by
      rw [← trimStart, ← joined]
      rfl
    exact List.dropWhile_cons_of_neg (by rw [dropWhile_ended isBlank s c first]; simp)

theorem statementBody_eq_statementEnd (s : List Char) :
    statementBody s = statementEnd (trimStart s) := by
  have front : dropEndWhile (· == ';') (dropEndWhile isBlank (trimStart s)) <+: trimStart s :=
    (dropEndWhile_front _ _).trans (dropEndWhile_front _ _)
  rw [statementBody, trim, trim, trimStart_front front, statementEnd]

theorem statementEnd_behind (s t : List Char) :
    statementEnd (bareStatement s ++ t) = bareStatement s ++ statementEnd t := by
  by_cases full : bareStatement s = []
  · rw [full, List.nil_append, List.nil_append]
  · obtain ⟨c, last, tight⟩ : ∃ c, (bareStatement s).getLast? = some c ∧ isLoose c = false :=
      dropEndWhile_last full
    obtain ⟨solid, other⟩ := Bool.or_eq_false_iff.mp tight
    rw [statementEnd, dropEndWhile_append last solid, dropEndWhile_append last other,
      dropEndWhile_append last solid, ← statementEnd]

/-- The body of a statement is the bare statement with what is left of its separators. -/
theorem statementBody_eq (s : List Char) :
    statementBody s = bareStatement s ++ statementEnd (separators s) := by
  rw [statementBody_eq_statementEnd, ← bareStatement_separators, statementEnd_behind]

theorem statementBody_bareStatement (s : List Char) :
    statementBody (bareStatement s) = bareStatement s := by
  have front : bareStatement s <+: trimStart s := ⟨separators s, bareStatement_separators s⟩
  have nothing : statementEnd [] = [] := rfl
  have alone := statementEnd_behind s []
  rw [nothing, List.append_nil] at alone
  rw [statementBody_eq_statementEnd, trimStart_front front, alone]

theorem statementBody_eq_nil_iff {s : List Char} : statementBody s = [] ↔ OneRun s := by
  rw [statementBody_eq_statementEnd, statementEnd_eq_nil_iff]
  constructor
  · rintro ⟨m, k, n, split, before, marks, behind⟩
    refine ⟨s.takeWhile isBlank ++ m, k, n, ?_, ?_, marks, behind⟩
    · rw [List.append_assoc, List.append_assoc, ← List.append_assoc m, ← split, trimStart,
        List.takeWhile_append_dropWhile]
    · exact List.forall_mem_append.mpr ⟨fun c member => List.mem_takeWhile_imp member, before⟩
  · rintro ⟨m, k, n, rfl, before, marks, behind⟩
    rw [List.append_assoc, trimStart_all before]
    cases k with
    | nil =>
      exact ⟨[], [], trimStart n, rfl, by simp, by simp, fun c member =>
        behind c ((List.dropWhile_suffix isBlank).subset member)⟩
    | cons c k =>
      have mark : c = ';' := by simpa using marks c List.mem_cons_self
      have solid : ¬ isBlank c = true := by
        rw [mark]
        decide
      exact ⟨[], c :: k, n, List.dropWhile_cons_of_neg solid, by simp, marks, behind⟩

/-! Separators behind a table definition. -/

def semicolons (options : List String) : Nat := (options.flatMap String.toList).count ';'

theorem count_behind_blank {c : Char} (blank : isBlank c = true) (s : List Char) :
    (c :: s).count ';' = s.count ';' := by
  refine List.count_cons_of_ne ?_
  rintro rfl
  revert blank
  decide

theorem count_tokensFrom (nesting : Nesting) (token s : List Char) :
    (tokensFrom nesting token s).flatten.count ';' = token.count ';' + s.count ';' := by
  fun_induction tokensFrom nesting token s with
  | case1 nesting token empty => simp [List.isEmpty_iff.mp empty]
  | case2 nesting token full => simp
  | case3 nesting token c rest stops empty ih =>
    rw [ih, count_behind_blank ((Bool.and_eq_true ..).mp stops).1, List.isEmpty_iff.mp empty]
  | case4 nesting token c rest stops full ih =>
    rw [List.flatten_cons, List.count_append, ih, count_behind_blank ((Bool.and_eq_true ..).mp stops).1]
    simp
  | case5 nesting token c rest inside ih =>
    rw [ih, List.count_append, List.count_cons (l := rest), List.count_singleton]
    omega

theorem semicolons_joinDefaults (options : List String) :
    semicolons (joinDefaults options) = semicolons options := by
  fun_induction joinDefaults options with
  | case1 => rfl
  | case2 token => rfl
  | case3 token value rest default ih =>
    simp only [semicolons, List.flatMap_cons, List.count_append] at ih ⊢
    rw [ih]
    simp [Nat.add_assoc]
  | case4 token value rest other ih =>
    simp only [semicolons, List.flatMap_cons, List.count_append] at ih ⊢
    rw [ih]

theorem semicolons_specTokens (s : List Char) : semicolons (specTokens s) = s.count ';' := by
  have each : ((tokens s).map String.ofList).flatMap String.toList = (tokens s).flatten := by
    simp [List.flatMap_def]
  rw [specTokens, semicolons_joinDefaults, semicolons, each, tokens, count_tokensFrom]
  simp

theorem count_trim (s : List Char) : (trim s).count ';' = s.count ';' := by
  obtain ⟨m, n, split, before, behind⟩ := trim_split s
  have none : ∀ {t : List Char}, (∀ c ∈ t, isBlank c = true) → t.count ';' = 0 := by
    intro t blank
    refine List.count_eq_zero.mpr fun member => ?_
    exact absurd (blank ';' member) (by decide)
  conv_rhs => rw [split, List.count_append, List.count_append, none before, none behind]
  omega

section Nested

variable {left : List Char} (flat : ∀ c ∈ left, isFlat c = true)
include flat

theorem untilTop_flat {nesting : Nesting} (known : ∀ q ∈ nesting.quote, isQuote q = true)
    (inside : nesting.isTop = false) : untilTop nesting left = none := by
  induction left with
  | nil => rfl
  | cons c left ih =>
    obtain ⟨first, others⟩ := List.forall_mem_cons.mp flat
    rw [untilTop, step_flat nesting known first, inside, if_neg (by simp), ih others]
    rfl

theorem untilTop_append {nesting : Nesting} (known : ∀ q ∈ nesting.quote, isQuote q = true)
    (inside : nesting.isTop = false) (s : List Char) :
    untilTop nesting (s ++ left)
      = (untilTop nesting s).map fun (body, tail) => (body, tail ++ left) := by
  induction s generalizing nesting with
  | nil => exact untilTop_flat flat known inside
  | cons c s ih =>
    rw [List.cons_append, untilTop, untilTop]
    cases top : (nesting.step c).isTop with
    | true => rfl
    | false =>
      rw [if_neg (by simp), if_neg (by simp), ih (step_known known c) top, Option.map_map,
        Option.map_map]
      rfl

theorem cutAtClosing_append (s : List Char) :
    cutAtClosing (s ++ left) = (cutAtClosing s).map fun (body, tail) => (body, tail ++ left) :=
  untilTop_append flat (by simp) rfl s

end Nested

theorem addElement_options (table : TableDefinition) (options : List String) (element : List Char) :
    { table with options }.addElement? element
      = (table.addElement? element).map fun table => { table with options } := by
  simp only [TableDefinition.addElement?]
  split
  · rfl
  · cases indexElement? element with
    | some index => rfl
    | none => cases columnElement? element <;> rfl

theorem addElements_options (options : List String) (elements : List (List Char))
    (table : TableDefinition) :
    elements.foldlM TableDefinition.addElement? { table with options }
      = (elements.foldlM TableDefinition.addElement? table).map fun table => { table with options } := by
  induction elements generalizing table with
  | nil => rfl
  | cons element elements ih =>
    rw [List.foldlM_cons, List.foldlM_cons, addElement_options]
    cases table.addElement? element with
    | none => rfl
    | some next => exact ih next

theorem IsTrail.flat {left : List Char} (trail : IsTrail left) : ∀ c ∈ left, isFlat c = true := by
  intro c member
  rcases trail c member with blank | rfl
  · exact flat_blank blank
  · rfl

theorem tableHead_append {left : List Char} (trail : IsTrail left) {s rest : List Char} {name : String} :
    tableHead (s ++ left) = .ok (name, rest)
      ↔ ∃ inner, rest = inner ++ left ∧ tableHead s = .ok (name, inner) := by
  constructor
  · intro read
    obtain ⟨p, split, again⟩ := tableHead_local read
    obtain ⟨inner, rfl, rfl⟩ := split_before (trail.apart (by decide) (by decide)) split.symm
    exact ⟨inner, rfl, again inner⟩
  · rintro ⟨inner, rfl, read⟩
    obtain ⟨p, rfl, again⟩ := tableHead_local read
    rw [List.append_assoc]
    exact again (inner ++ left)

theorem ofText_append {left : List Char} (trail : IsTrail left) (s : List Char) :
    Option.Rel (fun table longer => ∃ options, longer = { table with options }
        ∧ semicolons options = semicolons table.options + left.count ';')
      (TableDefinition.ofText? s) (TableDefinition.ofText? (s ++ left)) := by
  rw [TableDefinition.ofText?, TableDefinition.ofText?]
  cases head : tableHead s with
  | error stuck =>
    cases longer : tableHead (s ++ left) with
    | error stuck => exact .none
    | ok result =>
      obtain ⟨inner, _, read⟩ := (tableHead_append trail).mp longer
      rw [head] at read
      cases read
  | ok result =>
    obtain ⟨name, rest⟩ := result
    rw [(tableHead_append trail).mpr ⟨rest, rfl, head⟩]
    simp only [cutAtClosing_append trail.flat]
    cases cutAtClosing rest with
    | none => exact .none
    | some parts =>
      obtain ⟨body, tail⟩ := parts
      -- the elements do not depend on the options
      have elements : ∀ options, ((topLevelPieces ',' body).map trim).foldlM TableDefinition.addElement?
          { name, columns := [], indexes := [], options } = _ := fun options =>
        addElements_options options _ { name, columns := [], indexes := [] }
      simp only [Option.map_some]
      rw [elements (specTokens (trim tail)), elements (specTokens (trim (tail ++ left)))]
      cases ((topLevelPieces ',' body).map trim).foldlM TableDefinition.addElement?
          { name, columns := [], indexes := [] } with
      | none => exact .none
      | some table =>
        refine .some ⟨specTokens (trim (tail ++ left)), rfl, ?_⟩
        rw [semicolons_specTokens, semicolons_specTokens, count_trim, count_trim, List.count_append]

/-! One statement. -/

def statementOf (sql : String) : Except Failure Statement :=
  (SourceStatement.ofSql sql).map SourceStatement.statement

def bodyStatement (body : List Char) : Except Failure Statement :=
  if body = [] then .error .emptyInput else .ok (.ofText body)

theorem statementOf_eq (sql : String) : statementOf sql = bodyStatement (statementBody sql.toList) := by
  by_cases empty : statementBody sql.toList = []
  · have failed : SourceStatement.ofSql sql = .error .emptyInput := by
      rw [SourceStatement.ofSql, if_pos (List.isEmpty_iff.mpr empty)]
    simp only [statementOf, failed, bodyStatement, if_pos empty, Except.map]
  · have read : SourceStatement.ofSql sql = .ok ⟨sql, .ofText (statementBody sql.toList)⟩ := by
      rw [SourceStatement.ofSql, if_neg (mt List.isEmpty_iff.mp empty)]
    simp only [statementOf, read, bodyStatement, if_neg empty, Except.map]

inductive Leftover (bare left : List Char) : Except Failure Statement → Except Failure Statement → Prop
  | nothing : Leftover bare left (.error .emptyInput) (.ok .other)
  | hidden (select : Select) (ends : EndsInComment none bare) (line : OneLine left) :
      Leftover bare left (.ok (.select select)) (.ok (.select select))
  | exposed (select : Select) (shown : ¬ (EndsInComment none bare ∧ OneLine left)) :
      Leftover bare left (.ok (.select select)) (.ok .other)
  | options (table : TableDefinition) {options : List String}
      (more : semicolons options = semicolons table.options + left.count ';') :
      Leftover bare left (.ok (.createTable table)) (.ok (.createTable { table with options }))
  | other : Leftover bare left (.ok .other) (.ok .other)

theorem query_fails_definition {s : List Char} {table : TableDefinition}
    (read : TableDefinition.ofText? s = some table) : Fails query s := by
  cases found : tableHead s with
  | error stuck =>
    rw [TableDefinition.ofText?, found] at read
    cases read
  | ok result =>
    obtain ⟨_, _, _, rfl, spelled, _⟩ := tableHead_sound found
    exact (query_fails_head spelled).1

theorem ofText_unread {s : List Char} (unread : ∀ select, query s ≠ .ok (select, [])) :
    Statement.ofText s = ((TableDefinition.ofText? s).map Statement.createTable).getD .other := by
  cases found : query s with
  | ok result =>
    obtain ⟨select, rest⟩ := result
    obtain rfl := (query_sound found).2
    exact absurd found (unread select)
  | error stuck =>
    simp only [Statement.ofText, found]
    cases TableDefinition.ofText? s <;> rfl

theorem ofText_leftover {left : List Char} (trail : IsTrail left) (last : left.getLast? = some ';')
    (s : List Char) : Leftover s left (.ok (.ofText s)) (.ok (.ofText (s ++ left))) := by
  have tables := ofText_append trail s
  have longer : ∀ select, query (s ++ left) = .ok (select, [])
      ↔ query s = .ok (select, []) ∧ EndsInComment none s ∧ OneLine left :=
    fun select => query_separators_iff trail last
  by_cases found : ∃ select, query s = .ok (select, [])
  · obtain ⟨select, first⟩ := found
    by_cases hidden : EndsInComment none s ∧ OneLine left
    · simp only [Statement.ofText, first, (longer select).mpr ⟨first, hidden⟩]
      exact .hidden select hidden.1 hidden.2
    · have undefined : TableDefinition.ofText? s = none := by
        cases found : TableDefinition.ofText? s with
        | none => rfl
        | some table => exact absurd (query_fails_definition found) (not_fails_of_ok first)
      rw [undefined] at tables
      rw [ofText_unread (s := s ++ left) fun other read => hidden ((longer other).mp read).2]
      simp only [Statement.ofText, first]
      generalize TableDefinition.ofText? (s ++ left) = table at tables
      cases tables
      exact .exposed select hidden
  · have unread : ∀ select, query s ≠ .ok (select, []) := fun select read => found ⟨select, read⟩
    rw [ofText_unread unread,
      ofText_unread (s := s ++ left) fun select read => unread select ((longer select).mp read).1]
    generalize TableDefinition.ofText? s = table at tables
    generalize TableDefinition.ofText? (s ++ left) = table' at tables
    cases tables with
    | none => exact .other
    | @some table _ same =>
      obtain ⟨options, rfl, more⟩ := same
      exact .options table more

theorem bodyStatement_leftover {left : List Char} (trail : IsTrail left)
    (last : left.getLast? = some ';') (s : List Char) :
    Leftover s left (bodyStatement s) (bodyStatement (s ++ left)) := by
  have full : s ++ left ≠ [] := by
    intro empty
    rw [(List.append_eq_nil_iff.mp empty).2] at last
    cases last
  have read := ofText_leftover trail last s
  rw [bodyStatement, bodyStatement, if_neg full]
  split
  · next empty =>
    subst empty
    have nothing : Statement.ofText [] = .other := rfl
    rw [nothing] at read
    generalize Statement.ofText ([] ++ left) = found at read
    cases read
    exact .nothing
  · exact read

/-! Texts with separators behind them. -/

theorem statementOf_bareStatement (s : List Char) :
    statementOf (String.ofList (bareStatement s)) = bodyStatement (bareStatement s) := by
  rw [statementOf_eq, String.toList_ofList, statementBody_bareStatement]

theorem statementOf_run {t : String} (run : OneRun (separators t.toList)) :
    statementOf t = statementOf (String.ofList (bareStatement t.toList)) := by
  rw [statementOf_bareStatement, statementOf_eq, statementBody_eq, statementEnd_eq_nil_iff.mpr run,
    List.append_nil]

theorem statementOf_parted {t : String} (parted : ¬ OneRun (separators t.toList)) :
    (statementEnd (separators t.toList)).getLast? = some ';'
      ∧ Leftover (bareStatement t.toList) (statementEnd (separators t.toList))
        (statementOf (String.ofList (bareStatement t.toList))) (statementOf t) := by
  have trail := separators_trail t.toList
  have last := statementEnd_last trail fun nothing => parted (statementEnd_eq_nil_iff.mp nothing)
  refine ⟨last, ?_⟩
  rw [statementOf_bareStatement, statementOf_eq, statementBody_eq]
  exact bodyStatement_leftover
    (fun c member => trail c ((statementEnd_front _).subset member)) last (bareStatement t.toList)

theorem statementOf_eq_emptyInput_iff {s : String} :
    statementOf s = .error .emptyInput ↔ OneRun s.toList := by
  rw [statementOf_eq, bodyStatement, ← statementBody_eq_nil_iff]
  split
  · next empty => exact ⟨fun _ => empty, fun _ => rfl⟩
  · next full => exact ⟨nofun, fun empty => absurd empty full⟩

/-- Separators that are one run make no difference. Of more than one, those in front of the last are
read with the statement. Nothing but one run of them is no statement. -/
theorem trailing_separators (s w : String) (trail : IsTrail w.toList) :
    let bare := bareStatement s.toList
    let behind := separators (s ++ w).toList
    (OneRun behind → statementOf (s ++ w) = statementOf s
        ∧ statementOf s = statementOf (String.ofList bare))
      ∧ (¬ OneRun behind → (statementEnd behind).getLast? = some ';'
        ∧ Leftover bare (statementEnd behind) (statementOf (String.ofList bare)) (statementOf (s ++ w)))
      ∧ (statementOf s = .error .emptyInput ↔ OneRun s.toList) := by
  have same : bareStatement (s ++ w).toList = bareStatement s.toList := by
    rw [String.toList_append, bareStatement_append trail]
  have front : separators s.toList <+: separators (s ++ w).toList := by
    rw [String.toList_append]
    exact separators_append trail s.toList
  refine ⟨fun run => ?_, fun parted => ?_, statementOf_eq_emptyInput_iff⟩
  · have inner := statementOf_run (run.front front)
    have outer := statementOf_run run
    rw [same] at outer
    exact ⟨outer.trans inner.symm, inner⟩
  · have left := statementOf_parted parted
    rwa [same] at left

theorem commentedQuery_separators : IsTrail "; ;".toList
    ∧ Leftover "SELECT 1 -- one".toList [';'] (statementOf "SELECT 1 -- one")
        (statementOf ("SELECT 1 -- one" ++ "; ;")) := by
  have trail : IsTrail "; ;".toList :=
    isTrail_iff.mpr (List.all_eq_true.mp (by decide +kernel))
  have bare : bareStatement "SELECT 1 -- one".toList = "SELECT 1 -- one".toList := by decide +kernel
  have left : statementEnd (separators ("SELECT 1 -- one" ++ "; ;").toList) = [';'] := by decide +kernel
  have parted : ¬ OneRun (separators ("SELECT 1 -- one" ++ "; ;").toList) := by
    rw [← statementEnd_eq_nil_iff, left]
    exact nofun
  have read := ((trailing_separators "SELECT 1 -- one" "; ;" trail).2.1 parted).2
  rw [bare, left, String.ofList_toList] at read
  exact ⟨trail, read⟩

def Statement.isQuery : Statement → Bool
  | .select _ => true
  | _ => false

def Statement.isOther : Statement → Bool
  | .other => true
  | _ => false

/-- With a semicolon behind another one and a blank, a query is no query, and nothing is a statement. -/
theorem parted_semicolons_read :
    ((statementOf "SELECT 1;").toOption.any Statement.isQuery = true
        ∧ (statementOf "SELECT 1; ;").toOption.any Statement.isOther = true)
      ∧ statementOf ";;" = .error .emptyInput
      ∧ (statementOf "; ;").toOption.any Statement.isOther = true := by
  refine ⟨by decide +kernel, ?_, by decide +kernel⟩
  rw [statementOf_eq_emptyInput_iff, ← statementBody_eq_nil_iff]
  decide +kernel

end SqlDialects
