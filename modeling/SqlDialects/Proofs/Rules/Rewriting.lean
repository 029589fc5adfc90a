import SqlDialects.Proofs.Canonical.Query
import SqlDialects.Proofs.Canonical.Rewrite
import SqlDialects.Proofs.Pattern.Replacing

/-
Changing the canonical text of a query from left to right does to the text what a rewriting of the
tree does to the query, if it does so to each lexeme. The names have to be plain: unquoted, of ASCII
letters, digits and underscores.
-/
namespace SqlDialects

open Reader Text

theorem part_run {name : String} (part : IsPart name) (plain : PlainName name) :
    IsRun name.toList ∧ isReserved name = false := by
  generalize same : name.toList = t at part
  rw [IsPart, same] at part
  cases part with
  | @quoted quote body _ known closed =>
    have listed := (plain '"' (by rw [String.toList_ofList]; simp [enclose])).2
    simp at listed
  | plain shape free ended =>
    refine ⟨⟨shape.ne_nil, fun c member => ?_⟩, free⟩
    · obtain ⟨ascii, others⟩ := plain c (by rwa [String.toList_ofList])
      simp only [List.mem_cons, List.not_mem_nil, or_false, not_or] at others
      exact plain_of_nameCharacter (shape.inside c member) ascii others.2

/-! What follows a word. -/

def Uncalled (s : List Char) : Prop := (s.dropWhile isBlank).head? ≠ some '('

structure Stops (rest : List Char) : Prop where
  ended : EndsRun rest
  uncalled : Uncalled rest

theorem stops_nil : Stops [] := ⟨endsRun_nil, nofun⟩

theorem stops_mark (c : Char) (mark : isWordCharacter c = false) (solid : isBlank c = false)
    (other : c ≠ '(') (s : List Char) : Stops (c :: s) where
  ended := endsRun_cons mark s
  uncalled := by simp [Uncalled, solid, other]

theorem stops_blank {c : Char} (solid : isBlank c = false) (other : c ≠ '(') (s : List Char) :
    Stops (' ' :: c :: s) where
  ended := endsRun_cons rfl _
  uncalled := by
    have blank : isBlank ' ' = true := rfl
    simp [Uncalled, blank, solid, other]

theorem solid_of_plain {c : Char} (plain : isPlain c = true) : isBlank c = false := by
  cases blank : isBlank c with
  | false => rfl
  | true =>
    have other := not_wordCharacter_of_blank blank
    rw [wordCharacter_of_plain plain] at other
    cases other

theorem ClauseText.stops {t : List Char} (clause : ClauseText t) : Stops t := by
  rcases clause with rfl | ⟨c, u, rfl, capital⟩
  · exact stops_nil
  · have plain := plain_of_isAlpha (c := c) (by simp [Char.isAlpha, capital])
    refine stops_blank (solid_of_plain plain) ?_ u
    rintro rfl
    cases plain

def Filled (s : List Char) : Prop := ∀ c, s.head? = some c → isBlank c = false ∧ c ≠ ')'

/-! Rewriting texts. -/

def marks : List Char :=
  [' ', ',', '(', ')', '.', '*', '+', '-', '/', '%', '<', '>', '=', '!', '|', '?', '$']

def queryWords : List String :=
  ["SELECT", "DISTINCT", "AS", "FROM", "JOIN", "LEFT", "RIGHT", "FULL", "CROSS", "ON", "WHERE",
    "GROUP", "BY", "HAVING", "ORDER", "DESC", "NOT", "IN", "IS", "NULL"]

structure Rewrites (g : List Char → List Char) (new? : String → Option String)
    (change : BinaryOp → BinaryOp) : Prop where
  mark : ∀ c ∈ marks, ∀ s, g (c :: s) = c :: g s
  literal : ∀ body s, g (enclose '\x27' body ++ s) = enclose '\x27' body ++ g s
  keyword : ∀ word ∈ queryWords, ∀ s, EndsRun s → g (word.toList ++ s) = word.toList ++ g s
  digits : ∀ ds s, IsDigits ds → EndsRun s → g (ds ++ s) = ds ++ g s
  name : ∀ w s, IsRun w.toList → isReserved w = false → Stops s →
    g (w.toList ++ s) = w.toList ++ g s
  uncalled : ∀ w, isNiladic w = true → new? w = none
  empty : ∀ w s, IsRun w.toList → isReserved w = false →
    g (w.toList ++ '(' :: ')' :: s)
      = ((Expr.call w [] false false).rewrite new? change).written id ++ g s
  filled : ∀ w s, IsRun w.toList → isReserved w = false → Filled s →
    g (w.toList ++ '(' :: s)
      = (match new? w with
        | some target => if isNiladic target then w else target
        | none => w).toList ++ '(' :: g s
  operator : ∀ op s, g (op.toSql.toList ++ ' ' :: s) = (change op).toSql.toList ++ ' ' :: g s

section Rewrites

variable {g : List Char → List Char} {new? : String → Option String}
  {change : BinaryOp → BinaryOp} (rewrites : Rewrites g new? change)
include rewrites

theorem Rewrites.blank (s : List Char) : g (' ' :: s) = ' ' :: g s :=
  rewrites.mark ' ' (by simp [marks]) s

theorem Rewrites.close (s : List Char) : g (')' :: s) = ')' :: g s :=
  rewrites.mark ')' (by simp [marks]) s

theorem Rewrites.word (word : String) (listed : word ∈ queryWords) (s : List Char) :
    g (' ' :: (word.toList ++ ' ' :: s)) = ' ' :: (word.toList ++ ' ' :: g s) := by
  rw [rewrites.blank, rewrites.keyword word listed _ (endsRun_cons rfl s), rewrites.blank]

theorem path_rewritten {parts : List String} (path : IsPath parts)
    (plain : PlainName (".".intercalate parts)) {rest : List Char} (stops : Stops rest) :
    g ((".".intercalate parts).toList ++ rest) = (".".intercalate parts).toList ++ g rest := by
  obtain ⟨nonempty, each⟩ := path
  induction parts with
  | nil => exact absurd rfl nonempty
  | cons part parts ih =>
    cases parts with
    | nil =>
      rw [String.intercalate_singleton] at plain ⊢
      obtain ⟨run, free⟩ := part_run (each part (by simp)) plain
      exact rewrites.name part rest run free stops
    | cons next parts =>
      have joined : (".".intercalate (part :: next :: parts)).toList
          = part.toList ++ '.' :: (".".intercalate (next :: parts)).toList :=
        dotted_cons part next parts
      have first : PlainName part := fun c member =>
        plain c (by rw [joined]; exact List.mem_append_left _ member)
      have later : PlainName (".".intercalate (next :: parts)) := fun c member =>
        plain c (by rw [joined]; exact List.mem_append_right _ (.tail _ member))
      obtain ⟨run, free⟩ := part_run (each part (by simp)) first
      have tail := ih later (by simp) fun found member => each found (by simp [member])
      rw [joined, List.append_assoc, List.cons_append,
        rewrites.name part _ run free (stops_mark '.' rfl rfl (by decide) _),
        rewrites.mark '.' (by simp [marks]), tail]
      simp

theorem commas_rewritten {α : Type} {text : α → List Char} {f : α → α} {as : List α}
    (each : ∀ a ∈ as, ∀ rest, Stops rest → g (text a ++ rest) = text (f a) ++ g rest)
    {rest : List Char} (stops : Stops rest) :
    g (commas (as.map text) ++ rest) = commas ((as.map f).map text) ++ g rest := by
  induction as with
  | nil => rfl
  | cons a as ih =>
    cases as with
    | nil => simpa using each a (by simp) rest stops
    | cons b as =>
      have tail := ih fun found member => each found (by simp [member])
      have first := each a (by simp) (',' :: ' ' :: (commas ((b :: as).map text) ++ rest))
        (stops_mark ',' rfl rfl (by decide) _)
      rw [List.map_cons, List.map_cons, commas_more, ← List.map_cons, List.append_assoc,
        List.cons_append, List.cons_append, first, rewrites.mark ',' (by simp [marks]),
        rewrites.blank, tail]
      simp

/-! Expressions. -/

omit rewrites in
theorem opening_of_plain {c : Char} (plain : isPlain c = true) : isBlank c = false ∧ c ≠ ')' := by
  refine ⟨solid_of_plain plain, ?_⟩
  rintro rfl
  cases plain

omit rewrites in
theorem path_opening {parts : List String} (path : IsPath parts)
    (plain : PlainName (".".intercalate parts)) :
    ∃ c t, (".".intercalate parts).toList = c :: t ∧ isBlank c = false ∧ c ≠ ')' := by
  obtain ⟨nonempty, each⟩ := path
  cases parts with
  | nil => exact absurd rfl nonempty
  | cons part parts =>
    obtain ⟨more, joined⟩ : ∃ more, (".".intercalate (part :: parts)).toList = part.toList ++ more := by
      cases parts with
      | nil => exact ⟨[], by simp⟩
      | cons next parts =>
        exact ⟨_, dotted_cons part next parts⟩
    obtain ⟨run, _⟩ := part_run (each part (by simp)) fun c member =>
      plain c (by rw [joined]; exact List.mem_append_left _ member)
    cases found : part.toList with
    | nil => exact absurd found run.nonempty
    | cons c t =>
      refine ⟨c, t ++ more, by rw [joined, found]; rfl, opening_of_plain (run.inside c ?_)⟩
      simp [found]

omit rewrites in
theorem expr_opening {e : Expr} (wellFormed : e.WellFormed) (plain : ∀ x ∈ e.nodes, x.PlainNode) :
    ∃ c t, e.written id = c :: t ∧ isBlank c = false ∧ c ≠ ')' := by
  have lead : ∀ {t u : List Char}, (∃ c v, t = c :: v ∧ isBlank c = false ∧ c ≠ ')') →
      ∃ c v, t ++ u = c :: v ∧ isBlank c = false ∧ c ≠ ')' := by
    rintro t u ⟨c, v, rfl, solid⟩
    exact ⟨c, v ++ u, rfl, solid⟩
  have digits : ∀ {ds : List Char}, IsDigits ds → ∃ c v, ds = c :: v ∧ isBlank c = false ∧ c ≠ ')' := by
    intro ds shape
    cases ds with
    | nil => exact absurd rfl shape.nonempty
    | cons c ds => exact ⟨c, ds, rfl, opening_of_plain (plain_of_isDigit (shape.inside c (by simp)))⟩
  induction wellFormed with
  | call path inside only ih =>
    rw [written_call]
    exact lead (path_opening path (plain _ (Expr.mem_nodes _)).1)
  | @bare name part niladic =>
    obtain ⟨run, _⟩ := part_run part (plain _ (Expr.mem_nodes _)).1
    rw [written_bare]
    cases found : name.toList with
    | nil => exact absurd found run.nonempty
    | cons c t => exact ⟨c, t, rfl, opening_of_plain (run.inside c (by simp [found]))⟩
  | column path other => exact path_opening path (plain _ (Expr.mem_nodes _))
  | @number text spelled =>
    rw [written_number]
    generalize text.toList = t at spelled
    cases spelled with
    | whole shape _ _ => exact digits shape
    | fraction shape _ _ => exact lead (digits shape)
  | string value =>
    rw [written_string]
    exact ⟨_, _, rfl, rfl, by decide⟩
  | null =>
    rw [written_null]
    exact ⟨'N', _, rfl, rfl, by decide⟩
  | star =>
    rw [written_star]
    exact ⟨_, _, rfl, rfl, by decide⟩
  | qualified path =>
    rw [written_qualified]
    exact lead (path_opening path (plain _ (Expr.mem_nodes _)))
  | @parameter text spelled =>
    rw [written_parameter]
    generalize text.toList = t at spelled
    cases spelled with
    | question => exact ⟨_, _, rfl, rfl, by decide⟩
    | named shape _ => exact ⟨_, _, rfl, rfl, by decide⟩
    | numbered shape _ => exact ⟨_, _, rfl, rfl, by decide⟩
  | group inside ih =>
    rw [written_group]
    exact ⟨_, _, rfl, rfl, by decide⟩
  | not inside tight ih =>
    rw [written_not]
    exact ⟨'N', _, rfl, rfl, by decide⟩
  | negate inside tight ih =>
    rw [written_negate]
    exact ⟨_, _, rfl, rfl, by decide⟩
  | binary first second loose tight ihl ihr =>
    rw [written_binary]
    exact lead (ihl fun x member => plain x (by simp [Expr.nodes, member]))
  | isNull inside tight ih =>
    rw [written_isNull]
    exact lead (ih fun x member => plain x (by simp [Expr.nodes, member]))
  | inList inside tight nonempty each ih _ =>
    rw [written_inList]
    exact lead (ih fun x member => plain x (by simp [Expr.nodes, member]))

theorem number_rewritten {text : String} {t after rest : List Char}
    (spelled : NumberText text t after) (stops : Stops rest) : g (t ++ rest) = t ++ g rest := by
  cases spelled with
  | whole shape _ _ => exact rewrites.digits t rest shape stops.ended
  | @fraction ds fs _ shape places _ =>
    rw [List.append_assoc, List.cons_append, rewrites.digits ds _ shape (endsRun_cons rfl _),
      rewrites.mark '.' (by simp [marks])]
    cases fs with
    | nil => simp
    | cons c fs =>
      rw [rewrites.digits _ rest ⟨List.cons_ne_nil c fs, places⟩ stops.ended]
      simp

theorem parameter_rewritten {text : String} {t after rest : List Char}
    (spelled : ParameterText text t after) (unnamed : t.head? ≠ some ':') (stops : Stops rest) :
    g (t ++ rest) = t ++ g rest := by
  cases spelled with
  | question => exact rewrites.mark '?' (by simp [marks]) rest
  | named shape _ => exact absurd rfl unnamed
  | @numbered ds _ shape _ =>
    rw [List.cons_append, rewrites.mark '$' (by simp [marks]), rewrites.digits ds rest shape stops.ended]
    rfl

theorem call_rewritten {name : String} (run : IsRun name.toList) (free : isReserved name = false)
    {a : Expr} {args : List Expr} {distinct : Bool}
    (opening : ∃ c t, a.written id = c :: t ∧ isBlank c = false ∧ c ≠ ')')
    (each : ∀ x ∈ a :: args, ∀ rest, Stops rest →
      g (x.written id ++ rest) = (x.rewrite new? change).written id ++ g rest) (rest : List Char) :
    g ((Expr.call name (a :: args) distinct false).written id ++ rest)
      = ((Expr.call name (a :: args) distinct false).rewrite new? change).written id ++ g rest := by
  have renamed : (Expr.call name (a :: args) distinct false).rewrite new? change
      = .call (match new? name with
        | some target => if isNiladic target then name else target
        | none => name) ((a :: args).map (Expr.rewrite new? change)) distinct false := by
    rw [rewrite_call, Call.renamed]
    cases new? name with
    | none => rfl
    | some target => cases niladic : isNiladic target <;> simp [losesArguments, Call.rename, niladic]
  have values : ∀ rest, g (commas ((a :: args).map (Expr.written id)) ++ (')' :: rest))
      = commas (((a :: args).map (Expr.rewrite new? change)).map (Expr.written id)) ++ ')' :: g rest := by
    intro rest
    rw [commas_rewritten rewrites each (stops_mark ')' rfl rfl (by decide) rest), rewrites.close]
  have filled : Filled ((if distinct then "DISTINCT ".toList else [])
      ++ (commas ((a :: args).map (Expr.written id)) ++ (')' :: rest))) := by
    obtain ⟨c, t, begins, solid⟩ := opening
    intro d first
    cases distinct with
    | true =>
      cases first
      exact ⟨rfl, by decide⟩
    | false =>
      have same : d = c := by
        cases args <;> simpa [begins, eq_comm] using first
      rwa [same]
  rw [renamed, written_call, written_call, List.append_assoc, List.cons_append, List.append_assoc,
    List.append_assoc, List.singleton_append, rewrites.filled name _ run free filled]
  cases distinct with
  | false =>
    rw [if_neg (by simp), List.nil_append, values]
    simp
  | true =>
    have word := rewrites.keyword "DISTINCT" (by simp [queryWords])
    have split : "DISTINCT ".toList = "DISTINCT".toList ++ [' '] := by simp
    rw [if_pos rfl, split, List.append_assoc, List.singleton_append,
      word _ (endsRun_cons rfl _), rewrites.blank, values]
    simp

omit rewrites in
theorem path_single {parts : List String} {args : List Expr} {distinct : Bool} (path : IsPath parts)
    (node : (Expr.call (".".intercalate parts) args distinct false).PlainNode) :
    ∃ name, parts = [name] := by
  obtain ⟨nonempty, _⟩ := path
  cases parts with
  | nil => exact absurd rfl nonempty
  | cons part parts =>
    cases parts with
    | nil => exact ⟨part, rfl⟩
    | cons next parts =>
      refine absurd ?_ node.2
      rw [String.intercalate_cons_of_ne_nil (by simp)]
      simp

theorem emptyCall_rewritten {name : String} (run : IsRun name.toList) (free : isReserved name = false)
    (rest : List Char) :
    g ((Expr.call name [] false false).written id ++ rest)
      = ((Expr.call name [] false false).rewrite new? change).written id ++ g rest := by
  have text : (Expr.call name [] false false).written id ++ rest
      = name.toList ++ '(' :: ')' :: rest := by
    rw [written_call]
    simp
  rw [text]
  exact rewrites.empty name rest run free

section Operators

variable {left right : Expr}
  (first : ∀ rest, Stops rest →
    g (left.written id ++ rest) = (left.rewrite new? change).written id ++ g rest)
include first

theorem binary_rewritten (op : BinaryOp)
    (second : ∀ rest, Stops rest →
      g (right.written id ++ rest) = (right.rewrite new? change).written id ++ g rest)
    {rest : List Char} (stops : Stops rest) :
    g ((Expr.binary left op right).written id ++ rest)
      = ((Expr.binary left op right).rewrite new? change).written id ++ g rest := by
  have begun := first (' ' :: (op.toSql.toList ++ ' ' :: (right.written id ++ rest)))
    (by cases op <;> exact stops_blank rfl (by decide) _)
  rw [Expr.rewrite, written_binary, written_binary, List.append_assoc, List.cons_append,
    List.cons_append, List.append_assoc, List.cons_append, begun, rewrites.blank,
    rewrites.operator, second rest stops]
  simp

theorem isNull_rewritten (negated : Bool) {rest : List Char} (stops : Stops rest) :
    g ((Expr.isNull left negated).written id ++ rest)
      = ((Expr.isNull left negated).rewrite new? change).written id ++ g rest := by
  have begun := first (' ' :: ("IS".toList
      ++ ((if negated then ' ' :: "NOT".toList else []) ++ ' ' :: ("NULL".toList ++ rest))))
    (stops_blank rfl (by decide) _)
  have last := rewrites.keyword "NULL" (by simp [queryWords]) rest stops.ended
  rw [Expr.rewrite, written_isNull, written_isNull, List.append_assoc, List.cons_append,
    List.cons_append, List.append_assoc, List.append_assoc, List.cons_append, begun]
  cases negated with
  | false =>
    rw [if_neg (by simp), List.nil_append, rewrites.word "IS" (by simp [queryWords]), last]
    simp
  | true =>
    rw [if_pos rfl, List.cons_append, rewrites.word "IS" (by simp [queryWords]),
      rewrites.keyword "NOT" (by simp [queryWords]) _ (endsRun_cons rfl _), rewrites.blank, last]
    simp

theorem inList_rewritten {values : List Expr} (negated : Bool)
    (each : ∀ v ∈ values, ∀ rest, Stops rest →
      g (v.written id ++ rest) = (v.rewrite new? change).written id ++ g rest) (rest : List Char) :
    g ((Expr.inList left values negated).written id ++ rest)
      = ((Expr.inList left values negated).rewrite new? change).written id ++ g rest := by
  have begun := first ((if negated then ' ' :: "NOT".toList else []) ++ (' ' :: ("IN".toList
      ++ (' ' :: '(' :: (commas (values.map (Expr.written id)) ++ ')' :: rest)))))
    (by cases negated <;> exact stops_blank rfl (by decide) _)
  have opened : g (' ' :: ("IN".toList ++ (' ' :: '('
      :: (commas (values.map (Expr.written id)) ++ ')' :: rest))))
      = ' ' :: ("IN".toList ++ (' ' :: '('
        :: (commas ((values.map (Expr.rewrite new? change)).map (Expr.written id))
          ++ ')' :: g rest))) := by
    rw [rewrites.word "IN" (by simp [queryWords]), rewrites.mark '(' (by simp [marks]),
      commas_rewritten rewrites each (stops_mark ')' rfl rfl (by decide) rest), rewrites.close]
  have text : ∀ (s : Expr) (vs : List Expr) (rest : List Char),
      (Expr.inList s vs negated).written id ++ rest
        = s.written id ++ ((if negated then ' ' :: "NOT".toList else []) ++ (' ' :: ("IN".toList
          ++ (' ' :: '(' :: (commas (vs.map (Expr.written id)) ++ ')' :: rest))))) := by
    intro s vs rest
    rw [written_inList]
    simp
  rw [Expr.rewrite, text, text, begun, Expr.listRewrite_eq]
  cases negated with
  | false => rw [if_neg (by simp), List.nil_append, opened, List.nil_append]
  | true =>
    rw [if_pos rfl, List.cons_append, rewrites.blank,
      rewrites.keyword "NOT" (by simp [queryWords]) _ (endsRun_cons rfl _), opened]
    rfl

end Operators

theorem expr_rewritten {e : Expr} (wellFormed : e.WellFormed) (plain : ∀ x ∈ e.nodes, x.PlainNode)
    {rest : List Char} (stops : Stops rest) :
    g (e.written id ++ rest) = (e.rewrite new? change).written id ++ g rest := by
  induction wellFormed generalizing rest with
  | @call parts args distinct path inside only ih =>
    have node := plain _ (Expr.mem_nodes _)
    obtain ⟨name, rfl⟩ := path_single path node
    rw [String.intercalate_singleton] at node ⊢
    obtain ⟨run, free⟩ := part_run (path.each name (by simp)) node.1
    have each : ∀ a ∈ args, ∀ x ∈ a.nodes, x.PlainNode := fun a member x found =>
      plain x (by
        simp only [Expr.nodes, Expr.listNodes_eq, List.mem_cons, List.mem_flatMap]
        exact .inr ⟨a, member, found⟩)
    cases args with
    | nil =>
      cases distinct with
      | false => exact emptyCall_rewritten rewrites run free rest
      | true => exact absurd rfl (only rfl)
    | cons a args =>
      exact call_rewritten rewrites run free (expr_opening (inside a (by simp)) (each a (by simp)))
        (fun x member rest stops => ih x member (each x member) stops) rest
  | @bare name part niladic =>
    obtain ⟨run, free⟩ := part_run part (plain _ (Expr.mem_nodes _)).1
    rw [rewrite_call, Call.renamed, rewrites.uncalled name niladic]
    exact rewrites.name name rest run free stops
  | column path other => exact path_rewritten rewrites path (plain _ (Expr.mem_nodes _)) stops
  | number spelled => exact number_rewritten rewrites spelled stops
  | string value =>
    rw [Expr.rewrite, written_string]
    exact rewrites.literal value.toList rest
  | null =>
    rw [Expr.rewrite, written_null]
    exact rewrites.keyword "NULL" (by simp [queryWords]) rest stops.ended
  | star =>
    rw [Expr.rewrite, written_star]
    exact rewrites.mark '*' (by simp [marks]) rest
  | qualified path =>
    rw [Expr.rewrite, written_qualified, id, List.append_assoc, List.cons_append, List.cons_append,
      path_rewritten rewrites path (plain _ (Expr.mem_nodes _))
        (stops_mark '.' rfl rfl (by decide) _),
      rewrites.mark '.' (by simp [marks]), rewrites.mark '*' (by simp [marks])]
    simp
  | parameter spelled =>
    exact parameter_rewritten rewrites spelled (plain _ (Expr.mem_nodes _)) stops
  | @group inner inside ih =>
    have nested := ih (fun x member => plain x (by simp [Expr.nodes, member]))
      (stops_mark ')' rfl rfl (by decide) rest)
    rw [Expr.rewrite, written_group, written_group, List.cons_append,
      rewrites.mark '(' (by simp [marks]), List.append_assoc, List.singleton_append, nested,
      rewrites.close]
    simp
  | @not inner inside tight ih =>
    have nested := ih (fun x member => plain x (by simp [Expr.nodes, member])) stops
    rw [Expr.rewrite, written_not, written_not, List.append_assoc, List.cons_append,
      rewrites.keyword "NOT" (by simp [queryWords]) _ (endsRun_cons rfl _), rewrites.blank, nested]
    simp
  | @negate inner inside tight ih =>
    have nested := ih (fun x member => plain x (by simp [Expr.nodes, member])) stops
    rw [Expr.rewrite, written_negate, written_negate, List.cons_append,
      rewrites.mark '-' (by simp [marks]), nested]
    simp
  | @binary left right op first second loose tight ihl ihr =>
    exact binary_rewritten rewrites
      (fun rest => ihl fun x member => plain x (by simp [Expr.nodes, member])) op
      (fun rest => ihr fun x member => plain x (by simp [Expr.nodes, member])) stops
  | @isNull subject negated inside tight ih =>
    exact isNull_rewritten rewrites
      (fun rest => ih fun x member => plain x (by simp [Expr.nodes, member])) negated stops
  | @inList subject values negated inside tight nonempty each ih ihs =>
    refine inList_rewritten rewrites
      (fun rest => ih fun x member => plain x (by simp [Expr.nodes, member])) negated
      (fun v member rest => ihs v member fun x found => plain x ?_) rest
    simp only [Expr.nodes, Expr.listNodes_eq, List.mem_cons, List.mem_append, List.mem_flatMap]
    exact .inr (.inr ⟨v, member, found⟩)

/-! Clauses. -/

theorem alias_rewritten {alias? : Option String} (parts : ∀ name ∈ alias?, IsPart name)
    (plain : ∀ name ∈ alias?, PlainName name) {as rest : List Char}
    (mark : ∀ s, g (as ++ ' ' :: s) = as ++ ' ' :: g s) (stops : Stops rest) :
    g (aliasWritten id as alias? ++ rest) = aliasWritten id as alias? ++ g rest := by
  cases alias? with
  | none => rfl
  | some name =>
    obtain ⟨run, free⟩ := part_run (parts name rfl) (plain name rfl)
    rw [aliasWritten, id, List.append_assoc, List.cons_append, mark,
      rewrites.name name rest run free stops]
    simp

theorem selectItem_rewritten {item : SelectItem} (wellFormed : item.WellFormed)
    (plain : ∀ x ∈ item.expr.nodes, x.PlainNode) (named : ∀ name ∈ item.alias?, PlainName name)
    {rest : List Char} (stops : Stops rest) :
    g (item.written id ++ rest)
      = SelectItem.written id { item with expr := item.expr.rewrite new? change } ++ g rest := by
  have before : Stops (aliasWritten id (' ' :: "AS".toList) item.alias? ++ rest) := by
    cases item.alias? with
    | none => exact stops
    | some name => exact stops_blank (c := 'A') rfl (by decide) _
  rw [SelectItem.written, SelectItem.written, List.append_assoc, List.append_assoc,
    expr_rewritten rewrites wellFormed.expr plain before,
    alias_rewritten rewrites wellFormed.alias? named
      (fun s => rewrites.word "AS" (by simp [queryWords]) s) stops]

theorem tableRef_rewritten {table : TableRef} (wellFormed : table.WellFormed) (plain : table.Plain)
    {rest : List Char} (stops : Stops rest) :
    g (table.written id ++ rest) = table.written id ++ g rest := by
  have before : Stops (aliasWritten id [] table.alias? ++ rest) := by
    have parts := wellFormed.alias?
    have named := plain.alias?
    cases found : table.alias? with
    | none => exact stops
    | some name =>
      obtain ⟨run, _⟩ := part_run (parts name found) (named name found)
      cases split : name.toList with
      | nil => exact absurd split run.nonempty
      | cons c t =>
        have solid := run.inside c (by simp [split])
        rw [aliasWritten, id, split]
        refine stops_blank (solid_of_plain solid) ?_ _
        rintro rfl
        cases solid
  obtain ⟨parts, path, name⟩ := wellFormed.name
  have plainName := plain.name
  rw [name] at plainName
  rw [TableRef.written, name, id, List.append_assoc, path_rewritten rewrites path plainName before,
    alias_rewritten rewrites wellFormed.alias? plain.alias? rewrites.blank stops, List.append_assoc]

theorem condition_rewritten (word : String) (listed : word ∈ queryWords) {condition : Option Expr}
    (wellFormed : ∀ e ∈ condition, e.WellFormed)
    (plain : ∀ e ∈ condition, ∀ x ∈ e.nodes, x.PlainNode) {rest : List Char} (stops : Stops rest) :
    g (conditionWritten id word condition ++ rest)
      = conditionWritten id word (condition.map (Expr.rewrite new? change)) ++ g rest := by
  cases condition with
  | none => rfl
  | some e =>
    rw [conditionWritten, List.append_assoc, List.cons_append, List.cons_append,
      rewrites.word word listed, expr_rewritten rewrites (wellFormed e rfl) (plain e rfl) stops]
    simp [conditionWritten]

theorem joinKind_rewritten (kind : JoinKind) (s : List Char) :
    g (' ' :: kind.toSql.toList ++ ' ' :: s) = ' ' :: kind.toSql.toList ++ ' ' :: g s := by
  have join : ∀ s, g ("JOIN".toList ++ ' ' :: s) = "JOIN".toList ++ ' ' :: g s := fun s => by
    rw [rewrites.keyword "JOIN" (by simp [queryWords]) _ (endsRun_cons rfl s), rewrites.blank]
  have outer : ∀ side ∈ queryWords, g (' ' :: (side.toList ++ ' ' :: ("JOIN".toList ++ ' ' :: s)))
      = ' ' :: (side.toList ++ ' ' :: ("JOIN".toList ++ ' ' :: g s)) := fun side listed => by
    rw [rewrites.word side listed, join]
  cases kind with
  | inner => exact rewrites.word "JOIN" (by simp [queryWords]) s
  | left => exact outer "LEFT" (by simp [queryWords])
  | right => exact outer "RIGHT" (by simp [queryWords])
  | full => exact outer "FULL" (by simp [queryWords])
  | cross => exact outer "CROSS" (by simp [queryWords])

theorem joins_rewritten {joins : List Join} (wellFormed : ∀ join ∈ joins, join.WellFormed)
    (plain : ∀ join ∈ joins, ∀ e ∈ join.on?, ∀ x ∈ e.nodes, x.PlainNode)
    (named : ∀ join ∈ joins, join.table.Plain) {rest : List Char} (clause : ClauseText rest) :
    g ((joins.map (Join.written id)).flatten ++ rest)
      = ((joins.map fun join => { join with on? := join.on?.map (Expr.rewrite new? change) }).map
        (Join.written id)).flatten ++ g rest := by
  induction joins with
  | nil => rfl
  | cons join joins ih =>
    have later := ih (fun next member => wellFormed next (by simp [member]))
      (fun next member => plain next (by simp [member]))
      (fun next member => named next (by simp [member]))
    have after : Stops ((joins.map (Join.written id)).flatten ++ rest) :=
      ((joins_clause id joins).append clause).stops
    have before : Stops (conditionWritten id "ON" join.on?
        ++ ((joins.map (Join.written id)).flatten ++ rest)) :=
      ((condition_clause id "ON" rfl join.on?).append ((joins_clause id joins).append clause)).stops
    have shape := wellFormed join (by simp)
    simp only [List.map_cons, List.flatten_cons, Join.written, List.append_assoc, List.cons_append]
    rw [← List.cons_append, joinKind_rewritten rewrites,
      tableRef_rewritten rewrites shape.table (named join (by simp)) before,
      condition_rewritten rewrites "ON" (by simp [queryWords]) shape.on? (plain join (by simp)) after,
      later]
    simp

theorem orderItem_rewritten {item : OrderItem} (wellFormed : item.expr.WellFormed)
    (plain : ∀ x ∈ item.expr.nodes, x.PlainNode) {rest : List Char} (stops : Stops rest) :
    g (item.written id ++ rest)
      = OrderItem.written id { item with expr := item.expr.rewrite new? change } ++ g rest := by
  obtain ⟨e, descending⟩ := item
  cases descending with
  | false => simpa [OrderItem.written] using expr_rewritten rewrites wellFormed plain stops
  | true =>
    have before : Stops (' ' :: ("DESC".toList ++ rest)) := stops_blank (c := 'D') rfl (by decide) _
    have text := expr_rewritten rewrites wellFormed plain before
    rw [rewrites.blank, rewrites.keyword "DESC" (by simp [queryWords]) rest stops.ended] at text
    simpa [OrderItem.written] using text

theorem list_rewritten {α : Type} {text : α → List Char} {f : α → α} (head : List Char)
    {as : List α} (mark : ∀ s, g (head ++ ' ' :: s) = head ++ ' ' :: g s)
    (each : ∀ a ∈ as, ∀ rest, Stops rest → g (text a ++ rest) = text (f a) ++ g rest)
    {rest : List Char} (stops : Stops rest) :
    g (listWritten head (as.map text) ++ rest)
      = listWritten head ((as.map f).map text) ++ g rest := by
  cases as with
  | nil => rfl
  | cons a as =>
    have listed := commas_rewritten rewrites each stops
    simp only [listWritten, List.map_cons, List.isEmpty_cons, Bool.false_eq_true, ↓reduceIte,
      List.append_assoc, List.cons_append] at listed ⊢
    rw [mark, listed]

/-! Queries. -/

omit rewrites in
def Select.bodyBefore (select : Select) (page : List Char) : List Char :=
  "SELECT".toList ++ ((if select.distinct then ' ' :: "DISTINCT".toList else [])
    ++ (' ' :: commas (select.items.map (SelectItem.written id))
    ++ (listWritten (' ' :: "FROM".toList) (select.tables.map (TableRef.written id))
    ++ ((select.joins.map (Join.written id)).flatten
    ++ (conditionWritten id "WHERE" select.filter
    ++ (listWritten (' ' :: "GROUP BY".toList) (select.groupBy.map (Expr.written id))
    ++ (conditionWritten id "HAVING" select.having
    ++ (listWritten (' ' :: "ORDER BY".toList) (select.orderBy.map (OrderItem.written id))
    ++ page))))))))

/-- Changing the text of a query gives the text of the rewritten query, and goes on with the row
limit. -/
theorem body_rewritten {select : Select} (wellFormed : select.WellFormed) (plain : select.Plain)
    {page : List Char} (clause : ClauseText page) :
    g (select.bodyBefore page)
      = (select.mapExprs (Expr.rewrite new? change)).bodyBefore (g page) := by
  have each : ∀ e : Expr, _ → ∀ x ∈ e.nodes, x.PlainNode := fun e member x found =>
    plain.nodes x (List.mem_flatMap.mpr ⟨e, Select.mem_exprs.mpr member, found⟩)
  have orders := (list_clause "ORDER BY" rfl (select.orderBy.map (OrderItem.written id))).append clause
  have havings := (condition_clause id "HAVING" rfl select.having).append orders
  have groups := (list_clause "GROUP BY" rfl (select.groupBy.map (Expr.written id))).append havings
  have filters := (condition_clause id "WHERE" rfl select.filter).append groups
  have joins := (joins_clause id select.joins).append filters
  have tables := (list_clause "FROM" rfl (select.tables.map (TableRef.written id))).append joins
  have words : ∀ one ∈ queryWords, ∀ other ∈ queryWords, ∀ s,
      g (' ' :: (one.toList ++ (' ' :: other.toList)) ++ ' ' :: s)
        = ' ' :: (one.toList ++ (' ' :: other.toList)) ++ ' ' :: g s := by
    intro one listed other next s
    simp only [List.cons_append, List.append_assoc]
    rw [rewrites.word one listed, rewrites.keyword other next _ (endsRun_cons rfl s), rewrites.blank]
  have ordersText := list_rewritten rewrites (' ' :: "ORDER BY".toList)
    (words "ORDER" (by simp [queryWords]) "BY" (by simp [queryWords]))
    (fun item member rest stops => orderItem_rewritten rewrites (wellFormed.orderBy item member)
      (each _ (.inr (.inr (.inr (.inr (.inr ⟨item, member, rfl⟩)))))) stops) clause.stops
  have havingText := condition_rewritten rewrites "HAVING" (by simp [queryWords]) wellFormed.having
    (fun e member => each e (.inr (.inr (.inr (.inr (.inl member)))))) orders.stops
  have groupsText := list_rewritten rewrites (' ' :: "GROUP BY".toList)
    (words "GROUP" (by simp [queryWords]) "BY" (by simp [queryWords]))
    (fun e member rest stops => expr_rewritten rewrites (wellFormed.groupBy e member)
      (each e (.inr (.inr (.inr (.inl member))))) stops) havings.stops
  have filterText := condition_rewritten rewrites "WHERE" (by simp [queryWords]) wellFormed.filter
    (fun e member => each e (.inr (.inr (.inl member)))) groups.stops
  have joinsText := joins_rewritten rewrites wellFormed.joins
    (fun join member e found => each e (.inr (.inl ⟨join, member, found⟩))) plain.joins filters
  have tablesText := list_rewritten rewrites (' ' :: "FROM".toList)
    (rewrites.word "FROM" (by simp [queryWords]))
    (fun table member rest stops => tableRef_rewritten rewrites (wellFormed.tables table member)
      (plain.tables table member) stops) (f := id) joins.stops
  have itemsText := commas_rewritten rewrites (fun item member rest stops =>
    selectItem_rewritten rewrites (wellFormed.items item member)
      (each _ (.inl ⟨item, member, rfl⟩)) (plain.items item member) stops) tables.stops
  have itemsMark : ∀ s, g ((if select.distinct then ' ' :: "DISTINCT".toList else []) ++ ' ' :: s)
      = (if select.distinct then ' ' :: "DISTINCT".toList else []) ++ ' ' :: g s := by
    intro s
    cases select.distinct with
    | false => exact rewrites.blank s
    | true => exact rewrites.word "DISTINCT" (by simp [queryWords]) s
  have ended : ∀ s, EndsRun ((if select.distinct then ' ' :: "DISTINCT".toList else []) ++ ' ' :: s) := by
    intro s
    cases select.distinct <;> exact endsRun_cons rfl _
  rw [List.map_id] at tablesText
  have afterHaving := havingText.trans (congrArg (_ ++ ·) ordersText)
  have afterGroups := groupsText.trans (congrArg (_ ++ ·) afterHaving)
  have afterFilter := filterText.trans (congrArg (_ ++ ·) afterGroups)
  have afterJoins := joinsText.trans (congrArg (_ ++ ·) afterFilter)
  have afterTables := tablesText.trans (congrArg (_ ++ ·) afterJoins)
  have afterItems := itemsText.trans (congrArg (_ ++ ·) afterTables)
  have afterMark := (itemsMark _).trans (congrArg (fun t => _ ++ ' ' :: t) afterItems)
  exact (rewrites.keyword "SELECT" (by simp [queryWords]) _ (ended _)).trans
    (congrArg (_ ++ ·) afterMark)

end Rewrites

end SqlDialects
