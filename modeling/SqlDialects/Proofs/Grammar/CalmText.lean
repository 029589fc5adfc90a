import SqlDialects.Proofs.Grammar.Statements
import SqlDialects.Proofs.Grammar.TopLevel

/-
Calm texts: nothing in them opens a comment, ends a statement or leaves a quote open. One statement
with closed quotes is calm, and so is the canonical text of a query without doubled signs, with any
calm text behind it.
-/
namespace SqlDialects

open Text Nesting Reader

def scanFrom : Option Char → ScriptScan
  | some q => .quoted q
  | none => .code

theorem Clear.quotes {quote : Option Char} {s : List Char} {last : ScriptScan}
    (clear : Clear (scanFrom quote) s last) : last = scanFrom (Nesting.quoteBehind quote s) := by
  induction s generalizing quote with
  | nil => cases quote <;> (cases clear; rfl)
  | cons c s ih =>
    cases quote with
    | none =>
      cases (show Clear .code (c :: s) last from clear) with
      | plain unquoted _ _ later =>
        rw [Nesting.quoteBehind, unquoted]
        exact @ih none later
      | quote known later =>
        rw [Nesting.quoteBehind, if_pos known]
        exact @ih (some c) later
    | some q =>
      cases (show Clear (.quoted q) (c :: s) last from clear) with
      | quoted inside later =>
        rw [Nesting.quoteBehind, if_neg inside]
        exact @ih (some q) later
      | close known later =>
        rw [Nesting.quoteBehind, if_pos rfl]
        exact @ih none later

theorem Clear.join {state mid last : ScriptScan} {s t : List Char} (front : Clear state s mid)
    (behind : Clear mid t last) (apart : t.head? ≠ some '-' ∧ t.head? ≠ some '*') :
    Clear state (s ++ t) last := by
  induction front with
  | nil => exact behind
  | @plain c s _ unquoted inside alone _ ih =>
    refine .plain unquoted inside ?_ (ih behind)
    cases s with
    | nil => simp [opensComment, apart]
    | cons d s => exact alone
  | quote known _ ih => exact .quote known (ih behind)
  | quoted inside _ ih => exact .quoted inside (ih behind)
  | close known _ ih => exact .close known (ih behind)

def Calm (s : List Char) : Prop := Clear .code s .code

theorem Clear.calm {s : List Char} {last : ScriptScan} (clear : Clear .code s last)
    (closed : Nesting.quoteBehind none s = none) : Calm s := by
  have same := @Clear.quotes none s last clear
  rw [closed] at same
  rwa [same] at clear

theorem Calm.closed {s : List Char} (calm : Calm s) : Nesting.quoteBehind none s = none := by
  have same := @Clear.quotes none s .code calm
  cases behind : Nesting.quoteBehind none s with
  | none => rfl
  | some q =>
    rw [behind] at same
    cases same

theorem Clear.split {s t : List Char} {last : ScriptScan} (clear : Clear .code (s ++ t) last)
    (closed : Nesting.quoteBehind none s = none) : Calm s ∧ Clear .code t last := by
  obtain ⟨mid, front, behind⟩ := clear.append
  have same := @Clear.quotes none s mid front
  rw [closed] at same
  rw [same] at front behind
  exact ⟨front, behind⟩

theorem Calm.ended {s : List Char} (calm : Calm s) (trimmed : Trimmed s) : Closed s := by
  obtain ⟨c, final, solid⟩ := trimmed.ends
  refine ⟨c, final, solid, ?_⟩
  rintro rfl
  obtain ⟨t, rfl⟩ := List.getLast?_eq_some_iff.mp final
  obtain ⟨mid, _, behind⟩ := Clear.append calm
  cases behind with
  | plain _ inside => exact inside rfl
  | quote known => cases known
  | quoted _ later => cases later
  | close known => cases known

theorem Calm.statementBody {s : List Char} (calm : Calm s) (trimmed : Trimmed s) :
    statementBody s = s := by
  obtain ⟨c, first, solid⟩ := trimmed.begins
  obtain ⟨t, rfl⟩ := List.head?_eq_some_iff.mp first
  exact statementBody_closed solid (calm.ended trimmed)

/-! Texts that may stand in front of others. -/

structure Kept (t : List Char) : Prop where
  before : ∀ {rest last}, Clear .code rest last → Clear .code (t ++ rest) last

theorem Kept.isCalm {t : List Char} (kept : Kept t) : Calm t := by
  have whole := kept.before (.nil .code)
  rwa [List.append_nil] at whole

theorem kept_nil : Kept [] := ⟨id⟩

theorem Kept.append {t u : List Char} (first : Kept t) (second : Kept u) : Kept (t ++ u) where
  before clear := by
    rw [List.append_assoc]
    exact first.before (second.before clear)

theorem kept_cons {c : Char} (unquoted : isQuote c = false) (inside : c ≠ ';') {t : List Char}
    (nonempty : t ≠ []) (kept : Kept t) (line : c = '-' → t.head? ≠ some '-')
    (block : c = '/' → t.head? ≠ some '*') : Kept (c :: t) := by
  cases t with
  | nil => exact absurd rfl nonempty
  | cons d t =>
    exact ⟨fun clear =>
      .plain unquoted inside (opensComment_eq_false.mpr ⟨line, block⟩) (kept.before clear)⟩

theorem kept_ordinary {c : Char} (ordinary : isOrdinary c = true) : Kept [c] := by
  simp only [isOrdinary, Bool.and_eq_true, Bool.not_eq_true', bne_iff_ne] at ordinary
  obtain ⟨⟨⟨unquoted, inside⟩, minus⟩, slash⟩ := ordinary
  exact ⟨.plain unquoted inside (alone_other minus slash _)⟩

theorem kept_all {t : List Char} (ordinary : ∀ c ∈ t, isOrdinary c = true) : Kept t := by
  induction t with
  | nil => exact kept_nil
  | cons c t ih =>
    exact (kept_ordinary (ordinary c List.mem_cons_self)).append
      (ih fun d member => ordinary d (.tail c member))

theorem kept_text {t : List Char} (check : t.all isOrdinary = true) : Kept t :=
  kept_all (List.all_eq_true.mp check)

theorem kept_enclose {q : Char} (known : isQuote q = true) (body : List Char) :
    Kept (enclose q body) := by
  refine ⟨@fun rest last clear => ?_⟩
  have inside : Clear (.quoted q) (double q body ++ q :: rest) last := by
    induction body with
    | nil => exact .close known clear
    | cons c body ih =>
      rw [double]
      split
      · exact .close known (.quote known ih)
      · next other => exact .quoted other ih
  rw [enclose_append]
  exact .quote known inside

theorem calm_intercalate {c : Char} {sep : List Char} (between : Kept (c :: sep))
    (apart : c ≠ '-' ∧ c ≠ '*') {texts : List (List Char)} (each : ∀ t ∈ texts, Calm t) :
    Calm ((c :: sep).intercalate texts) := by
  induction texts with
  | nil => exact kept_nil.isCalm
  | cons t texts ih =>
    obtain ⟨first, others⟩ := List.forall_mem_cons.mp each
    cases texts with
    | nil =>
      rw [List.intercalate_singleton]
      exact first
    | cons next texts =>
      rw [List.intercalate_cons_cons, List.append_assoc]
      exact first.join (between.before (ih others)) (by simpa using apart)

/-! Names. -/

theorem kept_word {w : List Char} (inside : ∀ c ∈ w, isNameCharacter c = true) : Kept w :=
  kept_text (word_ordinary inside)

theorem kept_path {parts : List String} {t rest : List Char} (spelled : PathText parts t rest) :
    Kept t := by
  have part : ∀ {name : String} {t rest : List Char}, PartText name t rest → Kept t := by
    rintro name t rest (⟨known, _⟩ | ⟨shape, _, _⟩)
    · rcases known with rfl | rfl <;> exact kept_enclose rfl _
    · exact kept_word shape.inside
  induction spelled with
  | one found => exact part found
  | more head between _ ih =>
    obtain rfl := between
    exact (part head).append ((kept_text rfl).append ih)

/-! Expressions. -/

theorem kept_operator (op : BinaryOp) : Kept (' ' :: op.toSql.toList ++ [' ']) := by
  have apart : ∀ {c d : Char}, isQuote c = false → c ≠ ';' → isOrdinary d = true →
      d ≠ '*' → Kept [c, d] := by
    intro c d unquoted inside ordinary star
    refine kept_cons unquoted inside (List.cons_ne_nil _ _) (kept_ordinary ordinary) ?_ ?_
    · rintro rfl same
      cases same
      cases ordinary
    · rintro rfl same
      cases same
      exact star rfl
  cases op with
  | minus => exact (kept_ordinary (c := ' ') rfl).append (apart rfl (by decide) rfl (by decide))
  | divide => exact (kept_ordinary (c := ' ') rfl).append (apart rfl (by decide) rfl (by decide))
  | _ => exact kept_text (by decide)

theorem kept_intercalate {sep : List Char} (between : Kept sep) {texts : List (List Char)}
    (each : ∀ t ∈ texts, Kept t) : Kept (sep.intercalate texts) := by
  induction texts with
  | nil => exact kept_nil
  | cons t texts ih =>
    cases texts with
    | nil => simpa using each t (by simp)
    | cons u texts =>
      have tail := ih fun found member => each found (.tail t member)
      rw [List.intercalate_cons_cons, List.append_assoc]
      exact (each t (by simp)).append (between.append tail)

section Written

variable {f : String → String} (writes : WritesNames f)
include writes

theorem kept_name {parts : List String} (path : IsPath parts) :
    Kept (f (".".intercalate parts)).toList :=
  kept_path (writes parts [] path fun c first => by cases first)

theorem name_unsigned {parts : List String} (path : IsPath parts) (t : List Char) :
    ((f (".".intercalate parts)).toList ++ t).head? ≠ some '-' := by
  intro signed
  have spelled := writes parts [] path fun c first => by cases first
  obtain ⟨name, u, v, split, part⟩ := path_head spelled
  obtain ⟨c, first, known⟩ := part_head part
  rw [← split, List.append_nil] at first
  rw [List.head?_append, first] at signed
  cases signed
  rcases known with listed | start
  · simp at listed
  · cases start

theorem written_unsigned {e : Expr} (wellFormed : e.WellFormed) (tight : 8 ≤ e.level) :
    (e.written f).head? ≠ some '-' := by
  cases wellFormed with
  | call path inside only =>
    rw [written_call]
    exact name_unsigned path_spelled path _
  | bare part niladic =>
    have unsigned := name_unsigned path_spelled (isPath_one part) []
    rwa [String.intercalate_singleton, List.append_nil] at unsigned
  | column path other =>
    have unsigned := name_unsigned writes path []
    rwa [List.append_nil] at unsigned
  | number spelled =>
    obtain ⟨c, first, digit⟩ := number_head spelled
    rw [List.append_nil] at first
    rw [written_number, first]
    rintro same
    cases same
    cases digit
  | string value => rw [written_string]; simp [Text.enclose]
  | null => rw [written_null]; decide
  | star => rw [written_star]; decide
  | qualified path =>
    rw [written_qualified]
    exact name_unsigned writes path _
  | parameter spelled =>
    obtain ⟨c, listed, first⟩ := parameter_head spelled
    rw [List.append_nil] at first
    rw [written_parameter, first]
    rintro same
    cases same
    simp at listed
  | group inside => rw [written_group]; simp
  | not inside _ => simp [Expr.level] at tight
  | negate inside _ => simp [Expr.level] at tight
  | @binary left right op _ _ _ _ => cases op <;> simp [Expr.level, BinaryOp.level] at tight
  | isNull inside _ => simp [Expr.level] at tight
  | inList inside _ _ _ => simp [Expr.level] at tight

/-- Signs that do not follow another one are kept, and so is every other part of the text. -/
theorem kept_parts : ByParts f (fun e => ∀ x, e ≠ .negate x) fun t _ => Kept t where
  append := Kept.append
  ordinary := kept_text
  literal body := kept_enclose rfl body
  name := kept_name writes
  called := kept_name path_spelled
  operator := kept_operator
  negated unsigned wellFormed tight kept := by
    have first := written_unsigned writes wellFormed (Expr.level_of_unsigned tight unsigned)
    exact kept_cons rfl (by decide) (closed_expr writes wellFormed).ne_nil kept (fun _ => first)
      (fun same => by cases same)

theorem kept_query {select : Select} (wellFormed : select.WellFormed)
    (single : ∀ x, .negate (.negate x) ∉ select.nodes) : Kept (select.written f) := by
  refine (kept_parts writes).query wellFormed ?_
  rintro x found y rfl
  exact single y found

end Written

end SqlDialects
