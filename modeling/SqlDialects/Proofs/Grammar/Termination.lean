import SqlDialects.Proofs.Grammar.Progress
import SqlDialects.Reader.Table

/-
Reading comes to an end on every text. The loops and the nesting of expressions are bounded by the
characters of the text, but only so that they can be defined: each of them is what the same recursion
without a bound comes to, and the recursion asks for itself only on shorter ends of its text.
-/
namespace SqlDialects

open Reader

variable {α β σ : Type}

/-- A step gives a reader in terms of itself, where a state is carried from one call to the next. It
asks for itself only on ends of the text that are shorter. -/
def AsksShorter (step : (σ → Reader α) → σ → Reader α) : Prop :=
  ∀ s again again', (∀ state, Alike s 1 0 (again state) (again' state)) →
    ∀ state, step again state s = step again' state s

structure Recursion (step : (σ → Reader α) → σ → Reader α) (result : σ → Reader α) : Prop where
  shorter : AsksShorter step
  solves : ∀ state, result state = step result state

theorem Alike.here {s : List Char} {least : Nat} {r r' : Reader α} (alike : Alike s 0 least r r') :
    r s = r' s :=
  (alike s List.suffix_rfl (Nat.le_refl _)).1

/-! A bounded recursion is the one without a bound. -/

section Bounded

variable {step : (σ → Reader α) → σ → Reader α} {bounded : List Char → σ → Reader α}

theorem bounded_opened (next : ∀ c bound, bounded (c :: bound) = step (bounded bound))
    (last : ∀ state, bounded [] state [] = step (bounded []) state []) {bound s : List Char}
    (enough : s.length ≤ bound.length) :
    ∃ less, (∀ state, bounded bound state s = step (bounded less) state s)
      ∧ ∀ t : List Char, t.length < s.length → t.length ≤ less.length := by
  cases bound with
  | nil =>
    obtain rfl := List.eq_nil_of_length_eq_zero (Nat.le_zero.mp enough)
    exact ⟨[], last, by simp⟩
  | cons c bound =>
    refine ⟨bound, fun state => by rw [next], fun t short => ?_⟩
    rw [List.length_cons] at enough
    omega

/-- Bounds that are as long as the text make no difference, by induction on its length. -/
theorem bounded_stable (shorter : AsksShorter step)
    (forward : ∀ bound state, Forward (bounded bound state))
    (next : ∀ c bound, bounded (c :: bound) = step (bounded bound))
    (last : ∀ state, bounded [] state [] = step (bounded []) state []) (s bound more : List Char)
    (enough : s.length ≤ bound.length) (also : s.length ≤ more.length) (state : σ) :
    bounded bound state s = bounded more state s := by
  induction size : s.length using Nat.strongRecOn generalizing s bound more state with
  | ind size ih =>
    subst size
    obtain ⟨less, opens, covers⟩ := bounded_opened next last enough
    obtain ⟨less', opens', covers'⟩ := bounded_opened next last also
    rw [opens, opens']
    exact shorter s _ _ (fun state t _ short =>
      ⟨ih t.length short t less less' (covers t short) (covers' t short) state rfl,
        forward less state t⟩) state

theorem recursion_of_bounded (bounded : List Char → σ → Reader α) (shorter : AsksShorter step)
    (forward : ∀ bound state, Forward (bounded bound state))
    (next : ∀ c bound, bounded (c :: bound) = step (bounded bound))
    (last : ∀ state, bounded [] state [] = step (bounded []) state []) :
    Recursion step fun state s => bounded s state s := by
  refine ⟨shorter, fun state => funext fun s => ?_⟩
  obtain ⟨less, opens, covers⟩ := bounded_opened next last (Nat.le_refl s.length)
  rw [opens]
  exact shorter s _ _ (fun state t _ short =>
    ⟨bounded_stable shorter forward next last t less t (covers t short) (Nat.le_refl _) state,
      forward less state t⟩) state

end Bounded

/-! The loops, each with one round of it in terms of those that follow. -/

namespace Reader

def oneGap : Reader Unit := fun s =>
  match afterGap s with
  | some rest => .ok ((), rest)
  | none => .error s

def gapRound (again : Unit → Reader Unit) (_ : Unit) : Reader Unit := whenRead oneGap again (pure ())

def manyRound (item : Reader α) (again : Unit → Reader (List α)) (_ : Unit) : Reader (List α) :=
  whenRead item (fun a => do
    let rest ← again ()
    pure (a :: rest)) (pure [])

def chainRound (combine : α → β → α → α) (operand : Reader α) (operator : Reader β)
    (again : α → Reader α) (left : α) : Reader α :=
  whenRead operator (fun op => do
    let right ← operand
    again (combine left op right)) (pure left)

def markedRound (mark : Reader β) (wrap : α → α) (operand : Reader α) (again : Unit → Reader α)
    (_ : Unit) : Reader α :=
  whenRead mark (fun _ => do
    let inner ← again ()
    pure (wrap inner)) operand

def chainRest (combine : α → β → α → α) (operand : Reader α) (operator : Reader β) (left : α) :
    Reader α := fun s => chainWithin combine operand operator s left s

end Reader

theorem whenRead_nil {mark : Reader α} {yes : α → Reader β} {no : Reader β} (sign : Advances mark) :
    whenRead mark yes no [] = no [] := by
  cases found : mark [] with
  | error stuck => exact whenRead_of_fails ⟨stuck, found⟩
  | ok result => exact absurd (sign.leaves found).2 (by simp)

theorem advances_oneGap : Advances oneGap := by
  intro s
  rw [oneGap]
  split
  · next rest found =>
    obtain ⟨g, nonempty, rfl⟩ := afterGap_shorter s rest found
    have long : 0 < g.length := List.length_pos_iff.mpr nonempty
    exact ⟨List.suffix_append g rest, by rw [List.length_append]; omega⟩
  · exact List.suffix_rfl

theorem recursion_gaps : Recursion gapRound fun _ => gaps := by
  refine recursion_of_bounded (fun bound _ s => .ok ((), skipGapsWithin bound s)) ?_ ?_ ?_ ?_
  · intro s again again' alike state
    exact (Alike.whenRead advances_oneGap.onward alike (.pure _) (Nat.zero_le 1)).here
  · intro bound _ s
    obtain ⟨g, split⟩ := skipGapsWithin_split bound s
    have ends : skipGapsWithin bound s <:+ s := ⟨g, split.symm⟩
    exact ⟨ends, ends.length_le⟩
  · intro c bound
    funext _ s
    simp only [gapRound, whenRead, oneGap, skipGapsWithin]
    cases afterGap s with
    | none => rfl
    | some rest => rfl
  · intro _
    exact (whenRead_nil advances_oneGap : whenRead oneGap _ (pure ()) [] = _).symm

theorem recursion_many {item : Reader α} (each : Advances item) :
    Recursion (manyRound item) fun _ => many item := by
  refine recursion_of_bounded (fun bound _ => manyWithin item bound) ?_ ?_ (fun _ _ => rfl) ?_
  · intro s again again' alike _
    exact (Alike.whenRead each.onward (fun a => .bind (alike ()) fun _ => .pure _) (.pure _)
      (Nat.zero_le 1)).here
  · exact fun bound _ => .of fun _ => .manyWithin each.onward bound
  · exact fun _ => (whenRead_nil each).symm

theorem recursion_chain (combine : α → β → α → α) {operand : Reader α} {operator : Reader β}
    (part : Forward operand) (mark : Advances operator) :
    Recursion (chainRound combine operand operator) (chainRest combine operand operator) := by
  refine recursion_of_bounded (chainWithin combine operand operator) ?_ ?_
    (fun _ _ => funext fun _ => rfl) ?_
  · intro s again again' alike left
    exact (Alike.whenRead mark.onward (fun op => .bind part.onward fun right => alike _) (.pure _)
      (Nat.zero_le 1)).here
  · exact fun bound left => .of fun _ => .chainWithin part.onward mark.forward.onward bound left
  · exact fun _ => (whenRead_nil mark).symm

theorem recursion_marked {mark : Reader β} {wrap : α → α} {operand : Reader α}
    (sign : Advances mark) (part : Forward operand) :
    Recursion (markedRound mark wrap operand) fun _ => marked mark wrap operand := by
  refine recursion_of_bounded (fun bound _ => markedWithin mark wrap operand bound) ?_ ?_
    (fun _ _ => rfl) ?_
  · intro s again again' alike _
    exact (Alike.whenRead sign.onward (fun _ => .bind (alike ()) fun _ => .pure _) part.onward
      (Nat.zero_le 1)).here
  · exact fun bound _ => .of fun _ => .markedWithin sign.forward.onward part.onward bound
  · exact fun _ => (whenRead_nil sign).symm

/-! Expressions inside expressions, and lists. -/

theorem recursion_expr : Recursion (fun again (_ : Unit) => orExpr (again ())) fun _ => expr := by
  have shorter : AsksShorter fun again (_ : Unit) => orExpr (again ()) :=
    fun s again again' alike _ => (alike_orExpr (alike ())).here
  refine recursion_of_bounded (fun bound _ => exprWithin (bound.length + 1)) shorter ?_
    (fun _ _ => rfl) fun _ => ?_
  · exact fun bound _ => (advances_exprWithin _).forward
  · exact shorter [] (fun _ => exprWithin 0) (fun _ => exprWithin 1)
      (fun _ t _ short => by simp at short) ()

def ListEnds (item : Reader α) : Prop :=
  Recursion (manyRound do symbol ","; item) fun _ => many do symbol ","; item

theorem list_ends {item : Reader α} (each : Forward item) : ListEnds item :=
  recursion_many (.of fun _ => .bind (advances_symbol (by decide)) fun _ => each.onward)

def NameEnds (part : Reader String) : Prop :=
  Recursion (manyRound do exactly "."; part) fun _ => many do exactly "."; part

theorem name_ends {part : Reader String} (each : Advances part) : NameEnds part :=
  recursion_many (.of fun _ => .bind (advances_exactly (by decide)).onward fun _ => each.onward)

/-- The operators and operands that a level reads behind its first operand end on every text. -/
structure ChainEnds (operand : Reader Expr) (operator : Reader BinaryOp) (level : Reader Expr) :
    Prop where
  begins : level = operand >>= chainRest .binary operand operator
  ends : Recursion (chainRound .binary operand operator) (chainRest .binary operand operator)

theorem chain_ends {operand : Reader Expr} {operator : Reader BinaryOp} (part : Advances operand)
    (mark : ∀ s, Onward s 0 1 operator) :
    ChainEnds operand operator (chain .binary operand operator) :=
  ⟨rfl, recursion_chain .binary part.forward (.of mark)⟩

theorem forward_indexColumn : Forward indexColumn :=
  .of fun _ => .bind advances_identifier.forward fun _ =>
    .bind (.option (.orElse forward_keyword forward_keyword)) fun _ => .pure _

/-! Where reading a data type stops. -/

def Reader.wholeType : Reader DataType := do
  let type ← dataType
  gaps
  finish
  pure type

theorem forward_wholeType : Forward wholeType := by
  refine .of fun _ => .bind advances_dataType.forward fun _ => .bind forward_gaps.onward fun _ =>
    .bind (Moves.onward fun s => (?_ : Ahead 0 s _)) fun _ => .pure _
  cases s with
  | nil => exact ⟨List.suffix_rfl, Nat.le_refl _⟩
  | cons c rest => exact List.suffix_rfl

theorem DataType.byteLength_eq (s : List Char) : byteLength s = (String.ofList s).utf8ByteSize := by
  induction s with
  | nil => rfl
  | cons c s ih =>
    rw [String.ofList_cons, String.utf8ByteSize_append, String.utf8ByteSize_singleton, ← ih]
    rfl

theorem DataType.ofText_stops (text : String) :
    (∃ type, ofText text = .ok type)
      ∨ ∃ read stuck, Text.trim text.toList = read ++ stuck
        ∧ wholeType (Text.trim text.toList) = .error stuck
        ∧ ofText text = .error (.invalidDataType (String.ofList read).utf8ByteSize
            (String.ofList (Text.trim text.toList))) := by
  cases outcome : wholeType (Text.trim text.toList) with
  | ok result =>
    rw [wholeType] at outcome
    exact .inl ⟨result.1, by simp only [ofText, outcome]⟩
  | error stuck =>
    obtain ⟨read, split⟩ := forward_wholeType.stops outcome
    have place : byteLength (Text.trim text.toList) - byteLength stuck
        = (String.ofList read).utf8ByteSize := by
      rw [byteLength_eq, byteLength_eq, ← split, String.ofList_append, String.utf8ByteSize_append]
      omega
    rw [wholeType] at outcome
    exact .inr ⟨read, stuck, split.symm, rfl, by simp only [ofText, outcome, place]⟩

/-- Reading only moves forward, so it comes to an end, and a failure to read a data type is placed
inside the text. -/
theorem reading_moves_forward :
    (Advances (orExpr expr) ∧ Advances (andExpr expr) ∧ Advances (notExpr expr)
      ∧ Advances (comparison expr) ∧ Advances (additive expr) ∧ Advances (multiplicative expr)
      ∧ Advances (unary expr) ∧ Advances (primary expr) ∧ Advances (pathExpr expr)
      ∧ (∀ name, Advances (callArguments expr name))
      ∧ Advances tableRef ∧ Advances join ∧ Advances orderItem ∧ Advances dataType)
    ∧ (∀ s, gaps s = .ok ((), skipGaps s) ∧ skipGaps s <:+ s)
    ∧ (Recursion (fun again (_ : Unit) => orExpr (again ())) (fun _ => expr)
      ∧ Recursion (markedRound (keyword "NOT") .not (comparison expr)) (fun _ => notExpr expr)
      ∧ Recursion (markedRound (symbol "-") .negate (primary expr)) (fun _ => unary expr))
    ∧ (ChainEnds (andExpr expr) (do keyword "OR"; pure .or) (orExpr expr)
      ∧ ChainEnds (notExpr expr) (do keyword "AND"; pure .and) (andExpr expr)
      ∧ ChainEnds (multiplicative expr) additiveOperator (additive expr)
      ∧ ChainEnds (unary expr) multiplicativeOperator (multiplicative expr))
    ∧ (Recursion gapRound (fun _ => gaps) ∧ NameEnds namePart ∧ NameEnds quotedNamePart
      ∧ ListEnds expr ∧ ListEnds selectItem ∧ ListEnds tableRef ∧ ListEnds orderItem
      ∧ ListEnds indexColumn ∧ ListEnds typeArgument
      ∧ Recursion (manyRound join) (fun _ => many join))
    ∧ ∀ text : String,
        (∃ type, DataType.ofText text = .ok type)
        ∨ ∃ read stuck, Text.trim text.toList = read ++ stuck
          ∧ wholeType (Text.trim text.toList) = .error stuck
          ∧ DataType.ofText text = .error (.invalidDataType (String.ofList read).utf8ByteSize
              (String.ofList (Text.trim text.toList)))
          ∧ (String.ofList read).utf8ByteSize + (String.ofList stuck).utf8ByteSize
              = (String.ofList (Text.trim text.toList)).utf8ByteSize := by
  have inner : ∀ {s}, Onward s 1 0 expr := advances_expr.forward.onward
  have conjunction : Advances (andExpr expr) := .of fun _ => alike_andExpr inner
  have negation : Advances (notExpr expr) := .of fun _ => alike_notExpr inner
  have compared : Advances (comparison expr) := .of fun _ => alike_comparison inner
  have product : Advances (multiplicative expr) := .of fun _ => alike_multiplicative inner
  have factor : Advances (unary expr) := .of fun _ => alike_unary inner
  have single : Advances (primary expr) := .of fun _ => alike_primary inner
  have arguments : ∀ name, Advances (callArguments expr name) := fun name =>
    .of fun _ => alike_callArguments advances_expr.forward.onward name
  refine ⟨⟨.of fun _ => alike_orExpr inner, conjunction, negation, compared,
      .of fun _ => alike_additive inner, product, factor, single, .of fun _ => alike_pathExpr inner,
      arguments, .of fun _ => advances_tableRef, .of fun _ => advances_join,
      .of fun _ => advances_orderItem, .of fun _ => advances_dataType⟩,
    fun s => ⟨rfl, (forward_gaps.leaves rfl).1⟩, ⟨recursion_expr, ?_, ?_⟩, ⟨?_, ?_, ?_, ?_⟩,
    ⟨recursion_gaps, name_ends (.of fun _ => advances_namePart),
      name_ends (.of fun _ => advances_quotedNamePart), list_ends advances_expr.forward,
      list_ends (.of fun _ => advances_selectItem.forward),
      list_ends (.of fun _ => advances_tableRef.forward),
      list_ends (.of fun _ => advances_orderItem.forward), list_ends forward_indexColumn,
      list_ends (.of fun _ => advances_typeArgument.forward),
      recursion_many (.of fun _ => advances_join)⟩, fun text => ?_⟩
  · exact recursion_marked (.of fun _ => advances_keyword (by decide)) compared.forward
  · exact recursion_marked (.of fun _ => advances_symbol (by decide)) single.forward
  · exact chain_ends conjunction fun _ => .bind (advances_keyword (by decide)) fun _ => .pure _
  · exact chain_ends negation fun _ => .bind (advances_keyword (by decide)) fun _ => .pure _
  · exact chain_ends product fun _ => advances_operator rfl
  · exact chain_ends factor fun _ => advances_operator rfl
  · rcases DataType.ofText_stops text with done | ⟨read, stuck, split, stopped, failed⟩
    · exact .inl done
    · refine .inr ⟨read, stuck, split, stopped, failed, ?_⟩
      rw [split, String.ofList_append, String.utf8ByteSize_append]

end SqlDialects
