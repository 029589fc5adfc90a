import SqlDialects.Proofs.Grammar.Carrying

/-
Two readers on two texts, step by step. One reader mirrors another if, on a text and what has become
of it, either both fail, or both read a value, the second one the image of the first, and stop at
texts that are related like those they began with. The ways of putting readers together pass this on.
-/
namespace SqlDialects

open Reader

variable {α β : Type} {change : Change} {f : α → α} {g : β → β}

def Mirrors (change : Change) (f : α → α) (r r' : Reader α) : Prop :=
  ∀ s w, change s w → (∃ a rest rest', r s = .ok (a, rest) ∧ r' w = .ok (f a, rest')
    ∧ change rest rest') ∨ Fails r s ∧ Fails r' w

namespace Mirrors

protected theorem pure (a : α) : Mirrors change f (pure a) (pure (f a)) :=
  fun s w changed => .inl ⟨a, s, w, rfl, rfl, changed⟩

theorem fixed {a : α} (same : f a = a) : Mirrors change f (Pure.pure a) (Pure.pure a) :=
  fun s w changed => .inl ⟨a, s, w, rfl, by rw [same]; rfl, changed⟩

protected theorem stop : Mirrors change f stop stop :=
  fun s w _ => .inr ⟨⟨s, rfl⟩, ⟨w, rfl⟩⟩

protected theorem stopAt (s w : List Char) : Mirrors change f (stopAt s) (stopAt w) :=
  fun _ _ _ => .inr ⟨⟨s, rfl⟩, ⟨w, rfl⟩⟩

protected theorem bind {r r' : Reader α} {k k' : α → Reader β} (first : Mirrors change f r r')
    (next : ∀ s a rest, r s = .ok (a, rest) → Mirrors change g (k a) (k' (f a))) :
    Mirrors change g (r >>= k) (r' >>= k') := by
  intro s w changed
  rcases first s w changed with ⟨a, rest, rest', read, read', later⟩ | ⟨failed, failed'⟩
  · have second := next s a rest read rest rest' later
    rw [bind_of_ok read, bind_of_ok read']
    rcases second with found | ⟨⟨stuck, failed⟩, stuck', failed'⟩
    · exact .inl found
    · exact .inr ⟨⟨stuck, by rw [bind_of_ok read, failed]⟩, stuck', by rw [bind_of_ok read', failed']⟩
  · exact .inr ⟨bind_fails failed, bind_fails failed'⟩

protected theorem whenRead {mark mark' : Reader α} {yes yes' : α → Reader β} {no no' : Reader β}
    (first : Mirrors change f mark mark') (behind : ∀ a, Mirrors change g (yes a) (yes' (f a)))
    (other : Mirrors change g no no') :
    Mirrors change g (whenRead mark yes no) (whenRead mark' yes' no') := by
  intro s w changed
  simp only [Fails]
  rcases first s w changed with ⟨a, rest, rest', read, read', later⟩ | ⟨failed, failed'⟩
  · rw [whenRead_of_ok read, whenRead_of_ok read']
    exact behind a rest rest' later
  · rw [whenRead_of_fails failed, whenRead_of_fails failed']
    exact other s w changed

protected theorem orElse {r r' q q' : Reader α} (first : Mirrors change f r r')
    (second : Mirrors change f q q') : Mirrors change f (r <|> q) (r' <|> q') := by
  rw [orElse_eq_whenRead, orElse_eq_whenRead]
  exact .whenRead first .pure second

protected theorem option {r r' : Reader α} (part : Mirrors change f r r') :
    Mirrors change (Option.map f) (option r) (option r') := by
  rw [option_eq_whenRead, option_eq_whenRead]
  exact .whenRead part (fun a => .pure (some a)) (.pure none)

protected theorem present {r r' : Reader α} (part : Mirrors change f r r') :
    Mirrors change id (present r) (present r') := by
  rw [present_eq_whenRead, present_eq_whenRead]
  exact .whenRead part (fun _ => .pure true) (.pure false)

/-! Repetitions, bounded alike. -/

protected theorem manyWithin {item item' : Reader α} (each : Mirrors change f item item')
    {bound bound' : List Char} (even : bound'.length = bound.length) :
    Mirrors change (List.map f) (manyWithin item bound) (manyWithin item' bound') := by
  induction bound generalizing bound' with
  | nil =>
    rw [List.eq_nil_of_length_eq_zero even]
    exact .pure []
  | cons c bound ih =>
    obtain ⟨d, bound', rfl⟩ := List.exists_cons_of_length_eq_add_one even
    refine .whenRead each (fun a => ?_) (.pure [])
    exact .bind (ih (Nat.succ.inj even)) fun s as rest read => .pure (a :: as)

def Even (change : Change) : Prop := ∀ s w, change s w → w.length = s.length

variable (even : Even change)

include even

protected theorem many {item item' : Reader α} (each : Mirrors change f item item') :
    Mirrors change (List.map f) (many item) (many item') :=
  fun s w changed => Mirrors.manyWithin each (even s w changed) s w changed

protected theorem separatedBy {sep sep' : Reader β} {item item' : Reader α}
    (between : Mirrors change g sep sep') (each : Mirrors change f item item') :
    Mirrors change (List.map f) (separatedBy sep item) (separatedBy sep' item') := by
  refine .bind each fun s a rest read => .bind (.many even ?_) fun s as rest read => .pure (a :: as)
  exact .bind between fun s b rest read => each

omit even in
protected theorem chainWithin {combine : α → β → α → α} {operand operand' : Reader α}
    {operator operator' : Reader β} (same : ∀ a op b, f (combine a op b) = combine (f a) (g op) (f b))
    (each : Mirrors change f operand operand') (sign : Mirrors change g operator operator')
    {bound bound' : List Char} (even : bound'.length = bound.length) (left : α) :
    Mirrors change f (chainWithin combine operand operator bound left)
      (chainWithin combine operand' operator' bound' (f left)) := by
  induction bound generalizing bound' left with
  | nil =>
    rw [List.eq_nil_of_length_eq_zero even]
    exact .pure left
  | cons c bound ih =>
    obtain ⟨d, bound', rfl⟩ := List.exists_cons_of_length_eq_add_one even
    refine .whenRead sign (fun op => .bind each fun s right rest read => ?_) (.pure left)
    rw [← same]
    exact ih (Nat.succ.inj even) _

protected theorem chain {combine : α → β → α → α} {operand operand' : Reader α}
    {operator operator' : Reader β} (same : ∀ a op b, f (combine a op b) = combine (f a) (g op) (f b))
    (each : Mirrors change f operand operand') (sign : Mirrors change g operator operator') :
    Mirrors change f (chain combine operand operator) (chain combine operand' operator') :=
  .bind each fun _ left _ _ s w changed =>
    Mirrors.chainWithin same each sign (even s w changed) left s w changed

omit even in
protected theorem markedWithin {mark mark' : Reader β} {wrap : α → α} {operand operand' : Reader α}
    (same : ∀ a, f (wrap a) = wrap (f a)) (sign : Mirrors change g mark mark')
    (each : Mirrors change f operand operand') {bound bound' : List Char}
    (even : bound'.length = bound.length) :
    Mirrors change f (markedWithin mark wrap operand bound)
      (markedWithin mark' wrap operand' bound') := by
  induction bound generalizing bound' with
  | nil =>
    rw [List.eq_nil_of_length_eq_zero even]
    exact each
  | cons c bound ih =>
    obtain ⟨d, bound', rfl⟩ := List.exists_cons_of_length_eq_add_one even
    refine .whenRead sign (fun _ => .bind (ih (Nat.succ.inj even)) fun s inner rest read => ?_) each
    rw [← same]
    exact .pure (wrap inner)

protected theorem marked {mark mark' : Reader β} {wrap : α → α} {operand operand' : Reader α}
    (same : ∀ a, f (wrap a) = wrap (f a)) (sign : Mirrors change g mark mark')
    (each : Mirrors change f operand operand') :
    Mirrors change f (marked mark wrap operand) (marked mark' wrap operand') :=
  fun s w changed => Mirrors.markedWithin same sign each (even s w changed) s w changed

protected theorem finish : Mirrors change id finish finish := by
  intro s w changed
  have length := even s w changed
  cases s with
  | nil =>
    rw [List.eq_nil_of_length_eq_zero length] at changed ⊢
    exact .inl ⟨(), [], [], rfl, rfl, changed⟩
  | cons c s =>
    obtain ⟨d, w, rfl⟩ := List.exists_cons_of_length_eq_add_one length
    exact .inr ⟨⟨c :: s, rfl⟩, ⟨d :: w, rfl⟩⟩

end Mirrors

end SqlDialects
