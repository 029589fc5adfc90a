import Mathlib
import SqlDialects.Reader.Basic

/-
The written form of values, apart from any reader. A spelling relates a value to a text that
stands for it and to the text that follows, since what follows decides where a word or a number
ends. A reader is sound for a spelling if whatever it reads was spelled so, and complete if it
reads whatever is spelled so, as long as what follows cannot be taken for more of it.
-/
namespace SqlDialects

abbrev Spelling (α : Type) : Type := α → List Char → List Char → Prop

namespace Spelling

variable {α β : Type}

inductive Maybe (part : Spelling α) : Option α → List Char → List Char → Prop
  | missing (rest : List Char) : Maybe part none [] rest
  | there {a : α} {t rest : List Char} (h : part a t rest) : Maybe part (some a) t rest

inductive Present (part : Spelling α) : Bool → List Char → List Char → Prop
  | missing (rest : List Char) : Present part false [] rest
  | there {a : α} {t rest : List Char} (h : part a t rest) : Present part true t rest

inductive Many (item : Spelling α) : List α → List Char → List Char → Prop
  | none (rest : List Char) : Many item [] [] rest
  | more {a : α} {as : List α} {t u rest : List Char} (head : item a t (u ++ rest))
      (tail : Many item as u rest) : Many item (a :: as) (t ++ u) rest

inductive Separated (separator : Spelling β) (item : Spelling α) :
    List α → List Char → List Char → Prop
  | one {a : α} {t rest : List Char} (h : item a t rest) : Separated separator item [a] t rest
  | more {a : α} {b : β} {as : List α} {t mark u rest : List Char}
      (head : item a t (mark ++ (u ++ rest))) (between : separator b mark (u ++ rest))
      (tail : Separated separator item as u rest) :
      Separated separator item (a :: as) (t ++ (mark ++ u)) rest

def Behind (separator : Spelling β) (item : Spelling α) : Spelling α :=
  fun a t rest => ∃ b mark v, t = mark ++ v ∧ separator b mark (v ++ rest) ∧ item a v rest

inductive ChainFrom (combine : α → β → α → α) (operand : Spelling α) (operator : Spelling β) :
    α → α → List Char → List Char → Prop
  | stop (left : α) (rest : List Char) : ChainFrom combine operand operator left left [] rest
  | more {left right result : α} {op : β} {o t u rest : List Char}
      (mark : operator op o (t ++ (u ++ rest))) (next : operand right t (u ++ rest))
      (tail : ChainFrom combine operand operator (combine left op right) result u rest) :
      ChainFrom combine operand operator left result (o ++ (t ++ u)) rest

inductive Chained (combine : α → β → α → α) (operand : Spelling α) (operator : Spelling β) :
    α → List Char → List Char → Prop
  | mk {first result : α} {t u rest : List Char} (head : operand first t (u ++ rest))
      (tail : ChainFrom combine operand operator first result u rest) :
      Chained combine operand operator result (t ++ u) rest

theorem chained_one {combine : α → β → α → α} {operand : Spelling α} {operator : Spelling β} {a : α}
    {t rest : List Char} (spelled : operand a t rest) :
    Chained combine operand operator a t rest := by
  simpa using Chained.mk (u := []) spelled (.stop a rest)

theorem chained_snoc {combine : α → β → α → α} {operand : Spelling α} {operator : Spelling β}
    {a b : α} {op : β} {t o u rest : List Char}
    (left : Chained combine operand operator a t (o ++ (u ++ rest)))
    (mark : operator op o (u ++ rest)) (right : operand b u rest) :
    Chained combine operand operator (combine a op b) (t ++ (o ++ u)) rest := by
  obtain ⟨head, tail⟩ := left
  next first t v =>
  have longer : ∀ {a c : α} {v s : List Char}, ChainFrom combine operand operator a c v s →
      s = o ++ (u ++ rest) →
      ChainFrom combine operand operator a (combine c op b) (v ++ (o ++ u)) rest := by
    intro a c v s tail
    induction tail with
    | stop left rest' =>
      rintro rfl
      simpa using ChainFrom.more mark right (.stop _ rest)
    | more sign next _ ih =>
      rintro rfl
      have more := ih rfl
      simp only [List.append_assoc] at more ⊢
      exact .more (by simpa using sign) (by simpa using next) more
  have whole := longer tail rfl
  rw [List.append_assoc]
  exact .mk (by simpa using head) whole

inductive Marked (mark : Spelling β) (wrap : α → α) (operand : Spelling α) :
    α → List Char → List Char → Prop
  | bare {a : α} {t rest : List Char} (h : operand a t rest) : Marked mark wrap operand a t rest
  | behind {a : α} {b : β} {m t rest : List Char} (sign : mark b m (t ++ rest))
      (inner : Marked mark wrap operand a t rest) :
      Marked mark wrap operand (wrap a) (m ++ t) rest

end Spelling

namespace Reader

variable {α β : Type}

def Fails (r : Reader α) (s : List Char) : Prop := ∃ stuck, r s = .error stuck

def Sound (r : Reader α) (spelling : Spelling α) : Prop :=
  ∀ s a rest, r s = .ok (a, rest) → ∃ t, s = t ++ rest ∧ spelling a t rest

def Complete (r : Reader α) (spelling : Spelling α) (size : Nat) (ends : List Char → Prop) :
    Prop :=
  ∀ a t rest, t.length ≤ size → spelling a t rest → ends rest → r (t ++ rest) = .ok (a, rest)

theorem not_fails_of_ok {r : Reader α} {s rest : List Char} {a : α} (read : r s = .ok (a, rest)) :
    ¬ Fails r s := by
  rintro ⟨stuck, failed⟩
  rw [read] at failed
  cases failed

/-! What each way of putting readers together does on success and on failure. -/

theorem pure_apply (a : α) (s : List Char) : (pure a : Reader α) s = .ok (a, s) := rfl

theorem bind_of_ok {r : Reader α} {f : α → Reader β} {s rest : List Char} {a : α}
    (read : r s = .ok (a, rest)) : (r >>= f) s = f a rest := by
  simp [bind, Reader.bind, read]

theorem bind_fails {r : Reader α} {f : α → Reader β} {s : List Char} (failed : Fails r s) :
    Fails (r >>= f) s := by
  obtain ⟨stuck, failed⟩ := failed
  exact ⟨stuck, by simp [bind, Reader.bind, failed]⟩

theorem bind_ok {r : Reader α} {f : α → Reader β} {s rest : List Char} {b : β}
    (read : (r >>= f) s = .ok (b, rest)) :
    ∃ a middle, r s = .ok (a, middle) ∧ f a middle = .ok (b, rest) := by
  simp only [bind, Reader.bind] at read
  split at read
  · next a middle first => exact ⟨a, middle, first, read⟩
  · cases read

theorem orElse_of_ok {first second : Reader α} {s rest : List Char} {a : α}
    (read : first s = .ok (a, rest)) : (first <|> second) s = .ok (a, rest) := by
  simp [HOrElse.hOrElse, OrElse.orElse, Reader.orElse, read]

theorem orElse_of_fails {first second : Reader α} {s : List Char} (failed : Fails first s) :
    (first <|> second) s = second s := by
  obtain ⟨stuck, failed⟩ := failed
  simp [HOrElse.hOrElse, OrElse.orElse, Reader.orElse, failed]

theorem orElse_ok {first second : Reader α} {s rest : List Char} {a : α}
    (read : (first <|> second) s = .ok (a, rest)) :
    first s = .ok (a, rest) ∨ (Fails first s ∧ second s = .ok (a, rest)) := by
  simp only [HOrElse.hOrElse, OrElse.orElse, Reader.orElse] at read
  split at read
  · next result found => exact .inl (found.trans read)
  · next stuck failed => exact .inr ⟨⟨stuck, failed⟩, read⟩

theorem option_of_ok {r : Reader α} {s rest : List Char} {a : α} (read : r s = .ok (a, rest)) :
    option r s = .ok (some a, rest) := by
  simp [option, read]

theorem option_of_fails {r : Reader α} {s : List Char} (failed : Fails r s) :
    option r s = .ok (none, s) := by
  obtain ⟨stuck, failed⟩ := failed
  simp [option, failed]

theorem option_some {r : Reader α} {s rest : List Char} {a : α}
    (read : option r s = .ok (some a, rest)) : r s = .ok (a, rest) := by
  cases found : r s with
  | error stuck =>
    rw [option_of_fails ⟨stuck, found⟩] at read
    cases read
  | ok result =>
    rw [option_of_ok found] at read
    cases read
    rfl

theorem present_of_ok {r : Reader α} {s rest : List Char} {a : α} (read : r s = .ok (a, rest)) :
    present r s = .ok (true, rest) := by
  simp [present, read]

theorem present_of_fails {r : Reader α} {s : List Char} (failed : Fails r s) :
    present r s = .ok (false, s) := by
  obtain ⟨stuck, failed⟩ := failed
  simp [present, failed]

theorem whenRead_of_ok {mark : Reader α} {yes : α → Reader β} {no : Reader β} {s rest : List Char}
    {a : α} (read : mark s = .ok (a, rest)) : whenRead mark yes no s = yes a rest := by
  simp [whenRead, read]

theorem whenRead_of_fails {mark : Reader α} {yes : α → Reader β} {no : Reader β} {s : List Char}
    (failed : Fails mark s) : whenRead mark yes no s = no s := by
  obtain ⟨stuck, failed⟩ := failed
  simp [whenRead, failed]

theorem whenRead_ok {mark : Reader α} {yes : α → Reader β} {no : Reader β} {s rest : List Char}
    {b : β} (read : whenRead mark yes no s = .ok (b, rest)) :
    (∃ a middle, mark s = .ok (a, middle) ∧ yes a middle = .ok (b, rest))
      ∨ (Fails mark s ∧ no s = .ok (b, rest)) := by
  simp only [whenRead] at read
  split at read
  · next a middle found => exact .inl ⟨a, middle, found, read⟩
  · next stuck failed => exact .inr ⟨⟨stuck, failed⟩, read⟩

/-! Every choice goes on after a mark or where it is missing. -/

theorem orElse_eq_whenRead (first second : Reader α) :
    (first <|> second) = whenRead first pure second := by
  funext s
  simp only [HOrElse.hOrElse, OrElse.orElse, Reader.orElse, whenRead]
  cases first s <;> rfl

theorem option_eq_whenRead (part : Reader α) :
    option part = whenRead part (fun a => pure (some a)) (pure none) := by
  funext s
  simp only [option, whenRead]
  cases part s <;> rfl

theorem present_eq_whenRead (part : Reader α) :
    present part = whenRead part (fun _ => pure true) (pure false) := by
  funext s
  simp only [present, whenRead]
  cases part s <;> rfl

/-! Soundness of the repetitions, by induction on the characters that bound them. -/

theorem sound_option {r : Reader α} {part : Spelling α} (sound : Sound r part) :
    Sound (option r) (Spelling.Maybe part) := by
  intro s a rest read
  simp only [option] at read
  split at read
  · next b middle found =>
    cases read
    obtain ⟨t, rfl, spelled⟩ := sound s b _ found
    exact ⟨t, rfl, .there spelled⟩
  · cases read
    exact ⟨[], rfl, .missing _⟩

theorem sound_present {r : Reader α} {part : Spelling α} (sound : Sound r part) :
    Sound (present r) (Spelling.Present part) := by
  intro s a rest read
  simp only [present] at read
  split at read
  · next b middle found =>
    cases read
    obtain ⟨t, rfl, spelled⟩ := sound s b _ found
    exact ⟨t, rfl, .there spelled⟩
  · cases read
    exact ⟨[], rfl, .missing _⟩

theorem sound_manyWithin {r : Reader α} {item : Spelling α} (sound : Sound r item)
    (bound : List Char) : Sound (manyWithin r bound) (Spelling.Many item) := by
  induction bound with
  | nil =>
    intro s as rest read
    cases read
    exact ⟨[], rfl, .none _⟩
  | cons c bound ih =>
    intro s as rest read
    rcases whenRead_ok read with ⟨a, middle, found, tail⟩ | ⟨_, done⟩
    · obtain ⟨as, after, others, last⟩ := bind_ok tail
      cases last
      obtain ⟨t, rfl, head⟩ := sound s a middle found
      obtain ⟨u, rfl, more⟩ := ih middle as rest others
      exact ⟨t ++ u, by simp, .more head more⟩
    · cases done
      exact ⟨[], rfl, .none _⟩

theorem sound_many {r : Reader α} {item : Spelling α} (sound : Sound r item) :
    Sound (many r) (Spelling.Many item) :=
  fun s => sound_manyWithin sound s s

theorem separated_of_many {separator : Spelling β} {item : Spelling α} {a : α} {as : List α}
    {t u rest : List Char} (head : item a t (u ++ rest))
    (tail : Spelling.Many (Spelling.Behind separator item) as u rest) :
    Spelling.Separated separator item (a :: as) (t ++ u) rest := by
  induction tail generalizing a t with
  | none rest => simpa using Spelling.Separated.one (by simpa using head)
  | more next others ih =>
    obtain ⟨b, mark, v, rfl, between, spelled⟩ := next
    rw [List.append_assoc mark v]
    exact .more (by simpa using head) (by simpa using between) (ih spelled)

theorem many_of_separated {separator : Spelling β} {item : Spelling α} {as : List α}
    {text rest : List Char} (spelled : Spelling.Separated separator item as text rest) :
    ∃ a others t u, as = a :: others ∧ text = t ++ u ∧ item a t (u ++ rest)
      ∧ Spelling.Many (Spelling.Behind separator item) others u rest := by
  induction spelled with
  | @one a t rest h => exact ⟨a, [], t, [], rfl, by simp, by simpa using h, .none rest⟩
  | @more a b as t mark u rest head between tail ih =>
    obtain ⟨a', others, t', u', rfl, rfl, next, many⟩ := ih
    refine ⟨a, a' :: others, t, (mark ++ t') ++ u', rfl, by simp, by simpa using head, ?_⟩
    exact .more ⟨b, mark, t', rfl, by simpa using between, next⟩ many

theorem sound_behind {mark : Reader β} {r : Reader α} {sign : Spelling β} {part : Spelling α}
    (soundMark : Sound mark sign) (sound : Sound r part) :
    Sound (do let _ ← mark; r) (Spelling.Behind sign part) := by
  intro s a rest read
  obtain ⟨b, middle, found, next⟩ := bind_ok read
  obtain ⟨m, rfl, between⟩ := soundMark s b middle found
  obtain ⟨v, rfl, spelled⟩ := sound middle a rest next
  exact ⟨m ++ v, by simp, b, m, v, rfl, between, spelled⟩

theorem sound_separatedBy {separator : Reader β} {r : Reader α} {mark : Spelling β}
    {item : Spelling α} (soundMark : Sound separator mark) (sound : Sound r item) :
    Sound (separatedBy separator r) (Spelling.Separated mark item) := by
  intro s as rest read
  obtain ⟨a, middle, first, more⟩ := bind_ok read
  obtain ⟨others, after, found, last⟩ := bind_ok more
  cases last
  obtain ⟨t, rfl, head⟩ := sound s a middle first
  obtain ⟨u, rfl, tail⟩ := sound_many (sound_behind soundMark sound) middle others rest found
  exact ⟨t ++ u, by simp, separated_of_many head tail⟩

section Chains

variable {combine : α → β → α → α} {operand : Reader α} {operator : Reader β}
variable {part : Spelling α} {mark : Spelling β}

theorem sound_chainWithin (soundOperand : Sound operand part) (soundOperator : Sound operator mark)
    (bound : List Char) (left : α) :
    Sound (chainWithin combine operand operator bound left)
      (Spelling.ChainFrom combine part mark left) := by
  induction bound generalizing left with
  | nil =>
    intro s result rest read
    cases read
    exact ⟨[], rfl, .stop left _⟩
  | cons c bound ih =>
    intro s result rest read
    rcases whenRead_ok read with ⟨op, middle, found, tail⟩ | ⟨_, done⟩
    · obtain ⟨right, after, next, others⟩ := bind_ok tail
      obtain ⟨o, rfl, sign⟩ := soundOperator s op middle found
      obtain ⟨t, rfl, spelled⟩ := soundOperand middle right after next
      obtain ⟨u, rfl, more⟩ := ih _ after result rest others
      exact ⟨o ++ (t ++ u), by simp, .more sign spelled more⟩
    · cases done
      exact ⟨[], rfl, .stop left _⟩

theorem sound_chain (soundOperand : Sound operand part) (soundOperator : Sound operator mark) :
    Sound (chain combine operand operator) (Spelling.Chained combine part mark) := by
  intro s result rest read
  obtain ⟨first, middle, found, tail⟩ := bind_ok read
  obtain ⟨t, rfl, head⟩ := soundOperand s first middle found
  obtain ⟨u, rfl, more⟩ := sound_chainWithin soundOperand soundOperator middle first middle
    result rest tail
  exact ⟨t ++ u, by simp, .mk head more⟩

end Chains

theorem sound_markedWithin {mark : Reader β} {wrap : α → α} {operand : Reader α}
    {sign : Spelling β} {part : Spelling α} (soundMark : Sound mark sign)
    (soundOperand : Sound operand part) (bound : List Char) :
    Sound (markedWithin mark wrap operand bound) (Spelling.Marked sign wrap part) := by
  induction bound with
  | nil =>
    intro s a rest read
    obtain ⟨t, rfl, spelled⟩ := soundOperand s a rest read
    exact ⟨t, rfl, .bare spelled⟩
  | cons c bound ih =>
    intro s a rest read
    rcases whenRead_ok read with ⟨b, middle, found, tail⟩ | ⟨_, done⟩
    · obtain ⟨inner, after, others, last⟩ := bind_ok tail
      cases last
      obtain ⟨m, rfl, signed⟩ := soundMark s b middle found
      obtain ⟨t, rfl, spelled⟩ := ih middle inner rest others
      exact ⟨m ++ t, by simp, .behind signed spelled⟩
    · obtain ⟨t, rfl, spelled⟩ := soundOperand s a rest done
      exact ⟨t, rfl, .bare spelled⟩

theorem sound_marked {mark : Reader β} {wrap : α → α} {operand : Reader α} {sign : Spelling β}
    {part : Spelling α} (soundMark : Sound mark sign) (soundOperand : Sound operand part) :
    Sound (marked mark wrap operand) (Spelling.Marked sign wrap part) :=
  fun s => sound_markedWithin soundMark soundOperand s s

/-! Completeness of the repetitions. A repetition goes on in front of each further part and stops
in front of what ends it; since every part has characters, the bound is never reached. -/

section Completeness

variable {r : Reader α} {item : Spelling α} {size : Nat} {ends stop : List Char → Prop}

theorem maybe_complete {a : Option α} {t rest : List Char}
    (complete : ∀ a t rest, item a t rest → r (t ++ rest) = .ok (a, rest))
    (spelled : Spelling.Maybe item a t rest) (fails : Fails r rest) :
    option r (t ++ rest) = .ok (a, rest) := by
  cases spelled with
  | missing => exact option_of_fails fails
  | there h => exact option_of_ok (complete _ t rest h)

theorem present_complete {found : Bool} {t rest : List Char}
    (complete : ∀ a t rest, item a t rest → r (t ++ rest) = .ok (a, rest))
    (spelled : Spelling.Present item found t rest) (fails : found = false → Fails r rest) :
    present r (t ++ rest) = .ok (found, rest) := by
  cases spelled with
  | missing => exact present_of_fails (fails rfl)
  | there h => exact present_of_ok (complete _ t rest h)

theorem many_front {as : List α} {t rest : List Char} (spelled : Spelling.Many item as t rest)
    (follows : ∀ a t rest, item a t rest → ends (t ++ rest)) (last : ends rest) :
    ends (t ++ rest) := by
  cases spelled with
  | none => exact last
  | more head tail =>
    rw [List.append_assoc]
    exact follows _ _ _ head

theorem complete_manyWithin (complete : Complete r item size ends)
    (follows : ∀ a t rest, item a t rest → ends (t ++ rest))
    (last : ∀ rest, stop rest → ends rest) (fails : ∀ rest, stop rest → Fails r rest)
    (nonempty : ∀ a t rest, item a t rest → t ≠ []) {as : List α} {t rest : List Char}
    (spelled : Spelling.Many item as t rest) (small : t.length ≤ size) (ended : stop rest)
    (bound : List Char) (enough : t.length ≤ bound.length) :
    manyWithin r bound (t ++ rest) = .ok (as, rest) := by
  induction spelled generalizing bound with
  | none rest =>
    cases bound with
    | nil => rfl
    | cons c bound => exact whenRead_of_fails (fails rest ended)
  | @more a as t u rest head tail ih =>
    have long : 0 < t.length := List.length_pos_iff.mpr (nonempty _ _ _ head)
    rw [List.length_append] at small enough
    cases bound with
    | nil => simp only [List.length_nil] at enough; omega
    | cons c bound =>
      rw [List.length_cons] at enough
      have first := complete a t (u ++ rest) (by omega) head
        (many_front tail follows (last rest ended))
      rw [List.append_assoc, manyWithin, whenRead_of_ok first,
        bind_of_ok (ih (by omega) ended bound (by omega))]
      rfl

theorem complete_many (complete : Complete r item size ends)
    (follows : ∀ a t rest, item a t rest → ends (t ++ rest))
    (last : ∀ rest, stop rest → ends rest) (fails : ∀ rest, stop rest → Fails r rest)
    (nonempty : ∀ a t rest, item a t rest → t ≠ []) :
    Complete (many r) (Spelling.Many item) size stop := by
  intro as t rest small spelled ended
  exact complete_manyWithin complete follows last fails nonempty spelled small ended (t ++ rest)
    (by simp)

theorem complete_separatedBy {separator : Reader β} {mark : Spelling β}
    (completeMark : ∀ b m rest, mark b m rest → separator (m ++ rest) = .ok (b, rest))
    (complete : Complete r item size ends)
    (follows : ∀ b m rest, mark b m rest → ends (m ++ rest))
    (last : ∀ rest, stop rest → ends rest)
    (fails : ∀ rest, stop rest → Fails (do let _ ← separator; r) rest)
    (nonempty : ∀ b m rest, mark b m rest → m ≠ []) :
    Complete (separatedBy separator r) (Spelling.Separated mark item) size stop := by
  intro as text rest small spelled ended
  obtain ⟨a, others, t, u, rfl, rfl, head, tail⟩ := many_of_separated spelled
  rw [List.length_append] at small
  have behind : Complete (do let _ ← separator; r) (Spelling.Behind mark item) size ends := by
    rintro a t rest small ⟨b, m, v, rfl, between, spelled⟩ ended
    rw [List.length_append] at small
    rw [List.append_assoc, bind_of_ok (completeMark b m _ between)]
    exact complete a v rest (by omega) spelled ended
  have front : ∀ a t rest, Spelling.Behind mark item a t rest → ends (t ++ rest) := by
    rintro a t rest ⟨b, m, v, rfl, between, _⟩
    rw [List.append_assoc]
    exact follows b m _ between
  have first := complete a t (u ++ rest) (by omega) head (many_front tail front (last rest ended))
  have more := complete_many behind front last fails
    (by rintro a t rest ⟨b, m, v, rfl, between, _⟩ none
        exact nonempty b m _ between (List.append_eq_nil_iff.mp none).1)
    others u rest (by omega) tail ended
  rw [List.append_assoc, separatedBy, bind_of_ok first, bind_of_ok more]
  rfl

section Chains

variable {combine : α → β → α → α} {operator : Reader β} {mark : Spelling β}

theorem chain_front {left result : α} {t rest : List Char}
    (spelled : Spelling.ChainFrom combine item mark left result t rest)
    (follows : ∀ b o rest, mark b o rest → ends (o ++ rest)) (last : ends rest) :
    ends (t ++ rest) := by
  cases spelled with
  | stop => exact last
  | more sign next tail =>
    rw [List.append_assoc, List.append_assoc]
    exact follows _ _ _ sign

theorem complete_chainWithin
    (completeMark : ∀ b o rest, mark b o rest → operator (o ++ rest) = .ok (b, rest))
    (complete : Complete r item size ends)
    (follows : ∀ b o rest, mark b o rest → ends (o ++ rest))
    (last : ∀ rest, stop rest → ends rest) (fails : ∀ rest, stop rest → Fails operator rest)
    (nonempty : ∀ b o rest, mark b o rest → o ≠ []) {left result : α} {t rest : List Char}
    (spelled : Spelling.ChainFrom combine item mark left result t rest) (small : t.length ≤ size)
    (ended : stop rest) (bound : List Char) (enough : t.length ≤ bound.length) :
    chainWithin combine r operator bound left (t ++ rest) = .ok (result, rest) := by
  induction spelled generalizing bound with
  | stop left rest =>
    cases bound with
    | nil => rfl
    | cons c bound => exact whenRead_of_fails (fails rest ended)
  | @more left right result op o t u rest sign next tail ih =>
    have long : 0 < o.length := List.length_pos_iff.mpr (nonempty _ _ _ sign)
    rw [List.length_append, List.length_append] at small enough
    cases bound with
    | nil => simp only [List.length_nil] at enough; omega
    | cons c bound =>
      rw [List.length_cons] at enough
      have operandRead := complete right t (u ++ rest) (by omega) next
        (chain_front tail follows (last rest ended))
      rw [List.append_assoc, List.append_assoc, chainWithin,
        whenRead_of_ok (completeMark op o _ sign), bind_of_ok operandRead]
      exact ih (by omega) ended bound (by omega)

theorem complete_chain
    (completeMark : ∀ b o rest, mark b o rest → operator (o ++ rest) = .ok (b, rest))
    (complete : Complete r item size ends)
    (follows : ∀ b o rest, mark b o rest → ends (o ++ rest))
    (last : ∀ rest, stop rest → ends rest) (fails : ∀ rest, stop rest → Fails operator rest)
    (nonempty : ∀ b o rest, mark b o rest → o ≠ []) :
    Complete (chain combine r operator) (Spelling.Chained combine item mark) size stop := by
  intro result text rest small spelled ended
  cases spelled with
  | @mk first _ t u _ head tail =>
    rw [List.length_append] at small
    have begun := complete first t (u ++ rest) (by omega) head
      (chain_front tail follows (last rest ended))
    rw [List.append_assoc, chain]
    refine (bind_of_ok begun).trans ?_
    exact complete_chainWithin completeMark complete follows last fails nonempty tail (by omega)
      ended (u ++ rest) (by simp)

end Chains

theorem complete_marked {sign : Reader β} {mark : Spelling β} {wrap : α → α}
    (completeMark : ∀ b m rest, mark b m rest → sign (m ++ rest) = .ok (b, rest))
    (complete : Complete r item size ends)
    (fails : ∀ a t rest, item a t rest → Fails sign (t ++ rest))
    (nonempty : ∀ b m rest, mark b m rest → m ≠ []) :
    Complete (marked sign wrap r) (Spelling.Marked mark wrap item) size ends := by
  intro a t rest small spelled ended
  have within : ∀ bound : List Char, t.length ≤ bound.length →
      markedWithin sign wrap r bound (t ++ rest) = .ok (a, rest) := by
    induction spelled with
    | @bare a t rest h =>
      intro bound _
      have read := complete a t rest small h ended
      cases bound with
      | nil => exact read
      | cons c bound => rw [markedWithin, whenRead_of_fails (fails a t rest h)]; exact read
    | @behind a b m t rest signed inner ih =>
      intro bound enough
      have long : 0 < m.length := List.length_pos_iff.mpr (nonempty _ _ _ signed)
      rw [List.length_append] at small enough
      cases bound with
      | nil => simp only [List.length_nil] at enough; omega
      | cons c bound =>
        rw [List.length_cons] at enough
        rw [List.append_assoc, markedWithin, whenRead_of_ok (completeMark b m _ signed),
          bind_of_ok (ih (by omega) ended bound (by omega))]
        rfl
  exact within (t ++ rest) (by simp)

end Completeness

end Reader

end SqlDialects
