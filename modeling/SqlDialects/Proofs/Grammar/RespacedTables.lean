import SqlDialects.Proofs.Grammar.Mirroring
import SqlDialects.Proofs.Grammar.Progress
import SqlDialects.Proofs.Grammar.Respacing
import SqlDialects.Reader.Table

/-
The head of a table definition in a respaced text. A reader that is put together from keywords,
symbols and names reads the same off two texts that differ in their gaps only.
-/
namespace SqlDialects

open Reader Spelling Change

variable {α β : Type} {change : Change}

def ReadsAgain (change : Change) (r : Reader α) : Prop :=
  ∀ s w a rest, change s w → r s = .ok (a, rest) → ∃ rest', r w = .ok (a, rest') ∧ change rest rest'

structure ReadsAlike (change : Change) (r : Reader α) : Prop where
  there : ReadsAgain change r
  back : ReadsAgain (flip change) r

namespace ReadsAlike

theorem symm {r : Reader α} (alike : ReadsAlike change r) : ReadsAlike (flip change) r :=
  ⟨alike.back, alike.there⟩

theorem fails {r : Reader α} (alike : ReadsAlike change r) {s w : List Char} (changed : change s w)
    (failed : Fails r s) : Fails r w := by
  cases found : r w with
  | error stuck => exact ⟨stuck, found⟩
  | ok result =>
    obtain ⟨rest, read, _⟩ := alike.back w s result.1 result.2 changed found
    exact absurd failed (not_fails_of_ok read)

theorem mirrors {r : Reader α} (alike : ReadsAlike change r) : Mirrors change id r r := by
  intro s w changed
  cases found : r s with
  | error stuck => exact .inr ⟨⟨stuck, found⟩, alike.fails changed ⟨stuck, found⟩⟩
  | ok result =>
    obtain ⟨rest', read, later⟩ := alike.there s w _ _ changed found
    exact .inl ⟨_, _, rest', rfl, read, later⟩

theorem of_mirrors {r : Reader α} (mirrors : Mirrors change id r r) : ReadsAlike change r := by
  constructor
  · intro s w a rest changed read
    rcases mirrors s w changed with ⟨b, after, rest', found, found', later⟩ | ⟨failed, _⟩
    · cases read.symm.trans found
      exact ⟨rest', found', later⟩
    · exact absurd failed (not_fails_of_ok read)
  · intro w s a rest changed read
    rcases mirrors s w changed with ⟨b, after, rest', found, found', later⟩ | ⟨_, failed⟩
    · cases read.symm.trans found'
      exact ⟨after, found, later⟩
    · exact absurd failed (not_fails_of_ok read)

theorem pure (a : α) : ReadsAlike change (pure a : Reader α) := of_mirrors (.pure a)

theorem bind {r : Reader α} {f : α → Reader β} (first : ReadsAlike change r)
    (next : ∀ a, ReadsAlike change (f a)) : ReadsAlike change (r >>= f) :=
  of_mirrors (.bind first.mirrors fun _ a _ _ => (next a).mirrors)

theorem option {r : Reader α} (alike : ReadsAlike change r) : ReadsAlike change (option r) :=
  of_mirrors (Option.map_id ▸ alike.mirrors.option)

theorem orElse {first second : Reader α} (one : ReadsAlike change first)
    (other : ReadsAlike change second) : ReadsAlike change (first <|> second) :=
  of_mirrors (one.mirrors.orElse other.mirrors)

theorem manyWithin {item : Reader α} (alike : ReadsAlike change item)
    (shrinks : ∀ s a rest, item s = .ok (a, rest) → rest.length < s.length)
    {bound bound' s w rest : List Char} {as : List α} (enough : s.length ≤ bound.length)
    (also : w.length ≤ bound'.length) (changed : change s w)
    (read : manyWithin item bound s = .ok (as, rest)) :
    ∃ rest', Reader.manyWithin item bound' w = .ok (as, rest') ∧ change rest rest' := by
  induction bound generalizing bound' s w as with
  | nil =>
    have empty : s = [] := List.eq_nil_of_length_eq_zero (by simpa using enough)
    subst empty
    cases read
    cases bound' with
    | nil => exact ⟨w, rfl, changed⟩
    | cons c bound' =>
      refine ⟨w, whenRead_of_fails (alike.fails changed ?_), changed⟩
      cases found : item [] with
      | error stuck => exact ⟨stuck, found⟩
      | ok result => exact absurd (shrinks [] _ _ found) (by simp)
  | cons c bound ih =>
    rw [Reader.manyWithin] at read
    rcases whenRead_ok read with ⟨a, middle, found, tail⟩ | ⟨failed, done⟩
    · obtain ⟨others, after, more, last⟩ := bind_ok tail
      cases last
      obtain ⟨middle', found', later⟩ := alike.there s w a middle changed found
      have short := shrinks s a middle found
      have short' := shrinks w a middle' found'
      rw [List.length_cons] at enough
      cases bound' with
      | nil => simp only [List.length_nil] at also; omega
      | cons d bound' =>
        rw [List.length_cons] at also
        have enough' : middle'.length ≤ bound'.length := by omega
        obtain ⟨rest', more', last⟩ := ih (by omega) enough' later more
        refine ⟨rest', ?_, last⟩
        rw [Reader.manyWithin, whenRead_of_ok found', bind_of_ok more']
        rfl
    · cases done
      cases bound' with
      | nil => exact ⟨w, rfl, changed⟩
      | cons d bound' => exact ⟨w, whenRead_of_fails (alike.fails changed failed), changed⟩

theorem many {item : Reader α} (alike : ReadsAlike change item)
    (shrinks : ∀ s a rest, item s = .ok (a, rest) → rest.length < s.length) :
    ReadsAlike change (many item) where
  there _ _ _ _ changed read :=
    manyWithin alike shrinks (Nat.le_refl _) (Nat.le_refl _) changed read
  back _ _ _ _ changed read :=
    manyWithin alike.symm shrinks (Nat.le_refl _) (Nat.le_refl _) changed read

end ReadsAlike

theorem readsAgain_of_carried {r : Reader α} {spelling : Spelling α} (sound : Sound r spelling)
    (carried : change.Carries Anywhere spelling Eq)
    (complete : ∀ a t rest, spelling a t rest → r (t ++ rest) = .ok (a, rest)) :
    ReadsAgain change r := by
  intro s w a rest changed read
  obtain ⟨t, rfl, spelled⟩ := sound s a rest read
  obtain ⟨_, t', rest', rfl, spelled', rfl, changed⟩ := carried a t rest w spelled trivial changed
  exact ⟨rest', complete a t' rest' spelled', changed⟩

section Heads

variable (there : Respacing change) (back : Respacing (flip change))

include there back

theorem keyword_alike (word : String) (capital : Capital word) :
    ReadsAlike change (keyword word) where
  there := readsAgain_of_carried (sound_keyword word capital) (there.keyword capital)
    fun _ _ _ spelled => keyword_complete spelled capital
  back := readsAgain_of_carried (sound_keyword word capital) (back.keyword capital)
    fun _ _ _ spelled => keyword_complete spelled capital

theorem symbol_alike {text : String} (solid : text.toList.all isMark = true) :
    ReadsAlike change (symbol text) where
  there := readsAgain_of_carried (sound_symbol text) (there.symbol solid)
    fun _ _ _ spelled => symbol_complete spelled
  back := readsAgain_of_carried (sound_symbol text) (back.symbol solid)
    fun _ _ _ spelled => symbol_complete spelled

theorem exactly_alike {text : String} (solid : text.toList.all isMark = true) :
    ReadsAlike change (exactly text) where
  there := readsAgain_of_carried (sound_exactly text) (there.exactly solid)
    fun _ _ rest spelled => by subst spelled; exact exactly_append text rest
  back := readsAgain_of_carried (sound_exactly text) (back.exactly solid)
    fun _ _ rest spelled => by subst spelled; exact exactly_append text rest

theorem gaps_alike : ReadsAlike change gaps where
  there s w _ _ changed read := by
    cases read
    exact ⟨skipGaps w, rfl, there.gap changed⟩
  back s w _ _ changed read := by
    cases read
    exact ⟨skipGaps w, rfl, back.gap changed⟩

theorem quoted_alike {quote : Char} (known : Nesting.isQuote quote = true) :
    ReadsAlike change (quoted quote) := by
  have apart : quote ∉ gapMarks := Text.not_mem_of_all known rfl
  have again : ∀ {change : Change}, Respacing change →
      ReadsAgain change (quoted quote) := by
    intro change respacing s w name rest changed read
    obtain ⟨body, rfl, rfl, closed⟩ := quoted_sound quote s rest name read
    obtain ⟨rest', rfl, later⟩ := respacing.quoted changed known
    exact ⟨rest', quoted_complete quote body rest' (respacing.ne later closed apart), later⟩
  exact ⟨again there, again back⟩

theorem plainName_alike : ReadsAlike change plainName := by
  have again : ∀ {change : Change}, Respacing change →
      ReadsAgain change plainName := by
    intro change respacing s w name rest changed read
    obtain ⟨word, rfl, rfl, shape, free, ended⟩ := plainName_sound read
    obtain ⟨rest', rfl, later⟩ := respacing.word shape.inside changed
    exact ⟨rest', plainName_complete shape free ((respacing.alike later).endsWord ended), later⟩
  exact ⟨again there, again back⟩

theorem namePart_alike : ReadsAlike change namePart :=
  (quoted_alike there back rfl).orElse
    ((quoted_alike there back rfl).orElse (plainName_alike there back))

theorem path_alike : ReadsAlike change path := by
  have part := namePart_alike there back
  have behind : ReadsAlike change (do exactly "."; namePart) :=
    (exactly_alike there back (by decide)).bind fun _ => part
  refine (gaps_alike there back).bind fun _ => part.bind fun first =>
    (behind.many ?_).bind fun others => .pure (first :: others)
  intro s name rest read
  obtain ⟨_, middle, dot, found⟩ := bind_ok read
  obtain ⟨t, rfl⟩ := Alike.leaves (fun _ => advances_namePart) found
  rw [exactly_ok.mp dot]
  simp

theorem tableHead_alike : ReadsAlike change tableHead := by
  have word := keyword_alike there back
  refine (word "CREATE" rfl).bind fun _ => ReadsAlike.bind (.option
    ((word "GLOBAL" rfl).bind fun _ => word "TEMPORARY" rfl)) fun _ => ?_
  refine (word "TABLE" rfl).bind fun _ => ReadsAlike.bind (.option ((word "IF" rfl).bind fun _ =>
    (word "NOT" rfl).bind fun _ => word "EXISTS" rfl)) fun _ => ?_
  exact (path_alike there back).bind fun _ => (symbol_alike there back (by decide)).bind fun _ =>
    .pure _

end Heads

end SqlDialects
