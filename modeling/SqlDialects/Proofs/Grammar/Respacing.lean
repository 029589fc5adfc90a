import SqlDialects.Proofs.Grammar.Keeping

/-
Changes that touch nothing but the gaps of a text. Such a change may put one gap in the place of
another, but it never puts one between two characters of a word, and it never takes one away from
between two words. The queries of a text are the same before and after it.
-/
namespace SqlDialects

open Reader Spelling Change

structure Respacing (change : Change) : Prop where
  gap : ∀ {s w}, change s w → change (skipGaps s) (skipGaps w)
  ended : ∀ {w}, change [] w → afterGap w = none → w = []
  begins : ∀ {s w}, change s w → w.head? = s.head? ∨ ∀ c, w.head? = some c → c ∈ gapMarks
  next : ∀ {c s w}, change (c :: s) w → isSolid c = true → ∃ w', w = c :: w' ∧ change s w'
  sign : ∀ {c s w}, change (c :: s) w → c = '-' ∨ c = '/' → afterGap (c :: s) = none →
    afterGap w = none → ∃ w', w = c :: w' ∧ change s w'
  quoted : ∀ {q body s w}, change (Text.enclose q body ++ s) w → Nesting.isQuote q = true →
    ∃ w', w = Text.enclose q body ++ w' ∧ change s w'

theorem solid_nameCharacter {c : Char} (inside : isNameCharacter c = true) : isSolid c = true := by
  have apart : c ∉ gapMarks := Text.not_mem_of_all inside rfl
  rw [isSolid, ordinary_nameCharacter inside]
  simpa using apart

namespace Respacing

variable {change : Change} (respacing : Respacing change)

include respacing

theorem alike {s w : List Char} (changed : change s w) : BeginsAlike s w := by
  intro c first
  rcases respacing.begins changed with same | marks
  · exact .inl (same ▸ first)
  · exact .inr (.inl (marks c first))

theorem ne {s w : List Char} {c : Char} (changed : change s w) (other : s.head? ≠ some c)
    (solid : c ∉ gapMarks) : w.head? ≠ some c := by
  rcases respacing.begins changed with same | marks
  · rwa [same]
  · exact fun first => solid (marks c first)

theorem word {k s w : List Char} (inside : ∀ c ∈ k, isNameCharacter c = true)
    (changed : change (k ++ s) w) : ∃ w', w = k ++ w' ∧ change s w' := by
  induction k generalizing w with
  | nil => exact ⟨w, rfl, changed⟩
  | cons c k ih =>
    obtain ⟨w', rfl, first⟩ :=
      respacing.next changed (solid_nameCharacter (inside c List.mem_cons_self))
    obtain ⟨w'', rfl, later⟩ := ih (fun d member => inside d (.tail c member)) first
    exact ⟨w'', rfl, later⟩

theorem keeping {words : List String} (capital : ∀ word ∈ words, Capital word) :
    Keeping words Anywhere change where
  gap := respacing.gap
  ended := respacing.ended
  begins := respacing.alike
  mark changed mark := respacing.next changed (Bool.and_eq_true _ _ ▸ mark).1
  sign := respacing.sign
  digits changed inside _ :=
    respacing.word (fun c member => nameCharacter_of_isDigit c (inside c member)) changed
  keyword changed known same _ := respacing.word (fun c member =>
    nameCharacter_of_isAlpha c (capital_letters (capital _ known) same c member)) changed
  plain changed shape _ _ _ := respacing.word shape.inside changed
  bound changed shape _ _ := by
    obtain ⟨w', rfl, first⟩ := respacing.next changed rfl
    obtain ⟨w'', rfl, later⟩ := respacing.word shape.inside first
    exact ⟨w'', rfl, later⟩
  literal changed _ := respacing.quoted changed rfl
  name changed known closed := by
    obtain ⟨w', rfl, later⟩ :=
      respacing.quoted changed (by rcases known with rfl | rfl <;> rfl)
    refine ⟨_, w', known, rfl, respacing.ne later closed ?_, later⟩
    rcases known with rfl | rfl <;> decide

theorem keyword {word : String} (capital : Capital word) :
    change.Carries Anywhere (KeywordText word) Eq := by
  have single : ∀ other ∈ [word], Capital other := by
    intro other member
    rwa [List.mem_singleton.mp member]
  exact (respacing.keeping single).word List.mem_cons_self

theorem symbol {text : String} (solid : text.toList.all isMark = true) :
    change.Carries Anywhere (SymbolText text) Eq :=
  (respacing.keeping (List.forall_mem_nil Capital)).symbol solid

theorem exactly {text : String} (solid : text.toList.all isMark = true) :
    change.Carries Anywhere (ExactText text) Eq :=
  (respacing.keeping (List.forall_mem_nil Capital)).exactly solid

omit respacing in
theorem congruent_eq : Congruent (Eq : Expr → Expr → Prop) where
  leaf _ _ := rfl
  bare _ _ := rfl
  binary _ left right := by rw [left, right]
  group same := by rw [same]
  not same := by rw [same]
  negate same := by rw [same]
  isNull same := by rw [same]
  inList same values := by rw [List.forall₂_eq_eq_eq] at values; rw [same, values]

def allWords : List String := "ILIKE" :: (queryWords ++ pageKeywords)

theorem lawful : change.Lawful Eq Eq := by
  have capital : ∀ word ∈ allWords, word.toList.all Char.isUpper = true := by decide
  have keeping := respacing.keeping capital
  have lexical := keeping.lexical (by decide) fun _ _ => trivial
  exact
    { lexical
      congruent := congruent_eq
      ilike := keeping.ilike congruent_eq (by decide)
      call := fun inner named opened inside _ changed =>
        finds_call lexical rfl (fun same => by rw [List.forall₂_eq_eq_eq] at same; rw [same])
          keeping.part inner named opened inside changed
      page := (keeping.page (by decide)).fewer fun _ _ => trivial }

omit respacing in
theorem like_eq {a b : Select} (alike : a.Like Eq Eq b) : a = b := by
  have optional : ∀ {a b : Option Expr}, Option.Rel Eq a b → a = b := by
    intro a b same
    cases same with
    | some same => rw [same]
    | none => rfl
  have listed : ∀ {β : Type} {r : β → β → Prop} {as bs : List β}, (∀ x y, r x y → x = y) →
      List.Forall₂ r as bs → as = bs := by
    intro β r as bs each same
    have equal := same.imp each
    rwa [List.forall₂_eq_eq_eq] at equal
  obtain ⟨distinct, items, tables, joins, filter, groupBy, having, orderBy, page⟩ := alike
  cases a with
  | mk =>
    cases b with
    | mk =>
      simp only [Select.mk.injEq]
      refine ⟨distinct, listed ?_ items, tables, listed ?_ joins, optional filter,
        listed (fun _ _ same => same) groupBy, optional having, listed ?_ orderBy, page⟩
      · rintro ⟨e, name⟩ ⟨e', name'⟩ ⟨rfl, rfl⟩
        rfl
      · rintro ⟨kind, table, on⟩ ⟨kind', table', on'⟩ ⟨rfl, rfl, same⟩
        have equal : on = on' := optional same
        rw [equal]
      · rintro ⟨e, way⟩ ⟨e', way'⟩ ⟨rfl, rfl⟩
        rfl

theorem query {select : Select} {s w : List Char} (spelled : QueryText select s)
    (changed : change s w) : QueryText select w := by
  obtain ⟨found, spelled', alike⟩ := carries_query respacing.lawful spelled changed
  rwa [like_eq alike]

theorem query_ends {select : Select} {s w : List Char} (spelled : QueryText select s)
    (changed : change s w) : change [] [] :=
  (carries_query_to_end respacing.lawful spelled changed).2

end Respacing

end SqlDialects
