import SqlDialects.Conversion.Names
import SqlDialects.Proofs.Canonical.Spelled

/-
Requoting, one lexeme after the other: what is neither a quote nor an apostrophe is copied, and a
name in the source's quotes gets the target's, whatever characters it has. A dotted name in
backquotes is therefore read as the name it was.
-/
namespace SqlDialects

namespace Text

variable {source target : Char}

/-! One character at a time, in code and in a name. -/

theorem requoteFrom_nil : requoteFrom source target .code [] = ([], 0) := rfl

theorem requoteFrom_code_cons (c : Char) (rest : List Char) :
    requoteFrom source target .code (c :: rest) =
      if c = '\x27' then
        (c :: (requoteFrom source target .literal rest).1,
          (requoteFrom source target .literal rest).2)
      else if c = source then requoteFrom source target (.name []) rest
      else
        (c :: (requoteFrom source target .code rest).1, (requoteFrom source target .code rest).2) :=
  rfl

theorem requoteFrom_name_last (read : List Char) :
    requoteFrom source target (.name read) [source] = (enclose target read, 1) :=
  if_pos rfl

theorem requoteFrom_name_doubled (read rest : List Char) :
    requoteFrom source target (.name read) (source :: source :: rest)
      = requoteFrom source target (.name (read ++ [source])) rest :=
  (if_pos rfl).trans (if_pos rfl)

theorem requoteFrom_name_closed {d : Char} (other : d ≠ source) (read rest : List Char) :
    requoteFrom source target (.name read) (source :: d :: rest)
      = (enclose target read ++ (requoteFrom source target .code (d :: rest)).1,
        (requoteFrom source target .code (d :: rest)).2 + 1) :=
  (if_pos rfl).trans (if_neg other)

theorem requoteFrom_name_more {c : Char} (other : c ≠ source) (read rest : List Char) :
    requoteFrom source target (.name read) (c :: rest)
      = requoteFrom source target (.name (read ++ [c])) rest := by
  cases rest <;> exact if_neg other

theorem requoteFrom_plain {w : List Char} (plain : ∀ c ∈ w, c ≠ '\x27' ∧ c ≠ source)
    (rest : List Char) :
    requoteFrom source target .code (w ++ rest)
      = (w ++ (requoteFrom source target .code rest).1, (requoteFrom source target .code rest).2) := by
  induction w with
  | nil => rfl
  | cons c w ih =>
    have others := plain c (by simp)
    simp [requoteFrom_code_cons, others, ih fun d member => plain d (by simp [member])]

theorem requoteFrom_name (read body : List Char) {rest : List Char}
    (closed : rest.head? ≠ some source) :
    requoteFrom source target (.name read) (double source body ++ source :: rest)
      = (enclose target (read ++ body) ++ (requoteFrom source target .code rest).1,
        (requoteFrom source target .code rest).2 + 1) := by
  induction body generalizing read with
  | nil =>
    cases rest with
    | nil => simp [double, requoteFrom_name_last, requoteFrom_nil]
    | cons d rest =>
      have other : d ≠ source := by simpa using closed
      simp [double, requoteFrom_name_closed other]
  | cons c body ih =>
    by_cases same : c = source
    · simp [double, same, requoteFrom_name_doubled, ih]
    · rw [double, if_neg same, List.cons_append, requoteFrom_name_more same, ih]
      simp

theorem requoteFrom_enclosed (other : source ≠ '\x27') (body : List Char) {rest : List Char}
    (closed : rest.head? ≠ some source) :
    requoteFrom source target .code (enclose source body ++ rest)
      = (enclose target body ++ (requoteFrom source target .code rest).1,
        (requoteFrom source target .code rest).2 + 1) := by
  have named := @requoteFrom_name _ target [] body _ closed
  simpa [enclose, requoteFrom_code_cons, other] using named

theorem requoteFrom_name_head (read : List Char) : (s : List Char) →
    ∃ d w, (requoteFrom source target (.name read) s).1 = d :: w ∧ (d = source ∨ d = target)
  | [] => ⟨source, read, rfl, .inl rfl⟩
  | [c] => by
    by_cases same : c = source
    · rw [same, requoteFrom_name_last]
      exact ⟨target, _, rfl, .inr rfl⟩
    · rw [requoteFrom_name_more same]
      exact ⟨source, _, rfl, .inl rfl⟩
  | c :: d :: s => by
    by_cases same : c = source
    · by_cases doubled : d = source
      · rw [same, doubled, requoteFrom_name_doubled]
        exact requoteFrom_name_head _ s
      · rw [same, requoteFrom_name_closed doubled]
        exact ⟨target, _, rfl, .inr rfl⟩
    · rw [requoteFrom_name_more same]
      exact requoteFrom_name_head _ (d :: s)

theorem requoteFrom_absent {s : List Char} (unquoted : source ∉ s) :
    requoteFrom source target .code s = (s, 0) ∧ requoteFrom source target .literal s = (s, 0) := by
  induction s with
  | nil => exact ⟨rfl, rfl⟩
  | cons c s ih =>
    obtain ⟨code, literal⟩ := ih fun member => unquoted (.tail c member)
    have other : c ≠ source := fun same => unquoted (by rw [same]; exact List.mem_cons_self)
    by_cases quote : c = '\x27' <;> simp [requoteFrom, quote, other, code, literal]

theorem requoteFrom_unquoted (s : List Char)
    (plain : ∀ c ∈ (requoteFrom source target .code s).1, c ≠ '\x27' ∧ c ≠ source ∧ c ≠ target) :
    (requoteFrom source target .code s).1 = s := by
  induction s with
  | nil => rfl
  | cons c s ih =>
    rw [requoteFrom_code_cons] at plain ⊢
    split at plain
    · next apostrophe => exact absurd apostrophe (plain c List.mem_cons_self).1
    · next code =>
      split at plain
      · obtain ⟨d, w, written, kind⟩ := @requoteFrom_name_head source target [] s
        have others := plain d (by simp [written])
        rcases kind with rfl | rfl
        · exact absurd rfl others.2.1
        · exact absurd rfl others.2.2
      · next other =>
        rw [if_neg code, if_neg other]
        exact congrArg (c :: ·) (ih fun d member => plain d (.tail c member))

end Text

open Reader Spelling

theorem word_unquoted {w : List Char} (shape : IsWord w) : ∀ c ∈ w, c ≠ '\x27' ∧ c ≠ '"' := by
  intro c member
  have others : c ∉ ['\x27', '"'] := Text.not_mem_of_all (shape.inside c member) rfl
  simpa using others

theorem part_backquoted {name : String} (part : IsPart name) :
    ∃ t, (∀ rest, rest.head? ≠ some '"' → (Text.requoteFrom '"' '\x60' .code (name.toList ++ rest)).1
        = t ++ (Text.requoteFrom '"' '\x60' .code rest).1)
      ∧ ∀ rest, EndsName rest → PartText name t rest := by
  rcases isPart_cases part with ⟨body, quoted⟩ | ⟨shape, free⟩
  · have same : name = String.ofList (Text.enclose '"' body) := by rw [← quoted, String.ofList_toList]
    refine ⟨Text.enclose '\x60' body, fun rest closed => ?_, fun rest ended => ?_⟩
    · rw [quoted, Text.requoteFrom_enclosed (by decide) body closed]
    · rw [same]
      exact .quoted (.inr rfl) fun first => (ended _ first).1 (by simp)
  · refine ⟨name.toList, fun rest closed => ?_, fun rest ended => ?_⟩
    · rw [Text.requoteFrom_plain (word_unquoted shape)]
    · have spelled : PartText (String.ofList name.toList) name.toList rest :=
        .plain shape (by rwa [String.ofList_toList]) fun c first => (ended c first).2
      rwa [String.ofList_toList] at spelled

theorem backquoted_spelled : WritesNames (requotedName '\x60') := by
  intro parts rest path ended
  rw [requotedName, String.toList_ofList, Text.requote]
  obtain ⟨nonempty, each⟩ := path
  induction parts with
  | nil => exact absurd rfl nonempty
  | cons part parts ih =>
    obtain ⟨t, requoted, spelled⟩ := part_backquoted (each part (by simp))
    cases parts with
    | nil =>
      have alone := requoted [] (by simp)
      rw [List.append_nil] at alone
      rw [String.intercalate_singleton, alone, Text.requoteFrom_nil, List.append_nil]
      exact .one (spelled rest ended)
    | cons next parts =>
      have tail := ih (by simp) fun found member => each found (by simp [member])
      rw [dotted_cons, requoted _ (by simp), Text.requoteFrom_plain (by simp)]
      refine .more (b := ()) (spelled _ ?_) rfl tail
      intro c first
      cases first
      decide

end SqlDialects
