import SqlDialects.Proofs.Grammar.Names
import SqlDialects.Reader.Expression

/-
Numbers, counts of rows and bind parameters.
-/
namespace SqlDialects

open Reader

def EndsDigits (rest : List Char) : Prop := ∀ c, rest.head? = some c → c.isDigit = false

theorem endsDigits_nil : EndsDigits [] := by
  intro c first
  cases first

structure IsDigits (ds : List Char) : Prop where
  nonempty : ds ≠ []
  inside : ∀ c ∈ ds, c.isDigit = true

theorem decimal_digits (n : Nat) : IsDigits (toString n).toList where
  nonempty := by
    rw [Nat.toString_eq_repr, Nat.toList_repr]
    exact Nat.toDigits_ne_nil
  inside c member := by
    rw [Nat.toString_eq_repr, Nat.toList_repr] at member
    exact Nat.isDigit_of_mem_toDigits (by decide) (by decide) member

theorem decimal_value (n : Nat) : digitsValue (toString n).toList = n := by
  rw [Nat.toString_eq_repr, Nat.toList_repr, digitsValue]
  exact Nat.ofDigitChars_toDigits (by decide) (by decide)

inductive NumberText : String → List Char → List Char → Prop
  | whole {ds rest : List Char} (digits : IsDigits ds) (ended : EndsDigits rest)
      (point : rest.head? ≠ some '.') : NumberText (String.ofList ds) ds rest
  | fraction {ds fs rest : List Char} (digits : IsDigits ds)
      (places : ∀ c ∈ fs, c.isDigit = true) (ended : EndsDigits rest) :
      NumberText (String.ofList (ds ++ '.' :: fs)) (ds ++ '.' :: fs) rest

inductive ParameterText : String → List Char → List Char → Prop
  | question (rest : List Char) : ParameterText "?" ['?'] rest
  | named {word rest : List Char} (shape : IsWord word) (ended : EndsWord rest) :
      ParameterText (":" ++ String.ofList word) (':' :: word) rest
  | numbered {ds rest : List Char} (digits : IsDigits ds) (ended : EndsDigits rest) :
      ParameterText ("$" ++ String.ofList ds) ('$' :: ds) rest

/-- A count of rows behind a gap. Leading zeros make no difference. -/
inductive CountText : UInt64 → List Char → List Char → Prop
  | mk {g ds rest : List Char} (gap : Gap g (ds ++ rest)) (digits : IsDigits ds)
      (bound : digitsValue ds < UInt64.size) (ended : EndsDigits rest) :
      CountText (UInt64.ofNat (digitsValue ds)) (g ++ ds) rest

namespace Reader

theorem digits_complete {ds rest : List Char} (shape : IsDigits ds) (ended : EndsDigits rest) :
    digits (ds ++ rest) = .ok (ds, rest) := by
  rw [digits, takeWhile_upTo shape.inside ended, dropWhile_upTo shape.inside ended]
  cases ds with
  | nil => exact absurd rfl shape.nonempty
  | cons c ds => rfl

theorem digits_sound {s ds rest : List Char} (read : digits s = .ok (ds, rest)) :
    s = ds ++ rest ∧ IsDigits ds ∧ EndsDigits rest := by
  simp only [digits] at read
  split at read
  · cases read
  · next ds nonempty =>
    cases read
    refine ⟨List.takeWhile_append_dropWhile.symm, ⟨nonempty, ?_⟩,
      dropWhile_ended Char.isDigit s⟩
    intro c member
    exact List.mem_takeWhile_imp member

theorem digits_fails {s : List Char} (ended : EndsDigits s) : Fails digits s := by
  have none : s.takeWhile Char.isDigit = [] := by
    simpa using @takeWhile_upTo _ [] s (by simp) ended
  exact ⟨s, by simp [digits, none]⟩

theorem number_complete {text : String} {t rest : List Char}
    (spelled : NumberText text t rest) : number (t ++ rest) = .ok (.number text, rest) := by
  cases spelled with
  | whole shape ended point =>
    have missing := option_of_fails (bind_fails (f := fun _ s =>
      Except.ok (s.takeWhile Char.isDigit, s.dropWhile Char.isDigit))
      (@exactly_fails_of_head "." _ _ rfl point))
    rw [number]
    refine (bind_of_ok (digits_complete shape ended)).trans ?_
    exact (bind_of_ok missing).trans rfl
  | @fraction ds fs rest shape places ended =>
    have point : EndsDigits ('.' :: (fs ++ rest)) := by
      intro c first
      cases first
      rfl
    have there : option (do
        exactly "."
        fun s => .ok (s.takeWhile Char.isDigit, s.dropWhile Char.isDigit))
        ('.' :: (fs ++ rest)) = .ok (some fs, rest) := by
      apply option_of_ok
      refine (bind_of_ok (exactly_append "." (fs ++ rest))).trans ?_
      rw [takeWhile_upTo places ended, dropWhile_upTo places ended]
    rw [number, List.append_assoc]
    refine (bind_of_ok (digits_complete shape point)).trans ?_
    exact (bind_of_ok there).trans rfl

theorem number_fails {s : List Char} (ended : EndsDigits s) : Fails number s :=
  bind_fails (digits_fails ended)

theorem number_head {text : String} {t rest : List Char} (spelled : NumberText text t rest) :
    ∃ c, (t ++ rest).head? = some c ∧ c.isDigit = true := by
  have begins : ∀ {ds more : List Char}, IsDigits ds →
      ∃ c, (ds ++ more).head? = some c ∧ c.isDigit = true := by
    intro ds more shape
    cases ds with
    | nil => exact absurd rfl shape.nonempty
    | cons c ds => exact ⟨c, rfl, shape.inside c (by simp)⟩
  cases spelled with
  | whole shape ended point => exact begins shape
  | fraction shape places ended =>
    rw [List.append_assoc]
    exact begins shape

theorem sound_number : Sound number fun e t rest => ∃ text, e = .number text
    ∧ NumberText text t rest := by
  intro s e rest read
  obtain ⟨ds, middle, found, more⟩ := bind_ok read
  obtain ⟨fraction, after, optional, last⟩ := bind_ok more
  cases last
  obtain ⟨rfl, shape, ended⟩ := digits_sound found
  simp only [option] at optional
  split at optional
  · next fs after there =>
    cases optional
    obtain ⟨_, point, read, places⟩ := bind_ok there
    have split := exactly_ok.mp read
    subst split
    cases places
    refine ⟨ds ++ '.' :: point.takeWhile Char.isDigit, ?_, _, rfl, ?_⟩
    · simp
    · exact .fraction shape (fun c member => List.mem_takeWhile_imp member)
        (dropWhile_ended Char.isDigit point)
  · next stuck failed =>
    cases optional
    refine ⟨ds, rfl, _, rfl, .whole shape ended ?_⟩
    intro point
    cases rest with
    | nil => cases point
    | cons c after =>
      cases point
      exact not_fails_of_ok (bind_of_ok (exactly_append "." after)) ⟨stuck, failed⟩

theorem parameter_complete {text : String} {t rest : List Char}
    (spelled : ParameterText text t rest) :
    parameter (t ++ rest) = .ok (.parameter text, rest) := by
  cases spelled with
  | question => exact orElse_of_ok (bind_of_ok (exactly_append "?" rest))
  | @named word rest shape ended =>
    have other : Fails (exactly "?") (':' :: (word ++ rest)) :=
      exactly_fails_of_head (c := '?') rfl (by simp)
    refine (orElse_of_fails (bind_fails other)).trans (orElse_of_ok ?_)
    refine (bind_of_ok (exactly_append ":" (word ++ rest))).trans ?_
    exact (bind_of_ok (bareWord_complete shape ended)).trans rfl
  | @numbered ds rest shape ended =>
    have question : Fails (exactly "?") ('$' :: (ds ++ rest)) :=
      exactly_fails_of_head (c := '?') rfl (by simp)
    have colon : Fails (exactly ":") ('$' :: (ds ++ rest)) :=
      exactly_fails_of_head (c := ':') rfl (by simp)
    refine (orElse_of_fails (bind_fails question)).trans ((orElse_of_fails (bind_fails colon)).trans ?_)
    refine (bind_of_ok (exactly_append "$" (ds ++ rest))).trans ?_
    exact (bind_of_ok (digits_complete shape ended)).trans rfl

theorem parameter_head {text : String} {t rest : List Char}
    (spelled : ParameterText text t rest) : ∃ c ∈ ['?', ':', '$'], (t ++ rest).head? = some c := by
  cases spelled with
  | question => exact ⟨'?', by simp, rfl⟩
  | named => exact ⟨':', by simp, rfl⟩
  | numbered => exact ⟨'$', by simp, rfl⟩

theorem parameter_fails {s : List Char} (other : ∀ c, s.head? = some c → c ∉ ['?', ':', '$']) :
    Fails parameter s := by
  have mark : ∀ {text : String} {c : Char}, text.toList.head? = some c → c ∈ ['?', ':', '$'] →
      Fails (exactly text) s := fun first listed =>
    exactly_fails_of_head first fun same => other _ same listed
  rw [Fails, parameter, orElse_of_fails (bind_fails (mark (c := '?') rfl (by simp))),
    orElse_of_fails (bind_fails (mark (c := ':') rfl (by simp)))]
  exact bind_fails (mark (c := '$') rfl (by simp))

theorem sound_parameter : Sound parameter fun e t rest => ∃ text, e = .parameter text
    ∧ ParameterText text t rest := by
  intro s e rest read
  rcases orElse_ok read with read | ⟨_, read⟩
  · obtain ⟨_, middle, found, last⟩ := bind_ok read
    cases last
    exact ⟨['?'], exactly_ok.mp found, _, rfl, .question rest⟩
  · rcases orElse_ok read with read | ⟨_, read⟩
    · obtain ⟨_, middle, found, more⟩ := bind_ok read
      obtain ⟨name, after, word, last⟩ := bind_ok more
      cases last
      obtain ⟨word, rfl, rfl, shape, ended⟩ := bareWord_sound word
      exact ⟨':' :: _, exactly_ok.mp found, _, rfl, .named shape ended⟩
    · obtain ⟨_, middle, found, more⟩ := bind_ok read
      obtain ⟨ds, after, number, last⟩ := bind_ok more
      cases last
      obtain ⟨rfl, shape, ended⟩ := digits_sound number
      exact ⟨'$' :: ds, exactly_ok.mp found, _, rfl, .numbered shape ended⟩

theorem rowCount_apply (s : List Char) :
    rowCount s = match digits (skipGaps s) with
      | .ok (ds, rest) =>
        if digitsValue ds < UInt64.size then .ok (UInt64.ofNat (digitsValue ds), rest)
        else .error (skipGaps s)
      | .error stuck => .error stuck := rfl

theorem rowCount_complete {n : UInt64} {t rest : List Char} (spelled : CountText n t rest) :
    rowCount (t ++ rest) = .ok (n, rest) := by
  cases spelled with
  | @mk g ds rest gap shape bound ended =>
    rw [List.append_assoc, rowCount_apply, gap, digits_complete shape ended]
    simp [bound]

theorem sound_rowCount : Sound rowCount CountText := by
  intro s n rest read
  rw [rowCount_apply] at read
  split at read
  · next ds after found =>
    split at read
    · next bound =>
      cases read
      obtain ⟨g, split, gap⟩ := skipGaps_split s
      obtain ⟨same, shape, ended⟩ := digits_sound found
      rw [same] at split gap
      exact ⟨g ++ ds, by rw [split, List.append_assoc], .mk gap shape bound ended⟩
    · cases read
  · cases read

theorem rowCount_fails {s : List Char} (other : ∀ c, front s = some c → c.isDigit = false) :
    Fails rowCount s := by
  obtain ⟨stuck, failed⟩ := digits_fails (s := skipGaps s) other
  exact ⟨stuck, by rw [rowCount_apply, failed]⟩

end Reader

end SqlDialects
