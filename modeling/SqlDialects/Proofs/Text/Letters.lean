import SqlDialects.Proofs.Text.Characters
import SqlDialects.Proofs.Grammar.Gaps
import SqlDialects.Reader.Statement

/-
Texts in upper case outside quotes. Upper-casing changes letters only, so whatever a test does not
tell letters apart by stays as it was: where a word, a number, a comment or the statement ends.
-/
namespace SqlDialects

open Reader Text Nesting

/-! Single characters. -/

theorem toUpper_test {β : Type} (test : Char → β) {value : β}
    (letters : ∀ c : Char, c.isAlpha = true → test c = value) (c : Char) :
    test c.toUpper = test c := by
  by_cases letter : c.isAlpha = true
  · rw [letters c letter, letters _ (by rwa [Char.isAlpha_toUpper_eq_isAlpha])]
  · have lower : ¬c.isLower = true := fun lower => letter (by simp [Char.isAlpha, lower])
    rw [Char.toUpper_eq_of_not_isLower lower]

theorem toUpper_of_mark {c : Char} (mark : c.isAlpha = false) : c.toUpper = c :=
  Char.toUpper_eq_of_not_isLower fun lower => by simp [Char.isAlpha, lower] at mark

theorem toUpper_eq_mark {c d : Char} (mark : d.isAlpha = false) : c.toUpper = d ↔ c = d := by
  have letters : ∀ e : Char, e.isAlpha = true → decide (e = d) = false := by
    intro e letter
    refine decide_eq_false ?_
    rintro rfl
    rw [mark] at letter
    cases letter
  simpa using toUpper_test (fun e => decide (e = d)) letters c

theorem fails_letters {test : Char → Bool} (apart : ∀ c, test c = true → c.isAlpha = false)
    (c : Char) (letter : c.isAlpha = true) : test c = false := by
  cases found : test c with
  | false => rfl
  | true =>
    rw [apart c found] at letter
    cases letter

theorem quote_mark {c : Char} (quote : isQuote c = true) : c.isAlpha = false := by
  simp only [isQuote, Bool.or_eq_true, beq_iff_eq] at quote
  rcases quote with (rfl | rfl) | rfl <;> rfl

theorem blank_mark {c : Char} (blank : isBlank c = true) : c.isAlpha = false :=
  blank_cases (P := fun c => c.isAlpha = false) (by decide) c blank

theorem isBlank_toUpper (c : Char) : isBlank c.toUpper = isBlank c :=
  toUpper_test isBlank (fails_letters fun _ => blank_mark) c

theorem isNameCharacter_toUpper (c : Char) : isNameCharacter c.toUpper = isNameCharacter c :=
  toUpper_test isNameCharacter nameCharacter_of_isAlpha c

theorem isNameStart_toUpper (c : Char) : isNameStart c.toUpper = isNameStart c :=
  toUpper_test isNameStart nameStart_of_isAlpha c

theorem isDigit_toUpper (c : Char) : c.toUpper.isDigit = c.isDigit :=
  toUpper_test Char.isDigit not_isDigit_of_isAlpha c

theorem digit_mark {c : Char} (digit : c.isDigit = true) : c.isAlpha = false := by
  cases letter : c.isAlpha with
  | false => rfl
  | true =>
    rw [not_isDigit_of_isAlpha c letter] at digit
    cases digit

/-! Comments. -/

theorem afterBlockComment_upper (s : List Char) :
    afterBlockComment (s.map Char.toUpper) = (afterBlockComment s).map (List.map Char.toUpper) := by
  fun_induction afterBlockComment s with
  | case1 rest => rfl
  | case2 c rest other ih =>
    rw [List.map_cons, afterBlockComment, ih]
    intro more star
    rw [toUpper_eq_mark rfl] at star
    cases rest with
    | nil => simp
    | cons d rest =>
      rw [List.map_cons, List.cons.injEq, toUpper_eq_mark rfl]
      rintro ⟨rfl, _⟩
      exact other rest star rfl
  | case3 => rfl

theorem afterLineComment_isSome (s : List Char) :
    (afterLineComment s).isSome = true
      ↔ ((s.dropWhile fun c => c != '\r' && c != '\n').head? = some '\r' →
          (s.dropWhile fun c => c != '\r' && c != '\n').tail.head? = some '\n') := by
  rw [afterLineComment]
  split
  · next rest found => simp [found]
  · next rest other found =>
    rw [found]
    have apart : rest.head? ≠ some '\n' := by
      intro first
      obtain ⟨more, rfl⟩ := List.head?_eq_some_iff.mp first
      exact other more rfl
    simpa using apart
  · next alone =>
    refine iff_of_true rfl fun first => ?_
    obtain ⟨more, found⟩ := List.head?_eq_some_iff.mp first
    exact absurd found (alone more)

theorem head?_upper_mark {d : Char} (mark : d.isAlpha = false) (s : List Char) :
    (s.map Char.toUpper).head? = some d ↔ s.head? = some d := by
  cases s with
  | nil => simp
  | cons c s => simpa using toUpper_eq_mark mark

theorem afterLineComment_upper (s : List Char) :
    (afterLineComment (s.map Char.toUpper)).isSome = (afterLineComment s).isSome := by
  have ends : (fun c => c != '\r' && c != '\n') ∘ Char.toUpper = fun c => c != '\r' && c != '\n' := by
    funext c
    refine toUpper_test (fun c => c != '\r' && c != '\n') (fun c letter => (?_ : _ = true)) c
    have other : c ∉ ['\r', '\n'] := not_mem_of_all letter rfl
    simpa using other
  refine Bool.eq_iff_iff.mpr ?_
  rw [afterLineComment_isSome, afterLineComment_isSome, List.dropWhile_map, ends,
    head?_upper_mark rfl, ← List.map_tail, head?_upper_mark rfl]

theorem toUpper_beq {d : Char} (mark : d.isAlpha = false) (c : Char) :
    (c.toUpper == d) = (c == d) := by
  rw [Bool.eq_iff_iff, beq_iff_eq, beq_iff_eq, toUpper_eq_mark mark]

def startsComment : List Char → Bool
  | c :: d :: rest =>
    c == '-' && d == '-' && (afterLineComment rest).isSome
      || c == '/' && d == '*' && (afterBlockComment rest).isSome
  | _ => false

theorem startsComment_upper (s : List Char) :
    startsComment (s.map Char.toUpper) = startsComment s := by
  rcases s with _ | ⟨c, _ | ⟨d, rest⟩⟩
  · rfl
  · rfl
  · have minus : ∀ c : Char, (c.toUpper == '-') = (c == '-') := toUpper_beq rfl
    have slash : ∀ c : Char, (c.toUpper == '/') = (c == '/') := toUpper_beq rfl
    have star : ∀ c : Char, (c.toUpper == '*') = (c == '*') := toUpper_beq rfl
    simp only [List.map_cons, startsComment, minus, slash, star, afterLineComment_upper,
      afterBlockComment_upper, Option.isSome_map]

/-- Without a comment at its front, a text begins in a gap only where it begins in a blank. -/
theorem afterGap_of_not_startsComment {c : Char} {s : List Char}
    (free : startsComment (c :: s) = false) :
    afterGap (c :: s) = if c ∈ [' ', '\t', '\r', '\n'] then some s else none := by
  unfold afterGap
  split
  · next same => cases same; rfl
  · next same => cases same; rfl
  · next same => cases same; rfl
  · next same => cases same; rfl
  · next rest same =>
    cases same
    simpa [startsComment] using free
  · next rest same =>
    cases same
    simpa [startsComment] using free
  · next blank tab back feed _ _ =>
    rw [if_neg]
    simp only [List.mem_cons, List.not_mem_nil, or_false, not_or]
    exact ⟨fun same => blank s (by rw [same]), fun same => tab s (by rw [same]),
      fun same => back s (by rw [same]), fun same => feed s (by rw [same])⟩

/-! Texts in upper case outside quotes. -/

def quoteBehind : Option Char → Char → Option Char
  | some q, c => if c = q then none else some q
  | none, c => if isQuote c then some c else none

/-- Upper-cases the letters outside quotes. The first argument is the quote that is open. -/
def upperFrom : Option Char → List Char → List Char
  | _, [] => []
  | quote, c :: rest =>
    (if quote.isNone then c.toUpper else c) :: upperFrom (quoteBehind quote c) rest

def upperCode (text : String) : String := String.ofList (upperFrom none text.toList)

def commentFreeFrom : Option Char → List Char → Bool
  | _, [] => true
  | quote, c :: rest =>
    (quote.isSome || !startsComment (c :: rest)) && commentFreeFrom (quoteBehind quote c) rest

@[simp] theorem length_upperFrom (quote : Option Char) (s : List Char) :
    (upperFrom quote s).length = s.length := by
  induction s generalizing quote with
  | nil => rfl
  | cons c s ih => simp [upperFrom, ih]

theorem upperFrom_append (quote : Option Char) (s t : List Char) :
    upperFrom quote (s ++ t) = upperFrom quote s ++ upperFrom (s.foldl quoteBehind quote) t := by
  induction s generalizing quote with
  | nil => rfl
  | cons c s ih => simp [upperFrom, ih]

theorem upper_upperFrom (quote : Option Char) (s : List Char) :
    (upperFrom quote s).map Char.toUpper = s.map Char.toUpper := by
  induction s generalizing quote with
  | nil => rfl
  | cons c s ih =>
    rw [upperFrom, List.map_cons, ih, List.map_cons]
    split
    · rw [Char.toUpper_toUpper_eq_toUpper]
    · rfl

theorem upper_upperCode (text : String) : Text.upper (upperCode text) = Text.upper text := by
  rw [Text.upper, upperCode, String.toList_ofList, upper_upperFrom, Text.upper]

theorem sameIgnoringCase_upperCode (text : String) :
    sameIgnoringCase (upperCode text) = sameIgnoringCase text := by
  funext word
  rw [sameIgnoringCase, upper_upperCode, sameIgnoringCase]

theorem startsComment_upperFrom (quote : Option Char) (s : List Char) :
    startsComment (upperFrom quote s) = startsComment s := by
  rw [← startsComment_upper, upper_upperFrom, startsComment_upper]

theorem upperFrom_code {s : List Char} (unquoted : ∀ c ∈ s, isQuote c = false) (t : List Char) :
    upperFrom none (s ++ t) = s.map Char.toUpper ++ upperFrom none t := by
  induction s with
  | nil => rfl
  | cons c s ih =>
    have code : quoteBehind none c = none := by simp [quoteBehind, unquoted c]
    rw [List.cons_append, upperFrom, code, ih fun d member => unquoted d (.tail c member)]
    rfl

theorem upperFrom_enclose {q : Char} (known : isQuote q = true) (body t : List Char) :
    upperFrom none (enclose q body ++ t) = enclose q body ++ upperFrom none t := by
  have opened : ∀ s, upperFrom none (q :: s) = q :: upperFrom (some q) s := by
    intro s
    simp [upperFrom, quoteBehind, known, toUpper_of_mark (quote_mark known)]
  have inside : ∀ c s, upperFrom (some q) (c :: s) = c :: upperFrom (if c = q then none else some q) s :=
    fun c s => rfl
  have inner : upperFrom (some q) (double q body ++ q :: t) = double q body ++ q :: upperFrom none t := by
    induction body with
    | nil => simp [double, inside]
    | cons c body ih =>
      rw [double]
      split
      · next same => simp [inside, opened, ih]
      · next other => simp [inside, other, ih]
  rw [enclose, List.cons_append, List.append_assoc, opened]
  simpa using inner

/-! The body of a statement. -/

theorem dropEndWhile_upperFrom {test : Char → Bool} (same : ∀ c : Char, test c.toUpper = test c)
    (quote : Option Char) (s : List Char) :
    dropEndWhile test (upperFrom quote s) = upperFrom quote (dropEndWhile test s) := by
  have snoc : ∀ (s : List Char) (c : Char), dropEndWhile test (s ++ [c])
      = if test c then dropEndWhile test s else s ++ [c] := by
    intro s c
    simp only [dropEndWhile, List.reverse_append, List.reverse_singleton, List.singleton_append,
      List.dropWhile_cons]
    split
    · rfl
    · simp
  induction s using List.reverseRecOn with
  | nil => rfl
  | append_singleton s c ih =>
    rw [upperFrom_append, snoc]
    change dropEndWhile test (upperFrom quote s ++ [_]) = _
    rw [snoc, ih]
    have kept : test (if (s.foldl quoteBehind quote).isNone = true then c.toUpper else c) = test c := by
      split
      · exact same c
      · rfl
    rw [kept]
    split
    · rfl
    · rw [upperFrom_append]
      rfl

theorem trim_upperFrom (s : List Char) :
    trim (upperFrom none s) = upperFrom none (trim s) := by
  have start : trimStart (upperFrom none s) = upperFrom none (trimStart s) := by
    induction s with
    | nil => rfl
    | cons c s ih =>
      rw [trimStart, trimStart, upperFrom, Option.isNone_none, if_pos rfl, List.dropWhile_cons,
        List.dropWhile_cons, isBlank_toUpper]
      split
      · next blank =>
        have code : quoteBehind none c = none := by
          have unquoted := blank_cases (P := fun c => isQuote c = false) (by decide) c blank
          simp [quoteBehind, unquoted]
        rw [code]
        exact ih
      · simp [upperFrom]
  rw [trim, start, dropEndWhile_upperFrom isBlank_toUpper, trim]

theorem statementBody_upperFrom (s : List Char) :
    statementBody (upperFrom none s) = upperFrom none (statementBody s) := by
  rw [statementBody, trim_upperFrom, dropEndWhile_upperFrom (fun c => toUpper_beq rfl c),
    trim_upperFrom, statementBody]

end SqlDialects
