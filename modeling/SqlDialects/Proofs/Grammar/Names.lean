import SqlDialects.Proofs.Grammar.Words

/-
Quoted text, names and numbers. A quoted text ends at the first quote that is not doubled; a word
and a number go on for as long as they can.
-/
namespace SqlDialects

open Reader

structure IsWord (w : List Char) : Prop where
  start : ∃ c, w.head? = some c ∧ isNameStart c = true
  inside : ∀ c ∈ w, isNameCharacter c = true

theorem IsWord.ne_nil {w : List Char} (shape : IsWord w) : w ≠ [] := by
  rintro rfl
  obtain ⟨c, first, _⟩ := shape.start
  cases first

/-- One part of a name. A part in either kind of quotes stands for a name in double quotes. -/
inductive PartText : String → List Char → List Char → Prop
  | quoted {quote : Char} {body rest : List Char} (known : quote = '"' ∨ quote = '\x60')
      (closed : rest.head? ≠ some quote) :
      PartText (String.ofList (Text.enclose '"' body)) (Text.enclose quote body) rest
  | plain {word : List Char} {rest : List Char} (shape : IsWord word)
      (free : isReserved (String.ofList word) = false) (ended : EndsWord rest) :
      PartText (String.ofList word) word rest

def PathText : Spelling (List String) := Spelling.Separated (ExactText ".") PartText

def EndsPath (rest : List Char) : Prop :=
  rest.head? ≠ some '.' ∨ ∃ more, rest = '.' :: '*' :: more

def BehindGap {α : Type} (spelling : Spelling α) : Spelling α :=
  fun a t rest => ∃ g u, t = g ++ u ∧ Gap g (u ++ rest) ∧ spelling a u rest

namespace Reader

theorem quotedRest_other {quote c : Char} (other : c ≠ quote) {s body rest : List Char}
    (read : quotedRest quote s = .ok (body, rest)) :
    quotedRest quote (c :: s) = .ok (c :: body, rest) := by
  rw [quotedRest.eq_def]
  simp [other, read]

theorem quotedRest_doubled {quote : Char} {s body rest : List Char}
    (read : quotedRest quote s = .ok (body, rest)) :
    quotedRest quote (quote :: quote :: s) = .ok (quote :: body, rest) := by
  rw [quotedRest.eq_def]
  simp [read]

theorem quotedRest_closed {quote : Char} {rest : List Char} (closed : rest.head? ≠ some quote) :
    quotedRest quote (quote :: rest) = .ok ([], rest) := by
  rw [quotedRest.eq_def]
  cases rest with
  | nil => simp
  | cons c rest =>
    have other : c ≠ quote := by simpa using closed
    simp [other]

theorem quotedRest_complete (quote : Char) (body rest : List Char)
    (closed : rest.head? ≠ some quote) :
    quotedRest quote (Text.double quote body ++ quote :: rest) = .ok (body, rest) := by
  induction body with
  | nil => exact quotedRest_closed closed
  | cons c body ih =>
    by_cases same : c = quote
    · subst same
      simpa [Text.double] using quotedRest_doubled ih
    · simpa [Text.double, same] using quotedRest_other same ih

theorem quotedRest_sound (quote : Char) (s body rest : List Char)
    (read : quotedRest quote s = .ok (body, rest)) :
    s = Text.double quote body ++ quote :: rest ∧ rest.head? ≠ some quote := by
  fun_induction quotedRest quote s generalizing body rest with
  | case1 => cases read
  | case2 => cases read; simp [Text.double]
  | case3 more body' after found ih =>
    cases read
    obtain ⟨rfl, closed⟩ := ih _ _ found
    exact ⟨by simp [Text.double], closed⟩
  | case4 => cases read
  | case5 d more other => cases read; simp [Text.double, other]
  | case6 c rest other body' after found ih =>
    cases read
    obtain ⟨rfl, closed⟩ := ih _ _ found
    exact ⟨by simp [Text.double, other], closed⟩
  | case7 => cases read

theorem quoted_complete (quote : Char) (body rest : List Char) (closed : rest.head? ≠ some quote) :
    quoted quote (Text.enclose quote body ++ rest) = .ok (String.ofList body, rest) := by
  have read := quotedRest_complete quote body rest closed
  simp [Text.enclose, quoted, read]

theorem quoted_sound (quote : Char) (s rest : List Char) (name : String)
    (read : quoted quote s = .ok (name, rest)) :
    ∃ body, name = String.ofList body ∧ s = Text.enclose quote body ++ rest
      ∧ rest.head? ≠ some quote := by
  cases s with
  | nil => cases read
  | cons c s =>
    simp only [quoted] at read
    split at read
    · next same =>
      subst same
      split at read
      · next body after found =>
        cases read
        obtain ⟨rfl, closed⟩ := quotedRest_sound c s body _ found
        exact ⟨body, rfl, by simp [Text.enclose], closed⟩
      · cases read
    · cases read

theorem quoted_fails {quote : Char} {s : List Char} (other : s.head? ≠ some quote) :
    Fails (quoted quote) s := by
  cases s with
  | nil => exact ⟨[], rfl⟩
  | cons c s =>
    have different : c ≠ quote := by simpa using other
    exact ⟨c :: s, by simp [quoted, different]⟩

theorem bareWord_complete {word rest : List Char} (shape : IsWord word) (ended : EndsWord rest) :
    bareWord (word ++ rest) = .ok (String.ofList word, rest) := by
  obtain ⟨c, first, start⟩ := shape.start
  cases word with
  | nil => cases first
  | cons d word =>
    cases first
    have inside : ∀ e ∈ word, isNameCharacter e = true := fun e member =>
      shape.inside e (by simp [member])
    simp [bareWord, start, takeWhile_upTo inside ended, dropWhile_upTo inside ended]

theorem bareWord_sound {s rest : List Char} {name : String}
    (read : bareWord s = .ok (name, rest)) :
    ∃ word, name = String.ofList word ∧ s = word ++ rest ∧ IsWord word ∧ EndsWord rest := by
  cases s with
  | nil => cases read
  | cons c s =>
    simp only [bareWord] at read
    split at read
    · next start =>
      cases read
      refine ⟨c :: s.takeWhile isNameCharacter, rfl, ?_, ⟨⟨c, rfl, start⟩, ?_⟩,
        dropWhile_ended isNameCharacter s⟩
      · rw [List.cons_append, List.takeWhile_append_dropWhile]
      · intro d member
        rcases List.mem_cons.mp member with same | inside
        · rw [same]
          exact nameCharacter_of_nameStart c start
        · exact List.mem_takeWhile_imp inside
    · cases read

theorem bareWord_fails {s : List Char} (other : ∀ c, s.head? = some c → isNameStart c = false) :
    Fails bareWord s := by
  cases s with
  | nil => exact ⟨[], rfl⟩
  | cons c s => exact ⟨c :: s, by simp [bareWord, other c rfl]⟩

/-! Parts of names. -/

theorem plainName_complete {word rest : List Char} (shape : IsWord word)
    (free : isReserved (String.ofList word) = false) (ended : EndsWord rest) :
    plainName (word ++ rest) = .ok (String.ofList word, rest) := by
  simp [plainName, wordWhere, bareWord_complete shape ended, free]

theorem plainName_sound {s rest : List Char} {name : String}
    (read : plainName s = .ok (name, rest)) :
    ∃ word, name = String.ofList word ∧ s = word ++ rest ∧ IsWord word
      ∧ isReserved (String.ofList word) = false ∧ EndsWord rest := by
  simp only [plainName, wordWhere] at read
  split at read
  · next word after found =>
    obtain ⟨word, rfl, rfl, shape, ended⟩ := bareWord_sound found
    split at read
    · next free =>
      cases read
      exact ⟨word, rfl, rfl, shape, by simpa using free, ended⟩
    · cases read
  · cases read

theorem word_head {word : List Char} (shape : IsWord word) (rest : List Char) :
    ∃ c, (word ++ rest).head? = some c ∧ isNameStart c = true := by
  obtain ⟨c, first, start⟩ := shape.start
  cases word with
  | nil => cases first
  | cons d word => exact ⟨d, rfl, by cases first; exact start⟩

theorem nameStart_ne {c d : Char} (start : isNameStart c = true) (other : isNameStart d = false) :
    c ≠ d := by
  rintro rfl
  rw [start] at other
  cases other

theorem quoted_fails_word {quote : Char} {word : List Char} (other : isNameStart quote = false)
    (shape : IsWord word) (rest : List Char) : Fails (quoted quote) (word ++ rest) := by
  obtain ⟨c, first, start⟩ := word_head shape rest
  apply quoted_fails
  rw [first]
  intro same
  exact nameStart_ne start other (Option.some.inj same)

theorem part_complete {name : String} {t rest : List Char} (spelled : PartText name t rest) :
    quotedNamePart (t ++ rest) = .ok (name, rest) := by
  cases spelled with
  | @quoted quote body rest known closed =>
    rcases known with rfl | rfl
    · refine orElse_of_ok ((bind_of_ok (quoted_complete '"' body rest closed)).trans ?_)
      simp [pure_apply, Text.enclosed]
    · refine (orElse_of_fails (bind_fails (quoted_fails ?_))).trans (orElse_of_ok
        ((bind_of_ok (quoted_complete '\x60' body rest closed)).trans ?_))
      · simp [Text.enclose]
      · simp [pure_apply, Text.enclosed]
  | @plain word rest shape free ended =>
    rw [quotedNamePart,
      orElse_of_fails (bind_fails (quoted_fails_word (by decide) shape rest)),
      orElse_of_fails (bind_fails (quoted_fails_word (by decide) shape rest))]
    exact plainName_complete shape free ended

theorem sound_part : Sound quotedNamePart PartText := by
  intro s name rest read
  rcases orElse_ok read with read | ⟨_, read⟩
  · obtain ⟨body, middle, found, last⟩ := bind_ok read
    cases last
    obtain ⟨body, rfl, rfl, closed⟩ := quoted_sound _ _ _ _ found
    exact ⟨_, rfl, by simpa [Text.enclosed] using PartText.quoted (.inl rfl) closed⟩
  · rcases orElse_ok read with read | ⟨_, read⟩
    · obtain ⟨body, middle, found, last⟩ := bind_ok read
      cases last
      obtain ⟨body, rfl, rfl, closed⟩ := quoted_sound _ _ _ _ found
      exact ⟨_, rfl, by simpa [Text.enclosed] using PartText.quoted (.inr rfl) closed⟩
    · obtain ⟨word, rfl, rfl, shape, free, ended⟩ := plainName_sound read
      exact ⟨word, rfl, .plain shape free ended⟩

theorem part_fails {s : List Char}
    (other : ∀ c, s.head? = some c → c ≠ '"' ∧ c ≠ '\x60' ∧ isNameStart c = false) :
    Fails quotedNamePart s := by
  have double : Fails (quoted '"') s := quoted_fails fun h => (other _ h).1 rfl
  have back : Fails (quoted '\x60') s := quoted_fails fun h => (other _ h).2.1 rfl
  obtain ⟨stuck, failed⟩ := bareWord_fails fun c h => (other c h).2.2
  rw [Fails, quotedNamePart, orElse_of_fails (bind_fails double), orElse_of_fails (bind_fails back)]
  exact ⟨stuck, by simp [plainName, wordWhere, failed]⟩

/-! Dotted names. -/

theorem quotedPath_apply (s : List Char) :
    quotedPath s = separatedBy (exactly ".") quotedNamePart (skipGaps s) := rfl

theorem sound_behindGap {α : Type} {r inner : Reader α} {spelling : Spelling α}
    (skips : ∀ s, r s = inner (skipGaps s)) (sound : Sound inner spelling) :
    Sound r (BehindGap spelling) := by
  intro s a rest read
  rw [skips] at read
  obtain ⟨g, split, gap⟩ := skipGaps_split s
  obtain ⟨u, found, spelled⟩ := sound _ a rest read
  rw [found] at split gap
  exact ⟨g ++ u, by rw [split, List.append_assoc], g, u, rfl, gap, spelled⟩

theorem sound_quotedPath : Sound quotedPath (BehindGap PathText) :=
  sound_behindGap quotedPath_apply (sound_separatedBy (sound_exactly ".") sound_part)

theorem path_stops {rest : List Char} (ended : EndsPath rest) :
    Fails (do exactly "."; quotedNamePart) rest := by
  rcases ended with other | ⟨more, rfl⟩
  · exact bind_fails (exactly_fails_of_head rfl other)
  · obtain ⟨stuck, failed⟩ := part_fails (s := '*' :: more) (by
      intro c first
      cases first
      decide)
    exact ⟨stuck, (bind_of_ok (exactly_append "." ('*' :: more))).trans failed⟩

theorem path_complete {parts : List String} {t rest : List Char}
    (spelled : PathText parts t rest) (ended : EndsPath rest) :
    separatedBy (exactly ".") quotedNamePart (t ++ rest) = .ok (parts, rest) := by
  refine @complete_separatedBy _ _ _ _ t.length (fun _ => True) EndsPath _ _
    ?_ ?_ ?_ ?_ ?_ ?_ parts t rest (Nat.le_refl _) spelled ended
  · rintro _ m rest rfl
    exact exactly_append "." rest
  · intro name t rest _ spelled _
    exact part_complete spelled
  · intros
    trivial
  · intros
    trivial
  · intro rest ended
    exact path_stops ended
  · rintro _ m rest rfl
    decide

theorem path_head {parts : List String} {t rest : List Char} (spelled : PathText parts t rest) :
    ∃ name u v, t ++ rest = u ++ v ∧ PartText name u v := by
  cases spelled with
  | one part => exact ⟨_, t, rest, rfl, part⟩
  | @more name _ _ t _ _ _ part _ _ =>
    exact ⟨name, t, _, by simp only [List.append_assoc], part⟩

theorem part_head {name : String} {t rest : List Char} (spelled : PartText name t rest) :
    ∃ c, (t ++ rest).head? = some c ∧ (c ∈ ['"', '\x60'] ∨ isNameStart c = true) := by
  cases spelled with
  | @quoted quote body rest known closed => exact ⟨quote, rfl, .inl (by simpa using known)⟩
  | plain shape free ended =>
    obtain ⟨c, first, start⟩ := word_head shape rest
    exact ⟨c, first, .inr start⟩

theorem part_leads {name word : String} {t rest : List Char} (spelled : PartText name t rest)
    (solid : afterGap (t ++ rest) = none) (reserved : word ∈ reservedWords) :
    leadingWord (t ++ rest) ≠ word := by
  intro leads
  have capital := capital_reserved reserved
  cases spelled with
  | @quoted quote body rest known closed =>
    obtain ⟨c, first, letter⟩ := front_of_leadingWord capital (reserved_nonempty reserved) leads
    rw [front, skipGaps_of_none _ solid] at first
    cases first
    rcases known with rfl | rfl <;> simp at letter
  | plain shape free ended =>
    rw [leadingWord_of_split (skipGaps_of_none _ solid) shape.inside ended] at leads
    have same : Text.sameIgnoringCase (String.ofList t) word = true := by
      rw [Text.sameIgnoringCase, Text.upper, Text.upper, capital_upper capital,
        String.toList_ofList, String.ofList_toList, leads]
      exact beq_self_eq_true word
    have taken : isReserved (String.ofList t) = true :=
      List.any_eq_true.mpr ⟨word, reserved, same⟩
    rw [taken] at free
    cases free

theorem quotedPath_complete {parts : List String} {t rest : List Char}
    (spelled : BehindGap PathText parts t rest) (ended : EndsPath rest) :
    quotedPath (t ++ rest) = .ok (parts, rest) := by
  obtain ⟨g, u, rfl, gap, path⟩ := spelled
  rw [List.append_assoc, quotedPath_apply, gap]
  exact path_complete path ended

end Reader

end SqlDialects
