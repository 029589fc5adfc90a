import SqlDialects.Proofs.Grammar.Gaps

/-
Keywords and symbols. Which of them a text goes on with is read off its front: the first character
behind the gap, and the word behind the gap in upper case.
-/
namespace SqlDialects

open Reader

def EndsWord (rest : List Char) : Prop := ∀ c, rest.head? = some c → isNameCharacter c = false

theorem endsWord_nil : EndsWord [] := by
  intro c first
  cases first

def front (s : List Char) : Option Char := (skipGaps s).head?

/-- The word behind the gap, in upper case; empty if no word stands there. -/
def leadingWord (s : List Char) : String :=
  String.ofList (((skipGaps s).takeWhile isNameCharacter).map Char.toUpper)

structure Ends (marks : List Char) (words : List String) (s : List Char) : Prop where
  mark : ∀ c, front s = some c → c ∉ marks
  word : leadingWord s ∉ words

theorem Ends.weaken {marks more : List Char} {words others : List String} {s : List Char}
    (ended : Ends marks words s) (fewer : ∀ c ∈ more, c ∈ marks)
    (less : ∀ w ∈ others, w ∈ words) : Ends more others s where
  mark c found member := ended.mark c found (fewer c member)
  word member := ended.word (less _ member)

/-- A keyword is written in capital letters; texts may have it in any case. -/
def Capital (word : String) : Prop := word.toList.all Char.isUpper = true

inductive KeywordText (word : String) : Unit → List Char → List Char → Prop
  | mk {g k rest : List Char} (gap : Gap g (k ++ rest))
      (same : k.map Char.toUpper = word.toList) (ended : EndsWord rest) :
      KeywordText word () (g ++ k) rest

inductive SymbolText (text : String) : Unit → List Char → List Char → Prop
  | mk {g rest : List Char} (gap : Gap g (text.toList ++ rest)) :
      SymbolText text () (g ++ text.toList) rest

def ExactText (text : String) : Spelling Unit := fun _ t _ => t = text.toList

namespace Reader

theorem takeWhile_upTo {test : Char → Bool} {body rest : List Char}
    (inside : ∀ c ∈ body, test c = true) (ended : ∀ c, rest.head? = some c → test c = false) :
    (body ++ rest).takeWhile test = body := by
  rw [List.takeWhile_append_of_pos inside]
  cases rest with
  | nil => simp
  | cons c rest => simp [ended c rfl]

theorem dropWhile_upTo {test : Char → Bool} {body rest : List Char}
    (inside : ∀ c ∈ body, test c = true) (ended : ∀ c, rest.head? = some c → test c = false) :
    (body ++ rest).dropWhile test = rest := by
  rw [List.dropWhile_append_of_pos inside]
  cases rest with
  | nil => simp
  | cons c rest => simp [ended c rfl]

theorem dropWhile_ended (test : Char → Bool) (s : List Char) :
    ∀ c, (s.dropWhile test).head? = some c → test c = false := by
  intro c first
  have stop := List.head?_dropWhile_not test s
  rw [first] at stop
  simpa using stop

theorem dropText_some {t s rest : List Char} : dropText t s = some rest ↔ s = t ++ rest := by
  induction t generalizing s with
  | nil => simp [dropText, eq_comm]
  | cons c t ih =>
    cases s with
    | nil => simp [dropText]
    | cons d s =>
      by_cases same : d = c
      · simp [dropText, same, ih]
      · simp [dropText, same]

theorem exactly_ok {text : String} {s rest : List Char} :
    exactly text s = .ok ((), rest) ↔ s = text.toList ++ rest := by
  rw [← dropText_some, exactly]
  split
  · next found => simp [found]
  · next found => simp [found]

theorem exactly_append (text : String) (rest : List Char) :
    exactly text (text.toList ++ rest) = .ok ((), rest) := exactly_ok.mpr rfl

theorem exactly_fails {text : String} {s : List Char}
    (other : ∀ rest, s ≠ text.toList ++ rest) : Fails (exactly text) s := by
  cases found : exactly text s with
  | error stuck => exact ⟨stuck, found⟩
  | ok result => exact absurd (exactly_ok.mp found) (other _)

theorem exactly_fails_of_head {text : String} {c : Char} {s : List Char}
    (first : text.toList.head? = some c) (other : s.head? ≠ some c) :
    Fails (exactly text) s := by
  apply exactly_fails
  rintro rest rfl
  apply other
  cases found : text.toList with
  | nil => simp [found] at first
  | cons d t => simpa [found] using first

theorem sound_exactly (text : String) : Sound (exactly text) (ExactText text) := by
  intro s a rest read
  exact ⟨text.toList, exactly_ok.mp read, rfl⟩

theorem symbol_apply (text : String) (s : List Char) :
    symbol text s = exactly text (skipGaps s) := rfl

theorem sound_symbol (text : String) : Sound (symbol text) (SymbolText text) := by
  intro s a rest read
  have found := exactly_ok.mp read
  obtain ⟨g, split, gap⟩ := skipGaps_split s
  rw [found] at split gap
  exact ⟨g ++ text.toList, by rw [split, List.append_assoc], .mk gap⟩

theorem symbol_complete {text : String} {a : Unit} {t rest : List Char}
    (spelled : SymbolText text a t rest) : symbol text (t ++ rest) = .ok ((), rest) := by
  cases spelled with
  | @mk g _ gap =>
    rw [List.append_assoc, symbol_apply, gap]
    exact exactly_append text rest

theorem symbol_fails {text : String} {c : Char} {s : List Char}
    (first : text.toList.head? = some c) (other : front s ≠ some c) :
    Fails (symbol text) s :=
  exactly_fails_of_head first other

theorem symbol_front {text : String} {a : Unit} {t rest : List Char}
    (spelled : SymbolText text a t rest) :
    skipGaps (t ++ rest) = text.toList ++ rest := by
  cases spelled with
  | mk gap => rw [List.append_assoc]; exact gap

theorem symbolText_ne_nil {text : String} (nonempty : text.toList ≠ []) {a : Unit}
    {t rest : List Char} (spelled : SymbolText text a t rest) : t ≠ [] := by
  cases spelled with
  | mk gap =>
    intro none
    exact nonempty (List.append_eq_nil_iff.mp none).2

/-! Keywords. -/

theorem dropWord_some {w s rest : List Char} :
    dropWord w s = some rest ↔ ∃ k, s = k ++ rest ∧ k.map Char.toUpper = w.map Char.toUpper := by
  induction w generalizing s with
  | nil => simp [dropWord, eq_comm]
  | cons c w ih =>
    cases s with
    | nil => simp [dropWord]
    | cons d s =>
      by_cases same : d.toUpper = c.toUpper
      · simp only [dropWord, same, ↓reduceIte, ih]
        constructor
        · rintro ⟨k, rfl, equal⟩
          exact ⟨d :: k, rfl, by simp [same, equal]⟩
        · rintro ⟨k, split, equal⟩
          cases k with
          | nil => simp at equal
          | cons e k =>
            simp only [List.cons_append, List.cons.injEq] at split
            exact ⟨k, split.2, by simpa using (List.cons.inj equal).2⟩
      · simp only [dropWord, same, ↓reduceIte, reduceCtorEq, false_iff]
        rintro ⟨k, split, equal⟩
        cases k with
        | nil => simp at equal
        | cons e k =>
          simp only [List.cons_append, List.cons.injEq] at split
          exact same (by simpa [← split.1] using (List.cons.inj equal).1)

theorem wordEnd_ok {s rest : List Char} :
    wordEnd s = .ok ((), rest) ↔ s = rest ∧ EndsWord s := by
  cases s with
  | nil => simp [wordEnd, EndsWord]
  | cons c s => by_cases name : isNameCharacter c = true <;> simp [wordEnd, EndsWord, name]

theorem capital_letters {word : String} (capital : Capital word) {k : List Char}
    (same : k.map Char.toUpper = word.toList) : ∀ c ∈ k, c.isAlpha = true := by
  intro c member
  have upper := List.all_eq_true.mp capital c.toUpper
    (by rw [← same]; exact List.mem_map_of_mem member)
  simpa using upper

theorem capital_upper {word : String} (capital : Capital word) :
    word.toList.map Char.toUpper = word.toList := by
  rw [List.map_congr_left (g := id), List.map_id]
  intro c member
  exact Char.toUpper_eq_of_not_isLower (Char.not_isLower_of_isUpper
    (List.all_eq_true.mp capital c member))

theorem capital_reserved {word : String} (reserved : word ∈ reservedWords) : Capital word :=
  List.all_eq_true.mp
    (rfl : reservedWords.all (fun word => word.toList.all Char.isUpper) = true) word reserved

theorem reserved_nonempty {word : String} (reserved : word ∈ reservedWords) :
    word.toList ≠ [] := by
  have letters := List.all_eq_true.mp
    (rfl : reservedWords.all (fun word => !word.toList.isEmpty) = true) word reserved
  simpa using letters

theorem keyword_apply (word : String) (s rest : List Char) :
    keyword word s = .ok ((), rest)
      ↔ ∃ k, skipGaps s = k ++ rest ∧ k.map Char.toUpper = word.toList.map Char.toUpper
        ∧ EndsWord rest := by
  have unfolded : keyword word s
      = (dropWord word.toList (skipGaps s)).elim (.error (skipGaps s)) wordEnd := by
    simp only [keyword, gaps, bind, Reader.bind]
    cases dropWord word.toList (skipGaps s) <;> rfl
  rw [unfolded]
  constructor
  · intro read
    cases found : dropWord word.toList (skipGaps s) with
    | some after =>
      rw [found] at read
      obtain ⟨rfl, ended⟩ := wordEnd_ok.mp read
      obtain ⟨k, split, same⟩ := dropWord_some.mp found
      exact ⟨k, split, same, ended⟩
    | none =>
      rw [found] at read
      cases read
  · rintro ⟨k, split, same, ended⟩
    rw [dropWord_some.mpr ⟨k, split, same⟩]
    exact wordEnd_ok.mpr ⟨rfl, ended⟩

theorem leadingWord_of_split {s k rest : List Char} (split : skipGaps s = k ++ rest)
    (letters : ∀ c ∈ k, isNameCharacter c = true) (ended : EndsWord rest) :
    leadingWord s = String.ofList (k.map Char.toUpper) := by
  rw [leadingWord, split, takeWhile_upTo letters ended]

theorem leadingWord_gap {g s : List Char} (gap : Gap g s) : leadingWord (g ++ s) = leadingWord s := by
  rw [leadingWord, leadingWord, gap, skipGaps_of_none s (gap_solid gap)]

theorem front_gap {g s : List Char} (gap : Gap g s) : front (g ++ s) = s.head? := by
  rw [front, gap]

theorem head_ne_of_front {c : Char} {s : List Char}
    (solid : c ∉ [' ', '\t', '\r', '\n', '-', '/']) (other : front s ≠ some c) :
    s.head? ≠ some c := by
  intro first
  cases s with
  | nil => cases first
  | cons d s =>
    cases first
    exact other (by rw [front, skipGaps_of_none _ (solid_of_head s solid)]; rfl)

theorem leadingWord_of_keyword {word : String} (capital : Capital word) {s rest : List Char}
    (read : keyword word s = .ok ((), rest)) : leadingWord s = word := by
  obtain ⟨k, split, same, ended⟩ := (keyword_apply word s rest).mp read
  rw [capital_upper capital] at same
  have letters := capital_letters capital same
  rw [leadingWord_of_split split (fun c member => nameCharacter_of_isAlpha c (letters c member))
    ended, same, String.ofList_toList]

theorem front_of_leadingWord {word : String} (capital : Capital word) (nonempty : word.toList ≠ [])
    {s : List Char} (leads : leadingWord s = word) :
    ∃ c, front s = some c ∧ c.isAlpha = true := by
  subst leads
  rw [leadingWord, String.toList_ofList] at nonempty
  rw [Capital, leadingWord, String.toList_ofList] at capital
  cases found : skipGaps s with
  | nil => simp [found] at nonempty
  | cons c rest =>
    refine ⟨c, by rw [front, found]; rfl, ?_⟩
    rw [found, List.takeWhile_cons] at nonempty capital
    split at nonempty
    · next name =>
      simp only [name, ↓reduceIte, List.map_cons, List.all_cons, Bool.and_eq_true] at capital
      simpa using capital.1
    · exact absurd rfl nonempty

theorem keyword_fails (word : String) (capital : Capital word) {s : List Char}
    (other : leadingWord s ≠ word) : Fails (keyword word) s := by
  cases found : keyword word s with
  | error stuck => exact ⟨stuck, found⟩
  | ok result => exact absurd (leadingWord_of_keyword capital found) other

theorem sound_keyword (word : String) (capital : Capital word) :
    Sound (keyword word) (KeywordText word) := by
  intro s a rest read
  obtain ⟨k, found, same, ended⟩ := (keyword_apply word s rest).mp read
  rw [capital_upper capital] at same
  obtain ⟨g, split, gap⟩ := skipGaps_split s
  rw [found] at split gap
  exact ⟨g ++ k, by rw [split, List.append_assoc], .mk gap same ended⟩

theorem keyword_complete {word : String} {a : Unit} {t rest : List Char}
    (spelled : KeywordText word a t rest) (capital : Capital word) :
    keyword word (t ++ rest) = .ok ((), rest) := by
  cases spelled with
  | @mk g k _ gap same ended =>
    apply (keyword_apply word _ rest).mpr
    refine ⟨k, ?_, by rw [same, capital_upper capital], ended⟩
    rw [List.append_assoc]
    exact gap

theorem keyword_leads {word : String} {a : Unit} {t rest : List Char}
    (spelled : KeywordText word a t rest) (capital : Capital word) : leadingWord (t ++ rest) = word :=
  leadingWord_of_keyword capital (keyword_complete spelled capital)

theorem keyword_front {word : String} {a : Unit} {t rest : List Char}
    (spelled : KeywordText word a t rest) (capital : Capital word) (nonempty : word.toList ≠ []) :
    ∃ c, front (t ++ rest) = some c ∧ c.isAlpha = true := by
  cases spelled with
  | @mk g k _ gap same ended =>
    cases k with
    | nil => exact absurd same.symm nonempty
    | cons c k =>
      refine ⟨c, ?_, capital_letters capital same c (by simp)⟩
      rw [List.append_assoc, front, gap]
      rfl

theorem keyword_fails_of_keyword (other : String) {word : String} {a : Unit} {t rest : List Char}
    (spelled : KeywordText word a t rest) (capital : Capital word) (also : Capital other)
    (different : word ≠ other) : Fails (keyword other) (t ++ rest) :=
  keyword_fails other also (by rwa [keyword_leads spelled capital])

theorem symbol_fails_of_keyword {word text : String} {c : Char} {a : Unit} {t rest : List Char}
    (spelled : KeywordText word a t rest) (capital : Capital word) (nonempty : word.toList ≠ [])
    (first : text.toList.head? = some c) (sign : c.isAlpha = false) :
    Fails (symbol text) (t ++ rest) := by
  obtain ⟨d, found, letter⟩ := keyword_front spelled capital nonempty
  refine symbol_fails first fun same => ?_
  rw [found] at same
  cases same
  rw [sign] at letter
  cases letter

theorem keywordText_ne_nil {word : String} (nonempty : word.toList ≠ []) {a : Unit}
    {t rest : List Char} (spelled : KeywordText word a t rest) : t ≠ [] := by
  cases spelled with
  | mk gap same ended =>
    intro none
    rw [(List.append_eq_nil_iff.mp none).2] at same
    exact nonempty same.symm

/-! What a keyword or a symbol at the front keeps from being read. -/

theorem leadingWord_of_mark {c : Char} {s : List Char} (mark : front s = some c)
    (other : isNameCharacter c = false) : leadingWord s = "" := by
  cases found : skipGaps s with
  | nil => rw [front, found] at mark; cases mark
  | cons d rest =>
    rw [front, found] at mark
    cases mark
    rw [leadingWord, found, List.takeWhile_cons, other]
    rfl

theorem ends_of_mark {marks : List Char} {words : List String} {c : Char} {s : List Char}
    (mark : front s = some c) (other : isNameCharacter c = false) (free : c ∉ marks)
    (nonempty : "" ∉ words) : Ends marks words s where
  mark d found := by
    rw [mark] at found
    cases found
    exact free
  word := by rwa [leadingWord_of_mark mark other]

theorem ends_of_end {marks : List Char} {words : List String} {s : List Char}
    (ended : skipGaps s = []) (nonempty : "" ∉ words) : Ends marks words s where
  mark c found := by rw [front, ended] at found; cases found
  word := by rw [leadingWord, ended]; exact nonempty

theorem ends_of_keyword {marks : List Char} {words : List String} {word : String} {a : Unit}
    {t rest : List Char} (spelled : KeywordText word a t rest) (capital : Capital word)
    (nonempty : word.toList ≠ []) (free : word ∉ words)
    (signs : marks.all (fun c => !c.isAlpha) = true) : Ends marks words (t ++ rest) where
  mark c found := by
    obtain ⟨d, first, letter⟩ := keyword_front spelled capital nonempty
    rw [first] at found
    cases found
    exact Text.not_mem_of_all letter signs
  word := by rwa [keyword_leads spelled capital]

end Reader

end SqlDialects
