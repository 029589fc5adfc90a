import SqlDialects.Proofs.Pattern.Absence
import SqlDialects.Proofs.Pattern.Remembered
import SqlDialects.Proofs.Rules.Stepping

/-
The texts that rules for row limits and operators write: some words and numbers with blanks between them.
No match of a pattern begins in such a text if none of its words begins a word that the pattern looks for,
whatever stands beside the text.
-/
namespace SqlDialects

open Text Pattern

/-! Words that begin no match. -/

structure Foreign (starts : List String) (w : List Char) : Prop where
  letters : IsPatternWord w
  other : ∀ start ∈ starts, ¬ w.map foldCase <+: start.toList.map foldCase

def leadsWord (word start : String) : Bool :=
  (word.toList.map foldCase).isPrefixOf (start.toList.map foldCase)

theorem foreign_word {starts : List String} {word : String} (capital : IsCapitalWord word)
    (other : starts.all (fun start => !leadsWord word start) = true) : Foreign starts word.toList where
  letters := capital.run.word
  other start listed begun := by
    have none := List.all_eq_true.mp other start listed
    rw [leadsWord, List.isPrefixOf_iff_prefix.mpr begun] at none
    cases none

theorem digitRun_word {n : List Char} (digits : DigitRun n) : IsPatternWord n :=
  ⟨digits.1, fun c member => wordCharacter_of_digit (digits.2 c member)⟩

theorem foreign_digits {starts : List String} (capital : ∀ start ∈ starts, IsCapitalWord start)
    {n : List Char} (digits : DigitRun n) : Foreign starts n where
  letters := digitRun_word digits
  other start listed begun := by
    obtain ⟨nonempty, inside⟩ := digits
    cases n with
    | nil => exact nonempty rfl
    | cons d n =>
      cases split : start.toList with
      | nil => exact (capital start listed).nonempty split
      | cons c w =>
        rw [split] at begun
        have same : foldCase d = foldCase c := (List.cons_prefix_cons.mp begun).1
        have digit := inside d List.mem_cons_self
        have letter := (capital start listed).inside c (by rw [split]; exact List.mem_cons_self)
        rcases fold_capital same letter with rfl | rfl | alpha | rfl
        · cases digit
        · cases digit
        · rw [letter_not_digit alpha] at digit
          cases digit
        · cases digit

/-! Phrases. -/

def spoken : List Char → List (List Char) → List Char
  | first, [] => first
  | first, next :: others => first ++ ' ' :: spoken next others

theorem spoken_head {first : List Char} (nonempty : first ≠ []) (others : List (List Char)) :
    (spoken first others).head? = first.head? := by
  cases others with
  | nil => rfl
  | cons w others => exact List.head?_append_of_ne_nil _ nonempty

theorem spoken_last {first : List Char} {others : List (List Char)}
    (words : ∀ w ∈ first :: others, IsPatternWord w) :
    ∃ c, (spoken first others).getLast? = some c ∧ isWordCharacter c = true := by
  induction others generalizing first with
  | nil =>
    obtain ⟨nonempty, inside⟩ := words first List.mem_cons_self
    exact ⟨_, List.getLast?_eq_some_getLast nonempty, inside _ (List.getLast_mem nonempty)⟩
  | cons w others ih =>
    obtain ⟨c, last, word⟩ := ih fun v listed => words v (.tail first listed)
    refine ⟨c, ?_, word⟩
    rw [spoken, List.getLast?_append, List.getLast?_cons, last]
    rfl

section Phrases

variable {p : Pattern} {starts : List String} (begins : BeginsWith p starts)
include begins

theorem foreign_absentIn {w : List Char} (foreign : Foreign starts w) (before : Option Char)
    (rest : List Char) : AbsentIn p rest before w :=
  absentIn_word begins foreign.letters.inside
    (no_match_unlike begins foreign.letters.inside foreign.other before rest)

theorem absentIn_blank {w v rest : List Char} {before : Option Char}
    (first : AbsentIn p (' ' :: (v ++ rest)) before w) (later : AbsentIn p rest (some ' ') v) :
    AbsentIn p rest before (w ++ ' ' :: v) := by
  rw [← List.singleton_append]
  refine absentIn_append.mpr ⟨first, absentIn_append.mpr ⟨absentIn_mark begins rfl _ _, later⟩⟩

theorem spoken_absentIn {first : List Char} {others : List (List Char)}
    (foreign : ∀ w ∈ first :: others, Foreign starts w) (before : Option Char) (rest : List Char) :
    AbsentIn p rest before (spoken first others) := by
  have start := foreign_absentIn begins (foreign first List.mem_cons_self) before
  induction others generalizing first before with
  | nil => exact start rest
  | cons w others ih =>
    have later : ∀ v ∈ w :: others, Foreign starts v := fun v listed => foreign v (.tail first listed)
    exact absentIn_blank begins (start _)
      (ih later _ (foreign_absentIn begins (later w List.mem_cons_self) _))

end Phrases

def Phrase (words : List String) (u : List Char) : Prop :=
  ∃ name ∈ words, ∃ others, u = spoken name.toList others
    ∧ ∀ w ∈ others, DigitRun w ∨ ∃ name ∈ words, w = name.toList

namespace Phrase

variable {words : List String} {u : List Char} (phrase : Phrase words u)
include phrase

theorem more {others : List String} (listed : ∀ name ∈ words, name ∈ others) : Phrase others u := by
  obtain ⟨name, known, rest, text, inside⟩ := phrase
  exact ⟨name, listed name known, rest, text, fun w member =>
    (inside w member).imp id fun ⟨name, known, same⟩ => ⟨name, listed name known, same⟩⟩

theorem head {c : Char} (letters : ∀ name ∈ words, IsPatternWord name.toList)
    (first : u.head? = some c) : ∃ name ∈ words, name.toList.head? = some c := by
  obtain ⟨name, known, others, rfl, _⟩ := phrase
  exact ⟨name, known, by rwa [spoken_head (letters name known).nonempty] at first⟩

theorem fits {p : Pattern} (letters : ∀ name ∈ words, IsPatternWord name.toList)
    (apart : ∀ c, u.head? = some c → p.Apart c)
    (inside : ∀ before t, Absent p u.getLast? t → AbsentIn p t before u) (m : List Char) :
    Fits p m u := by
  have first := fun {c} => @Phrase.head _ _ phrase c letters
  obtain ⟨name, known, others, text, each⟩ := phrase
  have words : ∀ w ∈ name.toList :: others, IsPatternWord w := by
    intro w member
    rcases List.mem_cons.mp member with rfl | member
    · exact letters name known
    · rcases each w member with digits | ⟨name, known, rfl⟩
      · exact digitRun_word digits
      · exact letters name known
  obtain ⟨d, last, word⟩ := spoken_last words
  rw [← text] at last
  refine ⟨?_, inside, fun mark => ?_⟩
  · cases split : u with
    | nil => rw [split] at last; cases last
    | cons c w =>
      have head : u.head? = some c := by rw [split]; rfl
      obtain ⟨name, listed, begun⟩ := first head
      exact ⟨c, w, rfl, (letters name listed).inside c (List.mem_of_head? begun), apart c head⟩
  · rw [last, Option.any_some, word] at mark
    cases mark

theorem absentIn {p : Pattern} {starts : List String} (begins : BeginsWith p starts)
    (foreign : ∀ name ∈ words, Foreign starts name.toList) (before : Option Char) (t : List Char) :
    AbsentIn p t before u := by
  obtain ⟨name, known, others, rfl, each⟩ := phrase
  refine spoken_absentIn begins (fun w member => ?_) before t
  rcases List.mem_cons.mp member with rfl | member
  · exact foreign name known
  · rcases each w member with digits | ⟨name, known, rfl⟩
    · exact foreign_digits begins.capital digits
    · exact foreign name known

end Phrase

theorem spares_phrases {p q : Pattern} {starts words : List String} {write : Match → List Char}
    (begins : BeginsWith p starts) (foreign : ∀ name ∈ words, Foreign starts name.toList)
    (apart : ∀ name ∈ words, ∀ c, name.toList.head? = some c → p.Apart c)
    (phrase : ∀ before s found, q.matchAt? before s = some found → Phrase words (write found)) :
    Spares p q write := by
  intro before s found matched
  have text := phrase before s found matched
  have letters : ∀ name ∈ words, IsPatternWord name.toList := fun name listed =>
    (foreign name listed).letters
  refine text.fits letters (fun c first => ?_)
    (fun before t _ => text.absentIn begins foreign before t) _
  obtain ⟨name, listed, begun⟩ := text.head letters first
  exact apart name listed c begun

/-! The texts of row limits. -/

namespace TextRule

theorem limitText_spoken (count offset : List Char) :
    limitText count offset = spoken "LIMIT".toList [count, "OFFSET".toList, offset] := by
  change ("LIMIT".toList ++ [' ']) ++ count ++ ([' '] ++ "OFFSET".toList ++ [' ']) ++ offset = _
  simp only [spoken, List.append_assoc, List.cons_append, List.nil_append]

theorem fetchText_spoken (count : List Char) :
    fetchText count
      = spoken "FETCH".toList ["FIRST".toList, count, "ROWS".toList, "ONLY".toList] := by
  change ("FETCH".toList ++ [' '] ++ "FIRST".toList ++ [' ']) ++ count
    ++ ([' '] ++ "ROWS".toList ++ [' '] ++ "ONLY".toList) = _
  simp only [spoken, List.append_assoc, List.cons_append, List.nil_append]

theorem offsetFetchText_spoken (offset count : List Char) :
    offsetFetchText offset count
      = spoken "OFFSET".toList [offset, "ROWS".toList, "FETCH".toList, "FIRST".toList, count,
        "ROWS".toList, "ONLY".toList] := by
  change ("OFFSET".toList ++ [' ']) ++ offset ++ ([' '] ++ "ROWS".toList ++ [' ']) ++ fetchText count = _
  rw [fetchText_spoken]
  simp only [spoken, List.append_assoc, List.cons_append, List.nil_append]

def limitingWords : List String := ["LIMIT", "OFFSET"]

def fetchingWords : List String := ["OFFSET", "ROWS", "FETCH", "FIRST", "ONLY"]

theorem limitText_phrase {count offset : List Char} (rows : DigitRun count) (start : DigitRun offset) :
    Phrase limitingWords (limitText count offset) := by
  refine ⟨"LIMIT", by simp [limitingWords], _, limitText_spoken count offset, ?_⟩
  simp [limitingWords, rows, start]

theorem limit_phrase {count : List Char} (rows : DigitRun count) :
    Phrase ["LIMIT"] ("LIMIT ".toList ++ count) := by
  exact ⟨"LIMIT", by simp, [count], rfl, by simpa using .inl rows⟩

theorem fetchText_phrase {count : List Char} (rows : DigitRun count) :
    Phrase fetchingWords (fetchText count) := by
  refine ⟨"FETCH", by simp [fetchingWords], _, fetchText_spoken count, ?_⟩
  simp [fetchingWords, rows]

theorem offsetFetchText_phrase {offset count : List Char} (start : DigitRun offset)
    (rows : DigitRun count) : Phrase fetchingWords (offsetFetchText offset count) := by
  refine ⟨"OFFSET", by simp [fetchingWords], _, offsetFetchText_spoken offset count, ?_⟩
  simp [fetchingWords, rows, start]

theorem like_phrase : Phrase ["LIKE"] "LIKE".toList :=
  ⟨"LIKE", by simp, [], rfl, by simp⟩

def phraseWords : List String := "LIKE" :: pageWords

theorem phraseWord_capital {name : String} (listed : name ∈ phraseWords) : IsCapitalWord name := by
  have check : phraseWords.all (fun word => !word.toList.isEmpty && word.toList.all isCapital) = true := by
    decide
  exact isCapitalWord_of_check (List.all_eq_true.mp check name listed)

theorem limiting_listed : ∀ name ∈ limitingWords, name ∈ phraseWords := by decide

theorem limiting_letters : ∀ name ∈ limitingWords, IsPatternWord name.toList :=
  fun name listed => (phraseWord_capital (limiting_listed name listed)).run.word

theorem fetching_listed : ∀ name ∈ fetchingWords, name ∈ phraseWords := by decide

theorem phrase_foreign {words starts : List String} (known : ∀ name ∈ words, name ∈ phraseWords)
    (other : words.all (fun word => starts.all fun start => !leadsWord word start) = true) :
    ∀ name ∈ words, Foreign starts name.toList := fun name listed =>
  foreign_word (phraseWord_capital (known name listed)) (List.all_eq_true.mp other name listed)

theorem phrase_apart {word : String} (capital : IsCapitalWord word) {parts : List Pattern}
    {words : List String} (other : words.all (fun name => name.toList.head?.all fun c =>
      (Pattern.sequence parts).avoids c) = true) :
    ∀ name ∈ words, ∀ c, name.toList.head? = some c → (wordThen word parts).Apart c := by
  intro name listed c head
  have avoided := List.all_eq_true.mp other name listed
  rw [head] at avoided
  exact apart_wordThen capital (stops_of_avoids avoided)

end TextRule

end SqlDialects
