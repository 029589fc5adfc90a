import SqlDialects.Proofs.Grammar.Names
import SqlDialects.Reader.Nesting

/-
The lexemes of a text without comments: words, texts in quotes, and single characters for all else.
The scan goes from character to character; what it gives for the lexemes of a query is said by one
equation for each kind of them.
-/
namespace SqlDialects

open Text Reader

inductive Lexeme where
  | word (letters : List Char)
  | quoted (quote : Char) (body : List Char)
  | mark (c : Char)
  deriving Repr, DecidableEq

/-- What a scan for lexemes is in: nothing, a word, a text in quotes, or such a text behind a quote
that may close it. -/
inductive LexemeScan where
  | code
  | word (letters : List Char)
  | quoted (quote : Char) (body : List Char)
  | closing (quote : Char) (body : List Char)

namespace Lexeme

def opensWord (c : Char) : Bool := isNameStart c || c.isDigit

/-- What the first character of a lexeme gives: a mark, or the scan of more. -/
def start (c : Char) : List Lexeme × LexemeScan :=
  if opensWord c then ([], .word [c])
  else if Nesting.isQuote c then ([], .quoted c [])
  else ([.mark c], .code)

/-- The lexemes of a text, by what the scan of it is in. A text in quotes that is not closed has its
quote behind it as a mark. -/
def scan : LexemeScan → List Char → List Lexeme
  | .code, [] => []
  | .word letters, [] => [.word letters]
  | .quoted quote body, [] => [.quoted quote body, .mark quote]
  | .closing quote body, [] => [.quoted quote body]
  | .code, c :: s => (start c).1 ++ scan (start c).2 s
  | .word letters, c :: s =>
    if isNameCharacter c then scan (.word (letters ++ [c])) s
    else .word letters :: ((start c).1 ++ scan (start c).2 s)
  | .quoted quote body, c :: s =>
    if c = quote then scan (.closing quote body) s else scan (.quoted quote (body ++ [c])) s
  | .closing quote body, c :: s =>
    if c = quote then scan (.quoted quote (body ++ [c])) s
    else .quoted quote body :: ((start c).1 ++ scan (start c).2 s)

end Lexeme

open Lexeme

def lexemes (s : List Char) : List Lexeme := scan .code s

theorem lexemes_mark {c : Char} (apart : opensWord c = false) (unquoted : Nesting.isQuote c = false)
    (s : List Char) : lexemes (c :: s) = .mark c :: lexemes s := by
  simp [lexemes, scan, start, apart, unquoted]

theorem scan_word {k : List Char} (inside : ∀ c ∈ k, isNameCharacter c = true) {s : List Char}
    (ended : EndsWord s) (letters : List Char) :
    scan (.word letters) (k ++ s) = .word (letters ++ k) :: lexemes s := by
  induction k generalizing letters with
  | nil =>
    cases s with
    | nil => simp [scan, lexemes]
    | cons c s => simp [scan, lexemes, ended c rfl]
  | cons c k ih =>
    rw [List.cons_append, scan, if_pos (inside c List.mem_cons_self),
      ih (fun d member => inside d (.tail c member))]
    simp

theorem lexemes_word {k : List Char} (opens : k.head?.any opensWord = true)
    (inside : ∀ c ∈ k, isNameCharacter c = true) {s : List Char} (ended : EndsWord s) :
    lexemes (k ++ s) = .word k :: lexemes s := by
  cases k with
  | nil => cases opens
  | cons c k =>
    rw [List.cons_append, lexemes, scan, start, if_pos (by simpa using opens), List.nil_append,
      scan_word (fun d member => inside d (.tail c member)) ended]
    rfl

theorem scan_quoted {q : Char} {s : List Char} (closed : s.head? ≠ some q) (body before : List Char) :
    scan (.quoted q before) (double q body ++ q :: s) = .quoted q (before ++ body) :: lexemes s := by
  induction body generalizing before with
  | nil =>
    rw [double, List.nil_append, scan, if_pos rfl, List.append_nil]
    cases s with
    | nil => rfl
    | cons c s =>
      have other : c ≠ q := by simpa using closed
      rw [scan, if_neg other]
      rfl
  | cons c body ih =>
    by_cases quote : c = q
    · subst quote
      rw [double, if_pos rfl, List.cons_append, List.cons_append, scan, if_pos rfl, scan, if_pos rfl, ih]
      simp
    · rw [double, if_neg quote, List.cons_append, scan, if_neg quote, ih]
      simp

theorem quote_apart {q : Char} (quote : Nesting.isQuote q = true) : opensWord q = false := by
  rcases (by simpa [Nesting.isQuote, or_assoc] using quote :
    q = '\x27' ∨ q = '"' ∨ q = '\x60') with rfl | rfl | rfl <;> decide

theorem lexemes_quoted {q : Char} (quote : Nesting.isQuote q = true) (body : List Char) {s : List Char}
    (closed : s.head? ≠ some q) : lexemes (enclose q body ++ s) = .quoted q body :: lexemes s := by
  rw [enclose_append, lexemes, scan, start, quote_apart quote, if_neg (by simp), if_pos quote, List.nil_append,
    scan_quoted closed]
  rfl

theorem lexemes_quote {q : Char} (quote : Nesting.isQuote q = true) (s : List Char) :
    ∃ body, (lexemes (q :: s)).head? = some (.quoted q body) := by
  have inside : ∀ (s body : List Char), (∃ body', (scan (.quoted q body) s).head? = some (.quoted q body'))
      ∧ ∃ body', (scan (.closing q body) s).head? = some (.quoted q body') := by
    intro s
    induction s with
    | nil => exact fun body => ⟨⟨body, rfl⟩, body, rfl⟩
    | cons c s ih =>
      intro body
      rw [scan, scan]
      constructor
      · split
        · exact (ih body).2
        · exact (ih _).1
      · split
        · exact (ih _).1
        · exact ⟨body, rfl⟩
  rw [lexemes, scan, start, quote_apart quote, if_neg (by simp), if_pos quote, List.nil_append]
  exact (inside s []).1

end SqlDialects
