import SqlDialects.Proofs.Grammar.Comments

/-
The body of a statement, and what a script makes of it. Blanks around a statement and semicolons
behind it make no difference to what is left of it without its comments.
-/
namespace SqlDialects

open Reader Text Nesting

/-! Blanks and semicolons around a text. -/

theorem dropEndWhile_append {test : Char → Bool} {p : List Char} {c : Char}
    (last : p.getLast? = some c) (kept : test c = false) (m : List Char) :
    dropEndWhile test (p ++ m) = p ++ dropEndWhile test m := by
  have whole : p.reverse.dropWhile test = p.reverse := by
    simpa [dropEndWhile] using congrArg List.reverse (dropEndWhile_of_last last kept)
  rw [dropEndWhile, dropEndWhile, List.reverse_append, List.dropWhile_append]
  split
  · next empty =>
    rw [whole, List.reverse_reverse, List.isEmpty_iff.mp empty]
    simp
  · rw [List.reverse_append, List.reverse_reverse]

theorem dropEndWhile_split (test : Char → Bool) (s : List Char) :
    ∃ tail, s = dropEndWhile test s ++ tail ∧ ∀ c ∈ tail, test c = true := by
  refine ⟨(s.reverse.takeWhile test).reverse, ?_, fun c member => ?_⟩
  · rw [dropEndWhile, ← List.reverse_append, List.takeWhile_append_dropWhile, List.reverse_reverse]
  · exact List.mem_takeWhile_imp (List.mem_reverse.mp member)

theorem dropEndWhile_all {test : Char → Bool} {m : List Char} (all : ∀ c ∈ m, test c = true)
    (s : List Char) : dropEndWhile test (s ++ m) = dropEndWhile test s := by
  rw [dropEndWhile, dropEndWhile, List.reverse_append,
    List.dropWhile_append_of_pos fun c member => all c (List.mem_reverse.mp member)]

theorem trimStart_all {m : List Char} (blank : ∀ c ∈ m, isBlank c = true) (s : List Char) :
    trimStart (m ++ s) = trimStart s :=
  List.dropWhile_append_of_pos blank

theorem trim_around {m n : List Char} (before : ∀ c ∈ m, isBlank c = true)
    (behind : ∀ c ∈ n, isBlank c = true) (s : List Char) : trim (m ++ s ++ n) = trim s := by
  rw [trim, trim, List.append_assoc, trimStart_all before]
  have start : trimStart (s ++ n) = trimStart s ++ n ∨ trimStart s = [] ∧ trimStart (s ++ n) = [] := by
    rw [trimStart, trimStart, List.dropWhile_append]
    split
    · next empty =>
      refine .inr ⟨List.isEmpty_iff.mp empty, ?_⟩
      simpa using behind
    · exact .inl rfl
  rcases start with same | ⟨none, nothing⟩
  · rw [same, dropEndWhile_all behind]
  · rw [none, nothing]

theorem trim_split (s : List Char) : ∃ m n, s = m ++ trim s ++ n
    ∧ (∀ c ∈ m, isBlank c = true) ∧ ∀ c ∈ n, isBlank c = true := by
  obtain ⟨n, split, behind⟩ := dropEndWhile_split isBlank (trimStart s)
  refine ⟨s.takeWhile isBlank, n, ?_, fun c member => List.mem_takeWhile_imp member, behind⟩
  rw [List.append_assoc, trim, ← split, trimStart, List.takeWhile_append_dropWhile]

theorem trim_trim (s : List Char) : trim (trim s) = trim s := by
  obtain ⟨m, n, split, before, behind⟩ := trim_split s
  conv_rhs => rw [split]
  rw [trim_around before behind]

def statementEnd (m : List Char) : List Char :=
  dropEndWhile isBlank (dropEndWhile (· == ';') (dropEndWhile isBlank m))

theorem trim_append {c : Char} {p : List Char} (solid : isBlank c = false) (closed : Closed (c :: p))
    (m : List Char) : trim (c :: p ++ m) = c :: p ++ dropEndWhile isBlank m := by
  obtain ⟨d, last, blank, _⟩ := closed
  rw [trim, trimStart, List.cons_append, List.dropWhile_cons_of_neg (by simp [solid]),
    ← List.cons_append, dropEndWhile_append last blank]

theorem statementBody_append {c : Char} {p : List Char} (solid : isBlank c = false)
    (closed : Closed (c :: p)) (m : List Char) :
    statementBody (c :: p ++ m) = c :: p ++ statementEnd m := by
  have ended := closed
  obtain ⟨d, last, _, other⟩ := ended
  rw [statementBody, trim_append solid closed, dropEndWhile_append last (by simp [other]),
    trim_append solid closed, statementEnd]

theorem statementBody_around {m n : List Char} (before : ∀ c ∈ m, isBlank c = true)
    (behind : ∀ c ∈ n, isBlank c = true) (s : List Char) :
    statementBody (m ++ s ++ n) = statementBody s := by
  rw [statementBody, trim_around before behind, ← statementBody]

theorem statementBody_split (s : List Char) : ∃ m n, s = m ++ statementBody s ++ n
    ∧ (∀ c ∈ m, isBlank c = true) ∧ ∀ c ∈ n, isBlank c = true ∨ c = ';' := by
  obtain ⟨m, n, split, before, behind⟩ := trim_split s
  obtain ⟨semicolons, inner, all⟩ := dropEndWhile_split (· == ';') (trim s)
  obtain ⟨m', n', last, before', behind'⟩ := trim_split (dropEndWhile (· == ';') (trim s))
  refine ⟨m ++ m', n' ++ semicolons ++ n, ?_, ?_, ?_⟩
  · rw [statementBody]
    conv_lhs => rw [split, inner, last]
    simp
  · intro c member
    rcases List.mem_append.mp member with member | member
    · exact before c member
    · exact before' c member
  · intro c member
    rcases List.mem_append.mp member with member | member
    · rcases List.mem_append.mp member with member | member
      · exact .inl (behind' c member)
      · exact .inr (by simpa using all c member)
    · exact .inl (behind c member)

/-! Scans that go over a text without meeting the end of a statement. -/

inductive Scan : ScriptScan → List Char → List Char → ScriptScan → Prop
  | nil (state : ScriptScan) : Scan state [] [] state
  | plain {c : Char} {s u : List Char} {last : ScriptScan} (unquoted : isQuote c = false)
      (inside : c ≠ ';') (alone : opensComment c s.head? = false) (later : Scan .code s u last) :
      Scan .code (c :: s) (c :: u) last
  | quote {q : Char} {s u : List Char} {last : ScriptScan} (known : isQuote q = true)
      (later : Scan (.quoted q) s u last) : Scan .code (q :: s) (q :: u) last
  | quoted {q c : Char} {s u : List Char} {last : ScriptScan} (inside : c ≠ q)
      (later : Scan (.quoted q) s u last) : Scan (.quoted q) (c :: s) (c :: u) last
  | close {q : Char} {s u : List Char} {last : ScriptScan} (later : Scan .code s u last) :
      Scan (.quoted q) (q :: s) (q :: u) last
  | line {s u : List Char} {last : ScriptScan} (later : Scan .lineComment s u last) :
      Scan .code ('-' :: '-' :: s) u last
  | lineInside {c : Char} {s u : List Char} {last : ScriptScan} (inside : c ≠ '\n')
      (later : Scan .lineComment s u last) : Scan .lineComment (c :: s) u last
  | lineEnd {s u : List Char} {last : ScriptScan} (later : Scan .code s u last) :
      Scan .lineComment ('\n' :: s) ('\n' :: u) last
  | block {s u : List Char} {last : ScriptScan} (later : Scan (.blockComment false) s u last) :
      Scan .code ('/' :: '*' :: s) (' ' :: u) last
  | blockInside {star : Bool} {c : Char} {s u : List Char} {last : ScriptScan}
      (inside : (star && decide (c = '/')) = false)
      (later : Scan (.blockComment (c = '*')) s u last) : Scan (.blockComment star) (c :: s) u last
  | blockEnd {s u : List Char} {last : ScriptScan} (later : Scan .code s u last) :
      Scan (.blockComment true) ('/' :: s) u last

theorem scan_of_pieces {state : ScriptScan} {s u : List Char} (one : state.pieces s = [u]) :
    ∃ last, Scan state s u last := by
  fun_induction ScriptScan.pieces state s generalizing u with
  | case1 state =>
    cases one
    exact ⟨state, .nil state⟩
  | case2 q c rest ih =>
    obtain ⟨u', rfl, single⟩ := prepend_one (pieces_ne_nil _ _) one
    obtain ⟨last, later⟩ := ih single
    by_cases closes : c = q
    · subst closes
      rw [if_pos rfl] at later
      exact ⟨last, .close later⟩
    · rw [if_neg closes] at later
      exact ⟨last, .quoted closes later⟩
  | case3 rest ih =>
    obtain ⟨u', rfl, single⟩ := prepend_one (pieces_ne_nil _ _) one
    obtain ⟨last, later⟩ := ih single
    exact ⟨last, .lineEnd later⟩
  | case4 c rest other ih =>
    obtain ⟨last, later⟩ := ih one
    exact ⟨last, .lineInside other later⟩
  | case5 star c rest closes ih =>
    obtain ⟨last, later⟩ := ih one
    simp only [Bool.and_eq_true, decide_eq_true_eq] at closes
    obtain ⟨rfl, rfl⟩ := closes
    exact ⟨last, .blockEnd later⟩
  | case6 star c rest inside ih =>
    obtain ⟨last, later⟩ := ih one
    exact ⟨last, .blockInside (by simpa using inside) later⟩
  | case7 rest ih =>
    obtain ⟨last, later⟩ := ih one
    exact ⟨last, .line later⟩
  | case8 rest ih =>
    obtain ⟨u', rfl, single⟩ := prepend_one (pieces_ne_nil _ _) one
    obtain ⟨last, later⟩ := ih single
    exact ⟨last, .block later⟩
  | case9 c rest _ _ quote ih =>
    obtain ⟨u', rfl, single⟩ := prepend_one (pieces_ne_nil _ _) one
    obtain ⟨last, later⟩ := ih single
    exact ⟨last, .quote quote later⟩
  | case10 rest _ _ _ ih => exact absurd (List.cons.inj one).2 (pieces_ne_nil _ _)
  | case11 c rest line block unquoted inside ih =>
    obtain ⟨u', rfl, single⟩ := prepend_one (pieces_ne_nil _ _) one
    obtain ⟨last, later⟩ := ih single
    exact ⟨last, .plain (by simpa using unquoted) inside (alone_tail line block) later⟩

def IsTrail (trail : List Char) : Prop := ∀ c ∈ trail, isBlank c = true ∨ c = ';'

theorem IsTrail.apart {trail : List Char} (ends : IsTrail trail) {c : Char} (mark : c ≠ ';')
    (solid : isBlank c = false) : c ∉ trail := by
  intro member
  rcases ends c member with blank | same
  · rw [solid] at blank
    cases blank
  · exact mark same

theorem IsTrail.alone {trail : List Char} (ends : IsTrail trail) (c : Char) :
    opensComment c trail.head? = false := by
  refine opensComment_eq_false.mpr ⟨fun _ second => ?_, fun _ second => ?_⟩
  · exact ends.apart (by decide) (by decide) (List.mem_of_mem_head? second)
  · exact ends.apart (by decide) (by decide) (List.mem_of_mem_head? second)

theorem alone_before {c : Char} {s t : List Char} (apart : ∀ c, opensComment c t.head? = false)
    (alone : opensComment c s.head? = false) : opensComment c (s ++ t).head? = false := by
  cases s with
  | cons d s => exact alone
  | nil => exact apart c

/-- What follows a text is cut as it is without it, unless it makes a comment of the last character. -/
theorem Scan.pieces {state last : ScriptScan} {s u trail piece : List Char}
    {pieces : List (List Char)} (scan : Scan state s u last)
    (apart : ∀ c, opensComment c trail.head? = false) (found : last.pieces trail = piece :: pieces) :
    state.pieces (s ++ trail) = (u ++ piece) :: pieces := by
  induction scan with
  | nil => exact found
  | plain unquoted inside alone later ih =>
    rw [List.cons_append, pieces_code (alone_before apart alone), ih found]
    simp [unquoted, inside, Text.prepend]
  | @quote q s u last known later ih =>
    rw [List.cons_append, pieces_code (alone_quote known _), known, ih found]
    rfl
  | quoted inside later ih =>
    rw [List.cons_append, ScriptScan.pieces, if_neg inside, ih found]
    rfl
  | close later ih =>
    rw [List.cons_append, ScriptScan.pieces, if_pos rfl, ih found]
    rfl
  | line later ih => rw [List.cons_append, List.cons_append, ScriptScan.pieces, ih found]
  | lineInside inside later ih => rw [List.cons_append, ScriptScan.pieces, if_neg inside, ih found]
  | lineEnd later ih =>
    rw [List.cons_append, ScriptScan.pieces, if_pos rfl, ih found]
    rfl
  | block later ih =>
    rw [List.cons_append, List.cons_append, ScriptScan.pieces, ih found]
    rfl
  | blockInside inside later ih =>
    rw [List.cons_append, ScriptScan.pieces, inside, ih found]
    rfl
  | blockEnd later ih =>
    rw [List.cons_append, ScriptScan.pieces]
    exact ih found

theorem tidy_blanks {m : List Char} (blank : ∀ c ∈ m, isBlank c = true) (s : List Char) :
    ScriptScan.code.tidy (m ++ s) = ScriptScan.code.tidy s := by
  induction m with
  | nil => rfl
  | cons c m ih =>
    have plain := blank_cases (P := fun c => isQuote c = false ∧ c ≠ '-' ∧ c ≠ '/') (by decide) c
      (blank c List.mem_cons_self)
    rw [List.cons_append, tidy_code (alone_other plain.2.1 plain.2.2 _), plain.1]
    exact ih fun d member => blank d (.tail c member)

theorem untidy_trail {star : Bool} {trail : List Char} (ends : IsTrail trail) :
    (ScriptScan.blockComment star).tidy trail = false := by
  induction trail generalizing star with
  | nil => rfl
  | cons c trail ih =>
    have other : c ≠ '/' := by
      rintro rfl
      exact ends.apart (by decide) (by decide) List.mem_cons_self
    rw [ScriptScan.tidy, if_neg (by simp [other])]
    exact ih fun d member => ends d (.tail c member)

theorem Scan.tidy {state last : ScriptScan} {s u trail : List Char} (scan : Scan state s u last)
    (ends : IsTrail trail) (line : s.getLast? ≠ some '\r')
    (tidy : state.tidy (s ++ trail) = true) : state.tidy s = true ∧ ∀ star, last ≠ .blockComment star := by
  have later : ∀ {c : Char} {s : List Char}, (c :: s).getLast? ≠ some '\r' →
      s.getLast? ≠ some '\r' := by
    intro c s other found
    exact other (by rw [List.getLast?_cons, found]; rfl)
  induction scan with
  | nil state =>
    cases state with
    | code => exact ⟨rfl, by simp⟩
    | quoted => exact ⟨rfl, by simp⟩
    | lineComment => exact ⟨rfl, by simp⟩
    | blockComment star =>
      rw [List.nil_append, untidy_trail ends] at tidy
      cases tidy
  | plain unquoted inside alone _ ih =>
    rw [List.cons_append, tidy_code (alone_before ends.alone alone), unquoted] at tidy
    rw [tidy_code alone, unquoted]
    exact ih (later line) tidy
  | @quote q s u last known _ ih =>
    rw [List.cons_append, tidy_code (alone_quote known _), known] at tidy
    rw [tidy_code (alone_quote known _), known]
    exact ih (later line) tidy
  | quoted inside _ ih =>
    rw [List.cons_append, ScriptScan.tidy, if_neg inside] at tidy
    rw [ScriptScan.tidy, if_neg inside]
    exact ih (later line) tidy
  | close _ ih =>
    rw [List.cons_append, ScriptScan.tidy, if_pos rfl] at tidy
    rw [ScriptScan.tidy, if_pos rfl]
    exact ih (later line) tidy
  | line _ ih =>
    rw [List.cons_append, List.cons_append, ScriptScan.tidy] at tidy
    rw [ScriptScan.tidy]
    exact ih (later (later line)) tidy
  | @lineInside c s u last inside _ ih =>
    rw [List.cons_append, ScriptScan.tidy, if_neg inside, Bool.and_eq_true] at tidy
    rw [ScriptScan.tidy, if_neg inside, Bool.and_eq_true]
    obtain ⟨whole, closed⟩ := ih (later line) tidy.2
    refine ⟨⟨?_, whole⟩, closed⟩
    cases s with
    | nil =>
      have other : c ≠ '\r' := by simpa using line
      simp [other]
    | cons d s => exact tidy.1
  | lineEnd _ ih =>
    rw [List.cons_append, ScriptScan.tidy, if_pos rfl] at tidy
    rw [ScriptScan.tidy, if_pos rfl]
    exact ih (later line) tidy
  | block _ ih =>
    rw [List.cons_append, List.cons_append, ScriptScan.tidy] at tidy
    rw [ScriptScan.tidy]
    exact ih (later (later line)) tidy
  | blockInside inside _ ih =>
    rw [List.cons_append, ScriptScan.tidy, inside] at tidy
    rw [ScriptScan.tidy, inside]
    exact ih (later line) tidy
  | blockEnd _ ih =>
    rw [List.cons_append, ScriptScan.tidy] at tidy
    rw [ScriptScan.tidy]
    exact ih (later line) tidy

theorem trail_blank {last : ScriptScan} {trail : List Char} (ends : IsTrail trail)
    (outside : last = .code ∨ last = .lineComment) :
    ∀ piece ∈ last.pieces trail, ∀ c ∈ piece, isBlank c = true := by
  have prepended : ∀ {c : Char} {pieces : List (List Char)}, isBlank c = true →
      (∀ piece ∈ pieces, ∀ c ∈ piece, isBlank c = true) →
      ∀ piece ∈ Text.prepend c pieces, ∀ c ∈ piece, isBlank c = true := by
    intro c pieces blank each
    cases pieces with
    | nil => simpa [Text.prepend] using blank
    | cons piece pieces =>
      obtain ⟨first, others⟩ := List.forall_mem_cons.mp each
      exact List.forall_mem_cons.mpr ⟨List.forall_mem_cons.mpr ⟨blank, first⟩, others⟩
  induction trail generalizing last with
  | nil => simp [ScriptScan.pieces]
  | cons c trail ih =>
    have rest : IsTrail trail := fun d member => ends d (.tail c member)
    have plain : isQuote c = false ∧ c ≠ '-' ∧ c ≠ '/' := by
      rcases ends c List.mem_cons_self with blank | rfl
      · exact blank_cases (P := fun c => isQuote c = false ∧ c ≠ '-' ∧ c ≠ '/') (by decide) c blank
      · decide
    rcases outside with rfl | rfl
    · rw [pieces_code (alone_other plain.2.1 plain.2.2 _), plain.1]
      rcases ends c List.mem_cons_self with blank | rfl
      · by_cases separator : c = ';'
        · simpa [separator] using ih rest (.inl rfl)
        · simp only [Bool.false_eq_true, if_false, separator]
          exact prepended blank (ih rest (.inl rfl))
      · simpa using ih rest (.inl rfl)
    · rw [ScriptScan.pieces]
      split
      · next feed =>
        subst feed
        exact prepended rfl (ih rest (.inl rfl))
      · exact ih rest (.inr rfl)

def LeftOpen (q : Char) (s u : List Char) : Prop :=
  ∃ x x' y, isQuote q = true ∧ s = x ++ q :: y ∧ u = x' ++ q :: y

theorem LeftOpen.behind {q : Char} {s u : List Char} (opened : LeftOpen q s u)
    (t v : List Char) : LeftOpen q (t ++ s) (v ++ u) := by
  obtain ⟨x, x', y, known, rfl, rfl⟩ := opened
  exact ⟨t ++ x, v ++ x', y, known, (List.append_assoc ..).symm, (List.append_assoc ..).symm⟩

theorem Scan.unclosed {state last : ScriptScan} {s u : List Char} {q : Char}
    (scan : Scan state s u last) (inside : last = .quoted q) :
    (state = .quoted q ∧ u = s) ∨ LeftOpen q s u := by
  -- from a state outside quotes, they are opened later
  have later : ∀ {state : ScriptScan} {s u : List Char},
      (state = .quoted q ∧ u = s) ∨ LeftOpen q s u → (∀ q, state ≠ .quoted q) → LeftOpen q s u :=
    fun found outside => found.resolve_left fun ⟨same, _⟩ => outside q same
  induction scan with
  | nil => exact .inl ⟨inside, rfl⟩
  | @plain c _ _ _ _ _ _ _ ih => exact .inr ((later (ih inside) nofun).behind [c] [c])
  | @quote c s u last known _ ih =>
    rcases ih inside with ⟨state, rfl⟩ | opened
    · cases state
      exact .inr ⟨[], [], u, known, rfl, rfl⟩
    · exact .inr (opened.behind [c] [c])
  | @quoted d c s u last _ _ ih =>
    rcases ih inside with ⟨state, rfl⟩ | opened
    · exact .inl ⟨state, rfl⟩
    · exact .inr (opened.behind [c] [c])
  | @close c _ _ _ _ ih => exact .inr ((later (ih inside) nofun).behind [c] [c])
  | line _ ih => exact .inr ((later (ih inside) nofun).behind ['-', '-'] [])
  | @lineInside c _ _ _ _ _ ih => exact .inr ((later (ih inside) nofun).behind [c] [])
  | lineEnd _ ih => exact .inr ((later (ih inside) nofun).behind ['\n'] ['\n'])
  | block _ ih => exact .inr ((later (ih inside) nofun).behind ['/', '*'] [' '])
  | @blockInside _ c _ _ _ _ _ ih => exact .inr ((later (ih inside) nofun).behind [c] [])
  | blockEnd _ ih => exact .inr ((later (ih inside) nofun).behind ['/'] [])

theorem Scan.closing {state last : ScriptScan} {s u : List Char} {q : Char}
    (scan : Scan state s u last) (outside : ∀ q, last ≠ .quoted q) (inside : state = .quoted q) :
    q ∈ u := by
  induction scan with
  | nil => exact absurd inside (outside q)
  | quoted _ _ ih => exact .tail _ (ih outside inside)
  | close _ _ =>
    cases inside
    exact List.mem_cons_self
  | plain | quote | line | lineInside | lineEnd | block | blockInside | blockEnd => cases inside

theorem Scan.semicolon {state last : ScriptScan} {s u x y : List Char} (scan : Scan state s u last)
    (outside : ∀ q, last ≠ .quoted q) (known : ∀ q, state = .quoted q → isQuote q = true)
    (split : u = x ++ ';' :: y) : ∃ q ∈ y, isQuote q = true := by
  have code : ∀ q, ScriptScan.code = .quoted q → isQuote q = true := by
    intro q same
    cases same
  have comment : ∀ q, ScriptScan.lineComment = .quoted q → isQuote q = true := by
    intro q same
    cases same
  have block : ∀ star q, ScriptScan.blockComment star = .quoted q → isQuote q = true := by
    intro star q same
    cases same
  induction scan generalizing x with
  | nil => simp at split
  | @plain c s u last _ inside _ _ ih =>
    cases x with
    | nil => exact absurd (List.cons.inj split).1 inside
    | cons d x => exact ih outside code (List.cons.inj split).2
  | @quote q s u last quote _ ih =>
    have later : ∀ d, ScriptScan.quoted q = .quoted d → isQuote d = true := by
      intro d same
      cases same
      exact quote
    cases x with
    | nil =>
      obtain ⟨rfl, _⟩ := List.cons.inj split
      cases quote
    | cons d x => exact ih outside later (List.cons.inj split).2
  | @quoted q c s u last _ later ih =>
    cases x with
    | nil =>
      obtain ⟨_, rfl⟩ := List.cons.inj split
      exact ⟨q, later.closing outside rfl, known q rfl⟩
    | cons d x => exact ih outside known (List.cons.inj split).2
  | @close q s u last _ ih =>
    cases x with
    | nil =>
      obtain ⟨rfl, _⟩ := List.cons.inj split
      exact absurd (known ';' rfl) (by decide)
    | cons d x => exact ih outside code (List.cons.inj split).2
  | line _ ih => exact ih outside comment split
  | lineInside _ _ ih => exact ih outside comment split
  | lineEnd _ ih =>
    cases x with
    | nil => exact absurd (List.cons.inj split).1 (by decide)
    | cons d x => exact ih outside code (List.cons.inj split).2
  | block _ ih =>
    cases x with
    | nil => exact absurd (List.cons.inj split).1 (by decide)
    | cons d x => exact ih outside (block false) (List.cons.inj split).2
  | blockInside _ _ ih => exact ih outside (block _) split
  | blockEnd _ ih => exact ih outside code split

theorem Scan.blanks {m s u : List Char} {last : ScriptScan} (blank : ∀ c ∈ m, isBlank c = true)
    (scan : Scan .code s u last) : Scan .code (m ++ s) (m ++ u) last := by
  induction m with
  | nil => exact scan
  | cons c m ih =>
    have plain := blank_cases (P := fun c => isQuote c = false ∧ c ≠ ';' ∧ c ≠ '-' ∧ c ≠ '/')
      (by decide) c (blank c List.mem_cons_self)
    exact .plain plain.1 plain.2.1 (opensComment_eq_false.mpr
      ⟨fun same => absurd same plain.2.2.1, fun same => absurd same plain.2.2.2⟩)
      (ih fun d member => blank d (.tail c member))

theorem pieces_trail_quoted {q : Char} {trail : List Char} (known : isQuote q = true)
    (ends : IsTrail trail) : (ScriptScan.quoted q).pieces trail = [trail] := by
  induction trail with
  | nil => rfl
  | cons c trail ih =>
    have other : c ≠ q := by
      rintro rfl
      rcases ends c List.mem_cons_self with blank | rfl
      · have unquoted := blank_cases (P := fun c => isQuote c = false) (by decide) c blank
        rw [known] at unquoted
        cases unquoted
      · cases known
    rw [ScriptScan.pieces, if_neg other, ih fun d member => ends d (.tail c member)]
    rfl

/-! The one statement of a script. -/

theorem quote_solid {q : Char} (known : isQuote q = true) : isBlank q = false ∧ q ≠ ';' := by
  constructor
  · by_contra blank
    have unquoted := blank_cases (P := fun c => isQuote c = false) (by decide) q (by simpa using blank)
    rw [known] at unquoted
    cases unquoted
  · rintro rfl
    cases known

theorem trimStart_quote {q : Char} (known : isQuote q = true) (x : List Char) :
    ∃ c p, isBlank c = false ∧ Closed (c :: p) ∧ ∀ m, trimStart (x ++ q :: m) = c :: p ++ m := by
  obtain ⟨solid, mark⟩ := quote_solid known
  induction x with
  | nil =>
    refine ⟨q, [], solid, ⟨q, rfl, solid, mark⟩, fun m => ?_⟩
    exact List.dropWhile_cons_of_neg (by simp [solid])
  | cons a x ih =>
    by_cases blank : isBlank a = true
    · obtain ⟨c, p, front, closed, same⟩ := ih
      refine ⟨c, p, front, closed, fun m => ?_⟩
      rw [← same m]
      exact List.dropWhile_cons_of_pos blank
    · have last : (a :: (x ++ [q])).getLast? = some q := by
        rw [← List.cons_append, List.getLast?_concat]
      refine ⟨a, x ++ [q], Bool.not_eq_true _ ▸ blank, ⟨q, last, solid, mark⟩, fun m => ?_⟩
      have kept : trimStart (a :: x ++ q :: m) = a :: x ++ q :: m :=
        List.dropWhile_cons_of_neg blank
      rw [kept]
      simp

theorem trim_trimStart (s : List Char) : trim (trimStart s) = trim s := by
  have split : s = s.takeWhile isBlank ++ trimStart s ++ [] := by
    rw [List.append_nil, trimStart, List.takeWhile_append_dropWhile]
  conv_rhs => rw [split]
  rw [trim_around (fun c member => List.mem_takeWhile_imp member) (by simp)]

/-- A text that has a quote is its beginning up to the quote and what is left of its end. -/
theorem statementBody_quote {q : Char} (known : isQuote q = true) (x : List Char) :
    ∃ p, p ≠ [] ∧ ∀ m, trim (x ++ q :: m) = p ++ dropEndWhile isBlank m
      ∧ statementBody (x ++ q :: m) = p ++ statementEnd m := by
  obtain ⟨c, p, solid, closed, start⟩ := trimStart_quote known x
  refine ⟨c :: p, List.cons_ne_nil c p, fun m => ⟨?_, ?_⟩⟩
  · rw [← trim_trimStart, start, trim_append solid closed]
  · rw [statementBody, ← trim_trimStart (x ++ q :: m), start, ← statementBody,
      statementBody_append solid closed]

theorem trim_blank {s : List Char} (blank : ∀ c ∈ s, isBlank c = true) : trim s = [] := by
  have nothing : trim ([] ++ s) = [] := trim_around (n := s) (s := []) (m := []) (by simp) blank
  exact nothing

/-- Without quotes that stay open, what is left of a statement does not end in a semicolon. -/
theorem Scan.body {s u : List Char} {last : ScriptScan} (scan : Scan .code s u last)
    (outside : ∀ q, last ≠ .quoted q) (nonempty : trim u ≠ []) : statementBody (trim u) = trim u := by
  obtain ⟨m, n, split, _, behind⟩ := trim_split u
  obtain ⟨d, ends, solid⟩ := (trimmed_trim nonempty).ends
  have mark : d ≠ ';' := by
    rintro rfl
    obtain ⟨t, same⟩ := List.getLast?_eq_some_iff.mp ends
    rw [same] at split
    obtain ⟨q, member, known⟩ := scan.semicolon outside (by intro q same; cases same)
      (x := m ++ t) (y := n) (by rw [split]; simp)
    have blank := behind q member
    rw [(quote_solid known).1] at blank
    cases blank
  rw [statementBody, trim_trim, dropEndWhile_of_last ends (by simp [mark]), trim_trim]

theorem statement_first {piece : List Char} {others : List (List Char)} {script text : String}
    (found : ScriptScan.code.pieces script.toList = piece :: others)
    (blank : ∀ other ∈ others, trim other = []) (one : splitStatements script = [text]) :
    text.toList = trim piece ∧ trim piece ≠ [] := by
  have nothing : (others.map trim).filter (!·.isEmpty) = [] := by
    rw [List.filter_eq_nil_iff]
    intro other member
    obtain ⟨piece, listed, rfl⟩ := List.mem_map.mp member
    simp [blank piece listed]
  rw [splitStatements, found, List.map_cons, List.filter_cons, nothing] at one
  split at one
  · next nonempty =>
    obtain ⟨rfl, _⟩ := List.cons.inj one
    exact ⟨String.toList_ofList, by simpa using nonempty⟩
  · cases one

/-- A statement whose quotes are closed is what is left of it, without the blanks around it. -/
theorem Scan.statement {m s u n : List Char} {last : ScriptScan} {script text : String}
    (scan : Scan .code s u last) (outside : last = .code ∨ last = .lineComment)
    (before : ∀ c ∈ m, isBlank c = true) (ends : IsTrail n) (split : script.toList = m ++ s ++ n)
    (one : splitStatements script = [text]) : statementBody text.toList = trim u ∧ trim u ≠ [] := by
  obtain ⟨piece, others, found⟩ := List.exists_cons_of_ne_nil (pieces_ne_nil last n)
  have blank := trail_blank ends outside
  rw [found] at blank
  obtain ⟨first, rest⟩ := List.forall_mem_cons.mp blank
  have whole := (scan.blanks before).pieces ends.alone found
  rw [← split] at whole
  obtain ⟨same, nonempty⟩ := statement_first whole (fun other member => trim_blank (rest other member)) one
  rw [trim_around before first] at same nonempty
  refine ⟨?_, nonempty⟩
  rw [same]
  exact scan.body (by rcases outside with rfl | rfl <;> simp) nonempty

/-- Where quotes stay open, what is taken off the end of a statement is what was taken off the end of
its body. -/
theorem Scan.statement_open {m s u n : List Char} {q : Char} {script text : String}
    (scan : Scan .code s u (.quoted q)) (before : ∀ c ∈ m, isBlank c = true) (ends : IsTrail n)
    (split : script.toList = m ++ s ++ n) (body : s = statementBody script.toList)
    (one : splitStatements script = [text]) : statementBody text.toList = trim u ∧ trim u ≠ [] := by
  obtain ⟨state, _⟩ | ⟨x, x', y, known, rfl, rfl⟩ := scan.unclosed rfl
  · cases state
  obtain ⟨p, _, same⟩ := statementBody_quote known x
  obtain ⟨p', nonempty, same'⟩ := statementBody_quote known x'
  have ended : dropEndWhile isBlank y = statementEnd (y ++ n) := by
    have trimmed : trim (x ++ q :: y) = x ++ q :: y := by rw [body, statementBody, trim_trim]
    have whole : statementBody script.toList = statementBody (x ++ q :: (y ++ n)) := by
      have around := statementBody_around before (n := []) (by simp) (x ++ q :: (y ++ n))
      rw [← around, split]
      simp
    rw [← body, (same _).2, ← trimmed, (same _).1] at whole
    exact List.append_cancel_left whole
  have found := (scan.blanks before).pieces ends.alone (pieces_trail_quoted known ends)
  rw [← split] at found
  have inner : trim (m ++ (x' ++ q :: y) ++ n) = trim (x' ++ q :: (y ++ n)) := by
    have around := trim_around before (n := []) (by simp) (x' ++ q :: (y ++ n))
    simpa using around
  have text_eq := (statement_first found (by simp) one).1
  rw [text_eq, inner, statementBody, trim_trim, ← statementBody, (same' _).2, (same' _).1, ended]
  exact ⟨rfl, by simp [nonempty]⟩

/-- Where a script has one statement and its comments end, the statement without comments is what
is left of its body. -/
theorem body_of_split {script text : String} {u : List Char}
    (tidy : ScriptScan.code.tidy script.toList = true) (one : splitStatements script = [text])
    (single : ScriptScan.code.pieces (statementBody script.toList) = [u]) :
    Strips .code (statementBody script.toList) u ∧ statementBody text.toList = trim u
      ∧ trim u ≠ [] := by
  obtain ⟨m, n, split, before, ends⟩ := statementBody_split script.toList
  obtain ⟨last, scan⟩ := scan_of_pieces single
  have trimmed : trim (statementBody script.toList) = statementBody script.toList := by
    rw [statementBody, trim_trim]
  have line : (statementBody script.toList).getLast? ≠ some '\r' := by
    intro carriage
    have nonempty : trim (statementBody script.toList) ≠ [] := by
      rw [trimmed]
      intro empty
      rw [empty] at carriage
      cases carriage
    obtain ⟨d, found, solid⟩ := (trimmed_trim nonempty).ends
    rw [trimmed, carriage] at found
    rw [← Option.some.inj found] at solid
    exact absurd solid (by decide)
  have kept := tidy
  rw [split, List.append_assoc, tidy_blanks before] at kept
  obtain ⟨closed, finished⟩ := scan.tidy ends line kept
  refine ⟨⟨closed, single⟩, ?_⟩
  cases last with
  | code => exact scan.statement (.inl rfl) before ends split one
  | lineComment => exact scan.statement (.inr rfl) before ends split one
  | blockComment star => exact absurd rfl (finished star)
  | quoted q => exact scan.statement_open before ends split rfl one

end SqlDialects
