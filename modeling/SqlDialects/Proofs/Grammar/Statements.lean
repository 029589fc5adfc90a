import SqlDialects.Proofs.Grammar.Bodies

/-
The statements of a script, split off once more. What a script leaves between two semicolons opens
no comment and holds no semicolon outside quotes, and only its last statement can end inside quotes.
So each statement is the one statement of its own text, and the statements written one behind the
other are a script of the same statements.
-/
namespace SqlDialects

open Text Nesting

/-! Texts that a script leaves as they stand. -/

/-- Where a scan stands before a text and behind it, if nothing in the text opens a comment or ends
a statement. -/
inductive Clear : ScriptScan → List Char → ScriptScan → Prop
  | nil (state : ScriptScan) : Clear state [] state
  | plain {c : Char} {s : List Char} {last : ScriptScan} (unquoted : isQuote c = false)
      (inside : c ≠ ';') (alone : opensComment c s.head? = false) (later : Clear .code s last) :
      Clear .code (c :: s) last
  | quote {q : Char} {s : List Char} {last : ScriptScan} (known : isQuote q = true)
      (later : Clear (.quoted q) s last) : Clear .code (q :: s) last
  | quoted {q c : Char} {s : List Char} {last : ScriptScan} (inside : c ≠ q)
      (later : Clear (.quoted q) s last) : Clear (.quoted q) (c :: s) last
  | close {q : Char} {s : List Char} {last : ScriptScan} (known : isQuote q = true)
      (later : Clear .code s last) : Clear (.quoted q) (q :: s) last

theorem Clear.scan {state last : ScriptScan} {s : List Char} (clear : Clear state s last) :
    Scan state s s last := by
  induction clear with
  | nil state => exact .nil state
  | plain unquoted inside alone _ ih => exact .plain unquoted inside alone ih
  | quote known _ ih => exact .quote known ih
  | quoted inside _ ih => exact .quoted inside ih
  | close _ _ ih => exact .close ih

theorem Clear.append {state last : ScriptScan} {s n : List Char}
    (clear : Clear state (s ++ n) last) : ∃ mid, Clear state s mid ∧ Clear mid n last := by
  induction s generalizing state with
  | nil => exact ⟨state, .nil state, clear⟩
  | cons c s ih =>
    cases clear with
    | plain unquoted inside alone later =>
      obtain ⟨mid, first, second⟩ := ih later
      have unopened : opensComment c s.head? = false := by
        cases s with
        | nil => simp [opensComment]
        | cons d s => exact alone
      exact ⟨mid, .plain unquoted inside unopened first, second⟩
    | quote known later =>
      obtain ⟨mid, first, second⟩ := ih later
      exact ⟨mid, .quote known first, second⟩
    | quoted inside later =>
      obtain ⟨mid, first, second⟩ := ih later
      exact ⟨mid, .quoted inside first, second⟩
    | close known later =>
      obtain ⟨mid, first, second⟩ := ih later
      exact ⟨mid, .close known first, second⟩

theorem blank_unquoted {c : Char} (blank : isBlank c = true) : isQuote c = false :=
  blank_cases (P := fun c => isQuote c = false) (by decide) c blank

theorem Clear.behind_plain {state last : ScriptScan} {m s : List Char} (clear : Clear state (m ++ s) last)
    (plain : ∀ c ∈ m, isQuote c = false) : Clear state s last := by
  induction m with
  | nil => exact clear
  | cons c m ih =>
    have unquoted := plain c List.mem_cons_self
    have others := fun d member => plain d (.tail c member)
    cases clear with
    | plain _ _ _ later => exact ih later others
    | quoted _ later => exact ih later others
    | quote known _ => exact absurd (known.symm.trans unquoted) (by decide)
    | close known _ => exact absurd (known.symm.trans unquoted) (by decide)

theorem Clear.before_blanks {state last : ScriptScan} {n : List Char} (clear : Clear state n last)
    (blank : ∀ c ∈ n, isBlank c = true) : last = state := by
  induction clear with
  | nil => rfl
  | plain _ _ _ _ ih => exact ih fun d member => blank d (.tail _ member)
  | quoted _ _ ih => exact ih fun d member => blank d (.tail _ member)
  | quote known _ _ =>
    exact absurd (known.symm.trans (blank_unquoted (blank _ List.mem_cons_self))) (by decide)
  | close known _ _ =>
    exact absurd (known.symm.trans (blank_unquoted (blank _ List.mem_cons_self))) (by decide)

theorem Clear.trim {s : List Char} {last : ScriptScan} (clear : Clear .code s last) :
    Clear .code (Text.trim s) last := by
  obtain ⟨m, n, split, before, behind⟩ := trim_split s
  rw [split] at clear
  obtain ⟨mid, first, second⟩ := clear.append
  rw [second.before_blanks behind]
  exact first.behind_plain fun c member => blank_unquoted (before c member)

/-! The pieces of a script. -/

inductive ClearPieces : ScriptScan → List (List Char) → Prop
  | nil : ClearPieces .code []
  | one {state last : ScriptScan} {s : List Char} (clear : Clear state s last) :
      ClearPieces state [s]
  | cons {state : ScriptScan} {s : List Char} {pieces : List (List Char)}
      (clear : Clear state s .code) (later : ClearPieces .code pieces) :
      ClearPieces state (s :: pieces)

/-- A step that puts one character in front of a piece puts it in front of the first one. -/
theorem ClearPieces.prepend {state before : ScriptScan} {c : Char} {pieces : List (List Char)}
    (clear : ClearPieces state pieces) (nonempty : pieces ≠ [])
    (step : ∀ s others last, pieces = s :: others → Clear state s last →
      Clear before (c :: s) last) : ClearPieces before (Text.prepend c pieces) := by
  cases clear with
  | nil => exact absurd rfl nonempty
  | one clear => exact .one (step _ _ _ rfl clear)
  | cons clear later => exact .cons (step _ _ _ rfl clear) later

/-- Where a piece begins: a comment leaves nothing behind. -/
def pieceStart : ScriptScan → ScriptScan
  | .quoted q => .quoted q
  | _ => .code

theorem pieces_head {state : ScriptScan} {s piece : List Char} {others : List (List Char)}
    (found : state.pieces s = piece :: others) (start : state = .code ∨ state = .lineComment) :
    piece.head? ∈ [none, some ' ', some '\n'] ∨ state = .code ∧ piece.head? = s.head? := by
  have prepended : ∀ {c : Char} {pieces : List (List Char)},
      Text.prepend c pieces = piece :: others → piece.head? = some c := by
    intro c pieces same
    cases pieces with
    | nil =>
      obtain ⟨rfl, _⟩ := List.cons.inj same
      rfl
    | cons first pieces =>
      obtain ⟨rfl, _⟩ := List.cons.inj same
      rfl
  fun_induction ScriptScan.pieces state s with
  | case1 =>
    obtain ⟨rfl, _⟩ := List.cons.inj found
    simp
  | case2 => simp at start
  | case3 rest ih =>
    rw [prepended found]
    simp
  | case4 c rest other ih =>
    rcases ih found (.inr rfl) with known | ⟨state, _⟩
    · exact .inl known
    · cases state
  | case5 => simp at start
  | case6 => simp at start
  | case7 rest ih =>
    rcases ih found (.inr rfl) with known | ⟨state, _⟩
    · exact .inl known
    · cases state
  | case8 rest ih =>
    rw [prepended found]
    simp
  | case9 c rest _ _ quote ih => exact .inr ⟨rfl, prepended found⟩
  | case10 rest _ _ _ ih =>
    obtain ⟨rfl, _⟩ := List.cons.inj found
    simp
  | case11 c rest _ _ _ _ ih => exact .inr ⟨rfl, prepended found⟩

theorem alone_before_piece {c : Char} {s piece : List Char} {others : List (List Char)}
    (found : ScriptScan.code.pieces s = piece :: others) (alone : opensComment c s.head? = false) :
    opensComment c piece.head? = false := by
  rcases pieces_head found (.inl rfl) with known | ⟨_, same⟩
  · simp only [List.mem_cons, List.not_mem_nil, or_false] at known
    rcases known with none | blank | feed
    · simp [opensComment, none]
    · simp [opensComment, blank]
    · simp [opensComment, feed]
  · rwa [same]

theorem clear_pieces {state : ScriptScan} {s : List Char}
    (known : ∀ q, state = .quoted q → isQuote q = true) :
    ClearPieces (pieceStart state) (state.pieces s) := by
  have outside : ∀ {state : ScriptScan}, (∀ q, state ≠ .quoted q) →
      ∀ q, state = .quoted q → isQuote q = true := fun other q same => absurd same (other q)
  have blank : ∀ {c : Char}, c = ' ' ∨ c = '\n' → ∀ s last, Clear .code s last →
      Clear .code (c :: s) last := by
    rintro c (rfl | rfl) s last clear
    · exact .plain rfl (by decide) (by simp [opensComment]) clear
    · exact .plain rfl (by decide) (by simp [opensComment]) clear
  fun_induction ScriptScan.pieces state s with
  | case1 state => exact .one (.nil _)
  | case2 q c rest ih =>
    have quote : isQuote q = true := known q rfl
    by_cases closes : c = q
    · subst closes
      rw [if_pos rfl] at ih ⊢
      exact (ih (outside (by simp))).prepend (pieces_ne_nil _ _) fun s others last _ clear => .close quote clear
    · rw [if_neg closes] at ih ⊢
      exact (ih known).prepend (pieces_ne_nil _ _) fun s others last _ clear => .quoted closes clear
  | case3 rest ih =>
    exact (ih (outside (by simp))).prepend (pieces_ne_nil _ _) fun s others last _ => blank (.inr rfl) s last
  | case4 c rest other ih => exact ih (outside (by simp))
  | case5 star c rest closes ih => exact ih (outside (by simp))
  | case6 star c rest inside ih => exact ih (outside (by simp))
  | case7 rest ih => exact ih (outside (by simp))
  | case8 rest ih =>
    exact (ih (outside (by simp))).prepend (pieces_ne_nil _ _) fun s others last _ => blank (.inl rfl) s last
  | case9 c rest _ _ quote ih =>
    refine (ih ?_).prepend (pieces_ne_nil _ _) fun s others last _ clear => .quote quote clear
    intro q same
    cases same
    exact quote
  | case10 rest _ _ _ ih => exact .cons (.nil _) (ih (outside (by simp)))
  | case11 c rest line block unquoted inside ih =>
    exact (ih (outside (by simp))).prepend (pieces_ne_nil _ _) fun s others last found clear =>
      .plain (by simpa using unquoted) inside (alone_before_piece found (alone_tail line block)) clear

theorem ClearPieces.statements {pieces : List (List Char)} (clear : ClearPieces .code pieces) :
    ClearPieces .code ((pieces.map Text.trim).filter (!·.isEmpty)) := by
  generalize start : ScriptScan.code = state at clear
  induction clear with
  | nil => exact .nil
  | one clear =>
    subst start
    rw [List.map_singleton, List.filter_cons]
    split
    · exact .one clear.trim
    · exact .nil
  | cons clear later ih =>
    subst start
    rw [List.map_cons, List.filter_cons]
    split
    · exact .cons clear.trim (ih rfl)
    · exact ih rfl

/-! Statements one behind the other. -/

theorem ClearPieces.clear {pieces : List (List Char)} {s : List Char} {state : ScriptScan}
    (clear : ClearPieces state pieces) (start : state = .code) (member : s ∈ pieces) :
    ∃ last, Clear .code s last := by
  induction clear with
  | nil => cases member
  | one clear =>
    subst start
    rw [List.mem_singleton.mp member]
    exact ⟨_, clear⟩
  | cons clear _ ih =>
    subst start
    rcases List.mem_cons.mp member with rfl | member
    · exact ⟨_, clear⟩
    · exact ih rfl member

theorem Clear.whole {s : List Char} {last : ScriptScan} (clear : Clear .code s last) :
    ScriptScan.code.pieces s = [s] := by
  have empty : last.pieces [] = [[]] := by rw [ScriptScan.pieces]
  simpa using clear.scan.pieces (fun c => by simp [opensComment]) empty

theorem Clear.ended {s : List Char} (clear : Clear .code s .code) (rest : List Char) :
    ScriptScan.code.pieces (s ++ ';' :: rest) = s :: ScriptScan.code.pieces rest := by
  have ended : ScriptScan.code.pieces (';' :: rest) = [] :: ScriptScan.code.pieces rest :=
    pieces_code (alone_other (by decide) (by decide) _)
  simpa using clear.scan.pieces (fun c => by simp [opensComment]) ended

theorem pieces_feed (s : List Char) :
    (ScriptScan.code.pieces ('\n' :: s)).map Text.trim
      = (ScriptScan.code.pieces s).map Text.trim := by
  have feed : ScriptScan.code.pieces ('\n' :: s) = Text.prepend '\n' (ScriptScan.code.pieces s) :=
    pieces_code (alone_other (by decide) (by decide) _)
  obtain ⟨piece, others, found⟩ := List.exists_cons_of_ne_nil (pieces_ne_nil .code s)
  have blank : ∀ c ∈ ['\n'], isBlank c = true := by simp [isBlank]; rfl
  have trimmed : Text.trim ('\n' :: piece) = Text.trim piece := by
    simpa using trim_around (n := []) blank (by simp) piece
  rw [feed, found, Text.prepend, List.map_cons, List.map_cons, trimmed]

theorem ClearPieces.joined {pieces : List (List Char)} (clear : ClearPieces .code pieces)
    (nonempty : pieces ≠ []) :
    (ScriptScan.code.pieces ([';', '\n'].intercalate pieces)).map Text.trim
      = pieces.map Text.trim := by
  generalize start : ScriptScan.code = state at clear
  induction clear with
  | nil => exact absurd rfl nonempty
  | one clear =>
    subst start
    simp [List.intercalate, clear.whole]
  | @cons _ s pieces clear later ih =>
    subst start
    cases pieces with
    | nil => simp [List.intercalate, clear.whole]
    | cons t pieces =>
      have rest := ih (by simp) rfl
      have split : [';', '\n'].intercalate (s :: t :: pieces)
          = s ++ ';' :: '\n' :: [';', '\n'].intercalate (t :: pieces) := by simp
      rw [split, clear.ended, List.map_cons, pieces_feed, rest]
      rfl

/-! Splitting once more. -/

theorem splitStatements_toList (script : String) :
    (splitStatements script).map String.toList
      = ((ScriptScan.code.pieces script.toList).map Text.trim).filter (!·.isEmpty) := by
  simp [splitStatements, Function.comp_def]

theorem trimmed_statement {script text : String} (member : text ∈ splitStatements script) :
    Trimmed text.toList := by
  have listed : text.toList ∈ (splitStatements script).map String.toList := List.mem_map_of_mem member
  rw [splitStatements_toList, List.mem_filter] at listed
  obtain ⟨mapped, nonempty⟩ := listed
  obtain ⟨piece, _, same⟩ := List.mem_map.mp mapped
  rw [← same] at nonempty ⊢
  exact trimmed_trim (by simpa using nonempty)

theorem clear_statements (script : String) :
    ClearPieces .code ((splitStatements script).map String.toList) := by
  rw [splitStatements_toList]
  exact ClearPieces.statements (@clear_pieces .code _ (by simp))

theorem map_trim_statements (script : String) :
    ((splitStatements script).map String.toList).map Text.trim
      = (splitStatements script).map String.toList := by
  rw [List.map_map]
  exact List.map_congr_left fun text member => (trimmed_statement member).trim

theorem split_clear {text : String} {last : ScriptScan} (clear : Clear .code text.toList last)
    (trimmed : Trimmed text.toList) : splitStatements text = [text] := by
  have nonempty : text.toList.isEmpty = false := by simpa using trimmed.ne_nil
  simp [splitStatements, clear.whole, trimmed.trim, nonempty]

theorem split_joined (script : String) :
    splitStatements (";\n".intercalate (splitStatements script)) = splitStatements script := by
  have filtered : ((splitStatements script).map String.toList).filter (!·.isEmpty)
      = (splitStatements script).map String.toList := by
    rw [splitStatements_toList, List.filter_filter]
    simp
  by_cases none : splitStatements script = []
  · rw [none]
    rfl
  · refine List.map_injective_iff.mpr (fun _ _ => String.toList_inj.mp) ?_
    calc (splitStatements (";\n".intercalate (splitStatements script))).map String.toList
        = ((ScriptScan.code.pieces
            ([';', '\n'].intercalate ((splitStatements script).map String.toList))).map
              Text.trim).filter (!·.isEmpty) := by
          rw [splitStatements_toList, String.toList_intercalate]
          rfl
      _ = (((splitStatements script).map String.toList).map Text.trim).filter (!·.isEmpty) := by
          rw [(clear_statements script).joined (by simpa using none)]
      _ = (splitStatements script).map String.toList := by rw [map_trim_statements, filtered]

/-- Every statement of a script begins and ends in characters that are not blank and is the one
statement of its own text, and the statements with a semicolon and a line feed between them are a
script of the same statements. -/
theorem splitStatements_stable (script : String) :
    (∀ text ∈ splitStatements script, Trimmed text.toList ∧ splitStatements text = [text])
      ∧ splitStatements (";\n".intercalate (splitStatements script)) = splitStatements script := by
  refine ⟨fun text member => ?_, split_joined script⟩
  obtain ⟨last, clear⟩ := (clear_statements script).clear rfl (List.mem_map_of_mem member)
  exact ⟨trimmed_statement member, split_clear clear (trimmed_statement member)⟩

/-- Comments with semicolons and quotes in them, an empty statement, and a quote left open. -/
def scribbled : String := "SELECT 1 -- a;\x27b\n; /* ; */ SELECT \x27;\x27 ;; \"x -- y;"

theorem scribbled_stable :
    splitStatements scribbled = ["SELECT 1", "SELECT \x27;\x27", "\"x -- y;"]
      ∧ splitStatements "\"x -- y;" = ["\"x -- y;"]
      ∧ splitStatements "SELECT 1;\nSELECT \x27;\x27;\n\"x -- y;" = splitStatements scribbled := by
  have split : splitStatements scribbled = ["SELECT 1", "SELECT \x27;\x27", "\"x -- y;"] := by
    decide +kernel
  obtain ⟨each, joined⟩ := splitStatements_stable scribbled
  rw [split] at each joined ⊢
  exact ⟨rfl, (each _ (by simp)).2, joined⟩

end SqlDialects
