import SqlDialects.Proofs.Conversion.ColumnNames
import SqlDialects.Proofs.Grammar.Comments
import SqlDialects.Proofs.Grammar.RewordedText

/-
The elements of a calm table definition. They are calm, and so is what follows the type of a column,
unless the type has ended inside quotes. Then some token leaves a quote open.
-/
namespace SqlDialects

open Reader Text Nesting

/-! The elements of a definition. -/

theorem Clear.tidy {state last : ScriptScan} {s : List Char} (clear : Clear state s last)
    (ended : ∀ star, state ≠ .blockComment star) : state.tidy s = true := by
  induction clear with
  | nil state =>
    cases state with
    | blockComment star => exact absurd rfl (ended star)
    | _ => rfl
  | plain unquoted _ alone _ ih =>
    rw [tidy_code alone, unquoted]
    exact ih nofun
  | @quote q s _ known _ ih =>
    have alone : opensComment q s.head? = false :=
      opensComment_eq_false.mpr (by constructor <;> (rintro rfl; cases known))
    rw [tidy_code alone, if_pos known]
    exact ih nofun
  | quoted inside _ ih =>
    rw [ScriptScan.tidy, if_neg inside]
    exact ih nofun
  | close _ _ ih =>
    rw [ScriptScan.tidy, if_pos rfl]
    exact ih nofun

theorem tableHead_clear {s rest : List Char} {name : String} (calm : Calm s)
    (read : tableHead s = .ok (name, rest)) : ∃ last, Clear .code rest last := by
  have bare : Uncommented s s := by
    refine ⟨[], by simp, Clear.tidy calm nofun, ?_⟩
    rw [List.append_nil]
    exact Clear.whole calm
  obtain ⟨_, again, g, _, strips⟩ := tableHead_uncommented.there s s name rest bare read
  cases read.symm.trans again
  have pieces := @clear_pieces .code rest nofun
  rw [strips.pieces] at pieces
  obtain ⟨last, clear⟩ := pieces.clear rfl List.mem_cons_self
  obtain ⟨mid, front, _⟩ := clear.append
  exact ⟨mid, front⟩

theorem calm_parts {parts : List (List Char)} {last : ScriptScan}
    (closed : ∀ part ∈ parts, Nesting.quoteBehind none part = none)
    (clear : Clear .code ([','].intercalate parts) last) : ∀ part ∈ parts, Calm part := by
  induction parts with
  | nil => exact fun part member => absurd member List.not_mem_nil
  | cons part parts ih =>
    obtain ⟨first, others⟩ := List.forall_mem_cons.mp closed
    cases parts with
    | nil =>
      rw [List.intercalate_singleton] at clear
      exact List.forall_mem_singleton.mpr (clear.calm first)
    | cons next parts =>
      rw [List.intercalate_cons_cons, List.append_assoc] at clear
      obtain ⟨front, later⟩ := clear.split first
      exact List.forall_mem_cons.mpr ⟨front, ih others (later.split rfl).2⟩

theorem ofText_calm {s : List Char} {table : TableDefinition} (calm : Calm s)
    (read : TableDefinition.ofText? s = some table) :
    ∃ elements, ReadOf elements table ∧ ∀ element ∈ elements, Calm element := by
  rw [TableDefinition.ofText?] at read
  split at read
  · cases read
  · next name rest head =>
    split at read
    · cases read
    · next body tail cut =>
      obtain ⟨joined, balanced, split, _⟩ := body_falls_into_parts cut
      refine ⟨_, ReadOf.addElements ⟨by simp, by simp⟩ (fun _ member => member) read, ?_⟩
      refine List.forall_mem_map.mpr fun piece member => Clear.trim ?_
      obtain ⟨last, later⟩ := tableHead_clear calm head
      rw [split, ← joined] at later
      obtain ⟨mid, inside, _⟩ := later.append
      exact calm_parts (fun part listed => (balanced part listed).1.closed) inside piece member

/-! What follows the type of a column. -/

theorem tokensFrom_calm {nesting : Nesting} {token s : List Char}
    (closed : ∀ t ∈ tokensFrom nesting token s, Nesting.quoteBehind none t = none) :
    Nesting.quoteBehind none (token ++ s) = none
      ∧ ∀ {last}, Clear .code (token ++ s) last → ∀ t ∈ tokensFrom nesting token s, Calm t := by
  induction s generalizing nesting token with
  | nil =>
    rw [List.append_nil]
    rw [tokensFrom] at closed ⊢
    split at closed
    · next empty =>
      rw [if_pos empty, List.isEmpty_iff.mp empty]
      exact ⟨rfl, fun _ t member => absurd member List.not_mem_nil⟩
    · next nonempty =>
      have shut := closed token List.mem_cons_self
      rw [if_neg nonempty]
      exact ⟨shut, fun clear => List.forall_mem_singleton.mpr (clear.calm shut)⟩
  | cons c s ih =>
    rw [tokensFrom] at closed ⊢
    split at closed
    · next stopped =>
      have blank : Nesting.quoteBehind none [c] = none :=
        behind_plain isOpen_none (List.forall_mem_singleton.mpr
          (blank_unquoted (Bool.and_eq_true_iff.mp stopped).1))
      have shut : Nesting.quoteBehind none token = none
          ∧ ∀ t ∈ tokensFrom nesting [] s, Nesting.quoteBehind none t = none := by
        split at closed
        · next empty => exact ⟨by rw [List.isEmpty_iff.mp empty]; rfl, closed⟩
        · exact List.forall_mem_cons.mp closed
      obtain ⟨first, later⟩ := shut
      obtain ⟨rest, each⟩ := ih later
      refine ⟨?_, fun clear => ?_⟩
      · rw [quoteBehind_append, first, ← List.singleton_append, quoteBehind_append, blank]
        exact rest
      obtain ⟨front, behind⟩ := clear.split first
      have others := (@Clear.split [c] s _ behind blank).2
      rw [if_pos stopped]
      split
      · exact each others
      · exact List.forall_mem_cons.mpr ⟨front, each others⟩
    · next passed =>
      have longer := ih closed
      rw [List.append_assoc, List.singleton_append] at longer
      rw [if_neg passed]
      exact longer

theorem kept_default {word : String} (same : sameIgnoringCase word "DEFAULT" = true) :
    Kept word.toList :=
  kept_word fun c member => nameCharacter_of_isAlpha c ((default_letters (default_word same)).2 c member)

theorem joined_text (word value : String) :
    (word ++ " " ++ value).toList = word.toList ++ ([' '] ++ value.toList) := by simp

theorem joinDefaults_closed {tokens : List String}
    (each : ∀ token ∈ joinDefaults tokens, Nesting.quoteBehind none token.toList = none) :
    ∀ token ∈ tokens, Nesting.quoteBehind none token.toList = none := by
  fun_induction joinDefaults tokens with
  | case1 => exact fun token member => absurd member List.not_mem_nil
  | case2 token => exact each
  | case3 word value rest same ih =>
    obtain ⟨joined, later⟩ := List.forall_mem_cons.mp each
    have first := (kept_default same).isCalm.closed
    rw [joined_text, quoteBehind_append, first] at joined
    exact List.forall_mem_cons.mpr ⟨first, List.forall_mem_cons.mpr ⟨joined, ih later⟩⟩
  | case4 word value rest other ih =>
    obtain ⟨first, later⟩ := List.forall_mem_cons.mp each
    exact List.forall_mem_cons.mpr ⟨first, ih later⟩

theorem specTokens_calm {s : List Char}
    (closed : ∀ token ∈ specTokens s, Nesting.quoteBehind none token.toList = none) :
    Nesting.quoteBehind none s = none
      ∧ ∀ {last}, Clear .code s last → ∀ token ∈ specTokens s, Calm token.toList := by
  have shut : ∀ t ∈ tokens s, Nesting.quoteBehind none t = none := by
    intro t member
    have found := joinDefaults_closed closed (String.ofList t) (List.mem_map_of_mem member)
    rwa [String.toList_ofList] at found
  obtain ⟨whole, each⟩ := tokensFrom_calm shut
  refine ⟨whole, fun clear token member => ?_⟩
  have split : ∀ token ∈ (tokens s).map String.ofList, Calm token.toList :=
    List.forall_mem_map.mpr fun t listed => by
      rw [String.toList_ofList]
      exact each clear t listed
  rcases joinDefaults_cases token member with listed | ⟨word, value, same, listed, rfl⟩
  · exact split token listed
  · rw [joined_text]
    exact (kept_default same).before ((kept_ordinary (c := ' ') rfl).before (split value listed))

/-! Columns. -/

theorem quoteBehind_injective {p q : Option Char} (known : IsOpen p) (also : IsOpen q) {s : List Char}
    (same : Nesting.quoteBehind p s = Nesting.quoteBehind q s) : p = q := by
  induction s generalizing p q with
  | nil => cases p <;> cases q <;> exact same
  | cons c s ih =>
    rw [← List.singleton_append, quoteBehind_append, quoteBehind_append q] at same
    have next : Nesting.quoteBehind p [c] = Nesting.quoteBehind q [c] := ih (known.behind [c]) (also.behind [c]) same
    cases p with
    | none =>
      cases q with
      | none => rfl
      | some b =>
        have quote := also b rfl
        by_cases equal : c = b <;> grind [Nesting.quoteBehind]
    | some a =>
      have quote := known a rfl
      cases q with
      | none => by_cases equal : c = a <;> grind [Nesting.quoteBehind]
      | some b => by_cases equal : c = a <;> grind [Nesting.quoteBehind]

/-- The type of a column with a default has not ended inside quotes: no token behind it leaves a quote
open. -/
def Column.TypeCloses (column : Column) : Prop :=
  ∀ default ∈ column.specs, "DEFAULT".toList.isPrefixOf (Text.upper default).toList = true →
    ∀ token ∈ column.specs, Nesting.quoteBehind none token.toList = none

def Column.CalmDefaults (column : Column) : Prop :=
  ∀ token ∈ column.specs, "DEFAULT".toList.isPrefixOf (Text.upper token).toList = true →
    Calm token.toList

theorem columnElement_calm {element : List Char} {column : Column} (calm : Calm element)
    (read : columnElement? element = some column) (closes : column.TypeCloses) :
    column.CalmDefaults := by
  rw [columnElement?] at read
  split at read
  · cases read
  · next name rest named =>
    split at read
    · cases read
    · next type specs typed =>
      cases read
      intro token member begins
      obtain ⟨shut, each⟩ := specTokens_calm (closes token member begins)
      -- The scan of the element stands outside quotes where the tokens begin.
      have suffix := (Alike.leaves (fun _ => advances_dataType) typed).trans
        (Alike.leaves (fun _ => advances_identifier) named)
      obtain ⟨front, rfl⟩ := suffix
      have outside : Nesting.quoteBehind none front = none := by
        refine quoteBehind_injective (isOpen_none.behind front) isOpen_none (s := specs) ?_
        rw [← quoteBehind_append, calm.closed, shut]
      exact each (Clear.split calm outside).2 token member

theorem columns_calm {s : List Char} {table : TableDefinition} (calm : Calm s)
    (read : TableDefinition.ofText? s = some table)
    (closes : ∀ column ∈ table.columns, column.TypeCloses) :
    ∀ column ∈ table.columns, column.CalmDefaults := by
  intro column member
  obtain ⟨elements, readOf, each⟩ := ofText_calm calm read
  obtain ⟨element, listed, found⟩ := readOf.columns column member
  exact columnElement_calm (each element listed) found (closes column member)

end SqlDialects
