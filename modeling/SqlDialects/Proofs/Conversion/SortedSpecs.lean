import SqlDialects.Proofs.Conversion.ColumnNames

/-
How the tokens behind the type of a column are sorted. Each token falls into one clause, in order: a
`NOT NULL` or a default that is kept, a `PRIMARY KEY` that is left to the key, a `NULL` that says
nothing, or a token that is not written.
-/
namespace SqlDialects

open Reader Nesting

/-! Clauses. -/

inductive Clause where
  | notNull (first second : String)
  | primaryKey (first second : String)
  | null (token : String)
  | default (token : String)
  | other (token : String)
  deriving DecidableEq, Repr

namespace Clause

def tokens : Clause → List String
  | notNull first second | primaryKey first second => [first, second]
  | null token | default token | other token => [token]

def kept? : Clause → Option String
  | notNull _ _ => some "NOT NULL"
  | default token => some token
  | primaryKey _ _ | null _ | other _ => none

def discarded? : Clause → Option String
  | other token => some token
  | notNull _ _ | primaryKey _ _ | null _ | default _ => none

def isPrimaryKey : Clause → Bool
  | primaryKey _ _ => true
  | notNull _ _ | null _ | default _ | other _ => false

def Fits : Clause → Prop
  | notNull first second =>
    Text.sameIgnoringCase first "NOT" = true ∧ Text.sameIgnoringCase second "NULL" = true
  | primaryKey first second =>
    Text.sameIgnoringCase first "PRIMARY" = true ∧ Text.sameIgnoringCase second "KEY" = true
  | null token => Text.sameIgnoringCase token "NULL" = true
  | default token => "DEFAULT".toList.isPrefixOf (Text.upper token).toList = true
  | other token => Text.sameIgnoringCase token "NULL" = false
      ∧ "DEFAULT".toList.isPrefixOf (Text.upper token).toList = false

def ofToken (token : String) : Clause :=
  if Text.sameIgnoringCase token "NULL" then .null token
  else if "DEFAULT".toList.isPrefixOf (Text.upper token).toList then .default token
  else .other token

def ofSpecs : List String → List Clause
  | [] => []
  | [token] => [ofToken token]
  | first :: second :: rest =>
    if Text.sameIgnoringCase first "NOT" && Text.sameIgnoringCase second "NULL" then
      .notNull first second :: ofSpecs rest
    else if Text.sameIgnoringCase first "PRIMARY" && Text.sameIgnoringCase second "KEY" then
      .primaryKey first second :: ofSpecs rest
    else ofToken first :: ofSpecs (second :: rest)

theorem tokens_ne_nil (clause : Clause) : clause.tokens ≠ [] := by
  cases clause <;> exact List.cons_ne_nil _ _

theorem ofToken_tokens (token : String) : (ofToken token).tokens = [token] := by
  rw [ofToken]
  split
  · rfl
  · split <;> rfl

theorem ofToken_fits (token : String) : (ofToken token).Fits := by
  rw [ofToken]
  split
  · next null => exact null
  · next solid =>
    split
    · next begins => exact begins
    · next plain => exact ⟨Bool.eq_false_iff.mpr solid, Bool.eq_false_iff.mpr plain⟩

theorem ofToken_isPrimaryKey (token : String) : (ofToken token).isPrimaryKey = false := by
  rw [ofToken]
  split
  · rfl
  · split <;> rfl

theorem ofSpecs_tokens (specs : List String) : (ofSpecs specs).flatMap tokens = specs := by
  fun_induction ofSpecs specs with
  | case1 => rfl
  | case2 token => simp [ofToken_tokens]
  | case3 first second rest _ ih => simp [tokens, ih]
  | case4 first second rest _ _ ih => simp [tokens, ih]
  | case5 first second rest _ _ ih => simp [ofToken_tokens, ih]

theorem ofSpecs_fits (specs : List String) : ∀ clause ∈ ofSpecs specs, clause.Fits := by
  fun_induction ofSpecs specs with
  | case1 => exact fun clause member => nomatch member
  | case2 token => simpa using ofToken_fits token
  | case3 first second rest found ih =>
    exact List.forall_mem_cons.mpr ⟨(Bool.and_eq_true ..).mp found, ih⟩
  | case4 first second rest _ found ih =>
    exact List.forall_mem_cons.mpr ⟨(Bool.and_eq_true ..).mp found, ih⟩
  | case5 first second rest _ _ ih => exact List.forall_mem_cons.mpr ⟨ofToken_fits first, ih⟩

end Clause

theorem Constraints.add_clause (token : String) (constraints : Constraints) :
    (Constraints.add token constraints).kept = (Clause.ofToken token).kept?.toList ++ constraints.kept
      ∧ (Constraints.add token constraints).discarded
        = (Clause.ofToken token).discarded?.toList ++ constraints.discarded := by
  have null : Text.sameIgnoringCase token "NULL" = true ↔ Text.upper token = "NULL" := by
    rw [Text.sameIgnoringCase, beq_iff_eq]
    exact Iff.rfl
  rw [Constraints.add, Clause.ofToken]
  by_cases same : Text.upper token = "NULL"
  · simp [same, null, Clause.kept?, Clause.discarded?]
  · rw [if_neg same, if_neg (mt null.mp same)]
    split <;> exact ⟨rfl, rfl⟩

theorem Constraints.ofSpecs_clauses (specs : List String) :
    (Constraints.ofSpecs specs).kept = (Clause.ofSpecs specs).filterMap Clause.kept?
      ∧ (Constraints.ofSpecs specs).discarded
        = (Clause.ofSpecs specs).filterMap Clause.discarded? := by
  fun_induction Clause.ofSpecs specs with
  | case1 => exact ⟨rfl, rfl⟩
  | case2 token =>
    obtain ⟨kept, discarded⟩ := Constraints.add_clause token {}
    rw [Constraints.ofSpecs, kept, discarded]
    cases Clause.ofToken token <;> exact ⟨rfl, rfl⟩
  | case3 first second rest found ih =>
    rw [Constraints.ofSpecs, if_pos found]
    exact ⟨congrArg ("NOT NULL" :: ·) ih.1, ih.2⟩
  | case4 first second rest other found ih =>
    rw [Constraints.ofSpecs, if_neg other, if_pos found]
    exact ih
  | case5 first second rest other another ih =>
    obtain ⟨kept, discarded⟩ := Constraints.add_clause first (Constraints.ofSpecs (second :: rest))
    rw [Constraints.ofSpecs, if_neg other, if_neg another, kept, discarded, ih.1, ih.2]
    cases Clause.ofToken first <;> exact ⟨rfl, rfl⟩

/-- The key that a column is by itself is the clause that is left to it. A `PRIMARY` is never the
second token of a clause, so the scan stands in front of each one. -/
theorem hasPrimaryKey_clauses (specs : List String) :
    hasPrimaryKey specs = (Clause.ofSpecs specs).any Clause.isPrimaryKey := by
  have skipped : ∀ (word : String) {second : String} {rest : List String}, word ≠ "PRIMARY" →
      Text.upper word = word → Text.sameIgnoringCase second word = true →
      hasPrimaryKey (second :: rest) = hasPrimaryKey rest := by
    intro word second rest other upper same
    have unlike : Text.sameIgnoringCase second "PRIMARY" = false := by
      rw [Text.sameIgnoringCase, beq_iff_eq, upper] at same
      rw [Text.sameIgnoringCase, same, beq_eq_false_iff_ne]
      exact fun equal => other (equal.trans (by decide))
    cases rest with
    | nil => rfl
    | cons next rest => simp [hasPrimaryKey, unlike]
  fun_induction Clause.ofSpecs specs with
  | case1 => rfl
  | case2 token => simp [hasPrimaryKey, Clause.ofToken_isPrimaryKey]
  | case3 first second rest found ih =>
    obtain ⟨not, null⟩ := (Bool.and_eq_true ..).mp found
    rw [skipped "NOT" (by decide) (by decide) not, skipped "NULL" (by decide) (by decide) null, ih]
    rfl
  | case4 first second rest _ found ih =>
    rw [hasPrimaryKey, found]
    rfl
  | case5 first second rest _ other ih =>
    rw [hasPrimaryKey, Bool.eq_false_iff.mpr other, ih, List.any_cons, Clause.ofToken_isPrimaryKey]

/-- The tokens of a column are, in order, the clauses that they are sorted into: the entries that are
kept, of which `NOT NULL` stands for two tokens, the tokens that are discarded, single `NULL`s and
pairs of `PRIMARY` and `KEY`. There is such a pair exactly if the column counts as a key. -/
theorem specs_sorted (specs : List String) :
    ∃ clauses : List Clause, clauses.flatMap Clause.tokens = specs
      ∧ (∀ clause ∈ clauses, clause.Fits)
      ∧ (Constraints.ofSpecs specs).kept = clauses.filterMap Clause.kept?
      ∧ (Constraints.ofSpecs specs).discarded = clauses.filterMap Clause.discarded?
      ∧ (hasPrimaryKey specs = true ↔ ∃ clause ∈ clauses, clause.isPrimaryKey = true) := by
  obtain ⟨kept, discarded⟩ := Constraints.ofSpecs_clauses specs
  refine ⟨_, Clause.ofSpecs_tokens specs, Clause.ofSpecs_fits specs, kept, discarded, ?_⟩
  rw [hasPrimaryKey_clauses, List.any_eq_true]

/-! Tokens by themselves. -/

def SolidText (text : List Char) : Prop :=
  ∀ before c after, text = before ++ c :: after → (before.foldl step {}).isTop = true →
    Text.isBlank c = false

theorem SolidText.snoc {text : List Char} (solid : SolidText text) {c : Char}
    (inside : (text.foldl step {}).isTop = true → Text.isBlank c = false) :
    SolidText (text ++ [c]) := by
  intro before d after split top
  rcases List.eq_nil_or_concat after with rfl | ⟨after, last, rfl⟩
  · obtain ⟨rfl, same⟩ := List.append_inj' split rfl
    cases same
    exact inside top
  · refine solid before d after ?_ top
    rw [List.concat_eq_append, ← List.cons_append, ← List.append_assoc] at split
    exact (List.append_inj' split rfl).1

theorem tokensFrom_solid {s token : List Char} (solid : SolidText token) :
    ∀ t ∈ tokensFrom (token.foldl step {}) token s, t ≠ [] ∧ SolidText t := by
  induction s generalizing token with
  | nil =>
    intro t member
    rw [tokensFrom] at member
    split at member
    · cases member
    · next nonempty =>
      rw [List.mem_singleton.mp member]
      exact ⟨by simpa using nonempty, solid⟩
  | cons c s ih =>
    have fresh : SolidText [] := fun before d after split => by simp at split
    rw [tokensFrom]
    split
    · next stopped =>
      have top := isTop_iff.mp ((Bool.and_eq_true ..).mp stopped).2
      have later : ∀ t ∈ tokensFrom (token.foldl step {}) [] s, t ≠ [] ∧ SolidText t := by
        rw [top]
        exact ih fresh
      split
      · exact later
      · next nonempty =>
        exact List.forall_mem_cons.mpr ⟨⟨by simpa using nonempty, solid⟩, later⟩
    · next passed =>
      have longer := @ih (token ++ [c]) (solid.snoc fun top => by simpa [top] using passed)
      rwa [List.foldl_append] at longer

theorem tokens_solid {s t : List Char} (member : t ∈ tokens s) : t ≠ [] ∧ SolidText t :=
  @tokensFrom_solid s [] (fun before d after split => by simp at split) t member

theorem step_letters {word : List Char} (letters : ∀ c ∈ word, c.isAlpha = true) :
    word.foldl step {} = {} := by
  induction word with
  | nil => rfl
  | cons c word ih =>
    obtain ⟨first, others⟩ := List.forall_mem_cons.mp letters
    rw [List.foldl_cons, step_flat _ (by simp) (flat_letter first).1]
    exact ih others

/-- What follows the word of a default: a value behind a blank, or more of the same token. -/
inductive DefaultTail : String → Prop
  | value {value : String} (nonempty : value ≠ "") : DefaultTail (" " ++ value)
  | joined {c : Char} {rest : List Char} (solid : Text.isBlank c = false) :
      DefaultTail (String.ofList (c :: rest))

theorem default_split {token : String}
    (begins : "DEFAULT".toList.isPrefixOf (Text.upper token).toList = true) :
    ∃ word rest, word.map Char.toUpper = "DEFAULT".toList ∧ token.toList = word ++ rest := by
  obtain ⟨tail, split⟩ := List.isPrefixOf_iff_prefix.mp begins
  rw [Text.upper, String.toList_ofList (l := token.toList.map Char.toUpper)] at split
  obtain ⟨word, rest, whole, same, _⟩ := List.map_eq_append_iff.mp split.symm
  exact ⟨word, rest, same, whole⟩

theorem default_token {t : List Char} (solid : SolidText t)
    (begins : "DEFAULT".toList.isPrefixOf (Text.upper (String.ofList t)).toList = true) :
    ∃ word rest, Text.sameIgnoringCase word "DEFAULT" = true ∧ String.ofList t = word ++ rest
      ∧ (DefaultTail rest ∨ rest = "") := by
  obtain ⟨word, rest, same, split⟩ := default_split begins
  rw [String.toList_ofList] at split
  have spelled : Text.sameIgnoringCase (String.ofList word) "DEFAULT" = true := by
    rw [Text.sameIgnoringCase, Text.upper, String.toList_ofList, same]
    decide
  refine ⟨String.ofList word, String.ofList rest, spelled, by rw [split, String.ofList_append], ?_⟩
  cases rest with
  | nil => exact .inr rfl
  | cons c rest =>
    refine .inl (.joined (solid word c rest split ?_))
    rw [step_letters (default_letters same).2]
    rfl

/-! Defaults. -/

theorem same_length {a b : String} (same : Text.sameIgnoringCase a b = true) :
    a.toList.length = b.toList.length := by
  have upper : ∀ s : String, (Text.upper s).toList.length = s.toList.length := by simp [Text.upper]
  rw [Text.sameIgnoringCase, beq_iff_eq] at same
  rw [← upper a, ← upper b, same]

theorem joinDefaults_lone {tokens before after : List String} {text : String}
    (split : joinDefaults tokens = before ++ text :: after)
    (lone : Text.sameIgnoringCase text "DEFAULT" = true) : after = [] := by
  fun_induction joinDefaults tokens generalizing before with
  | case1 => simp at split
  | case2 token =>
    cases before with
    | nil => exact (List.cons.inj split).2.symm
    | cons first before => simp at split
  | case3 word value rest same ih =>
    cases before with
    | nil =>
      obtain ⟨rfl, _⟩ := List.cons.inj split
      have long := (same_length lone).trans (same_length same).symm
      rw [String.toList_append, String.toList_append, List.length_append, List.length_append] at long
      have blank : " ".toList.length = 1 := rfl
      omega
    | cons first before => exact ih (List.cons.inj split).2
  | case4 word value rest other ih =>
    cases before with
    | nil => exact absurd lone ((List.cons.inj split).1 ▸ other)
    | cons first before => exact ih (List.cons.inj split).2

/-- A token of a specification that begins with the word of a default has a value behind it, goes on
behind the word, or is the last one. -/
theorem specTokens_default {s : List Char} {before after : List String} {text : String}
    (split : specTokens s = before ++ text :: after)
    (begins : "DEFAULT".toList.isPrefixOf (Text.upper text).toList = true) :
    ∃ word rest, Text.sameIgnoringCase word "DEFAULT" = true ∧ text = word ++ rest
      ∧ (DefaultTail rest ∨ rest = "" ∧ after = []) := by
  have member : text ∈ specTokens s := by simp [split]
  rcases joinDefaults_cases text member with listed | ⟨word, value, same, listed, rfl⟩
  · obtain ⟨t, found, rfl⟩ := List.mem_map.mp listed
    obtain ⟨word, rest, same, whole, tail | empty⟩ := default_token (tokens_solid found).2 begins
    · exact ⟨word, rest, same, whole, .inl tail⟩
    · refine ⟨word, rest, same, whole, .inr ⟨empty, joinDefaults_lone split ?_⟩⟩
      rwa [whole, empty, String.append_empty]
  · obtain ⟨t, found, rfl⟩ := List.mem_map.mp listed
    refine ⟨word, " " ++ String.ofList t, same, String.append_assoc .., .inl (.value fun empty => ?_)⟩
    exact (tokens_solid found).1 (by rw [← String.toList_ofList (l := t), empty]; rfl)

theorem kept_split {specs before after : List String} {text : String}
    (kept : (Constraints.ofSpecs specs).kept = before ++ text :: after) :
    text = "NOT NULL"
      ∨ "DEFAULT".toList.isPrefixOf (Text.upper text).toList = true
        ∧ ∃ front back, specs = front ++ text :: back ∧ (back = [] → after = []) := by
  rw [(Constraints.ofSpecs_clauses specs).1] at kept
  obtain ⟨earlier, later, whole, _, kept⟩ := List.filterMap_eq_append_iff.mp kept
  obtain ⟨skipped, clause, clauses, rfl, _, found, rfl⟩ := List.filterMap_eq_cons_iff.mp kept
  have fits := Clause.ofSpecs_fits specs clause (by simp [whole])
  have tokens := Clause.ofSpecs_tokens specs
  rw [whole] at tokens
  cases clause with
  | notNull first second =>
    cases found
    exact .inl rfl
  | default token =>
    cases found
    refine .inr ⟨fits, (earlier ++ skipped).flatMap Clause.tokens, clauses.flatMap Clause.tokens, ?_, ?_⟩
    · rw [← tokens]
      simp [Clause.tokens]
    · intro none
      cases clauses with
      | nil => rfl
      | cons clause clauses =>
        exact absurd (List.append_eq_nil_iff.mp none).1 clause.tokens_ne_nil
  | primaryKey first second => cases found
  | null token => cases found
  | other token => cases found

/-! Columns that are read. -/

theorem columnElement_specs {element : List Char} {column : Column}
    (read : columnElement? element = some column) : ∃ rest, column.specs = specTokens rest := by
  rw [columnElement?] at read
  split at read
  · cases read
  · split at read
    · cases read
    · next type rest _ =>
      cases read
      exact ⟨rest, rfl⟩

/-- What is written behind the type of a column of a definition that is read is `NOT NULL` or begins
with the word of a default. A value or more of the same token follows the word, unless the word is
the last token of the column; then it is also the last that is written. -/
theorem kept_constraints_worded {sql : String} {table : TableDefinition}
    (read : SourceStatement.ofSql sql = .ok ⟨sql, .createTable table⟩) {column : Column}
    (member : column ∈ table.columns) {before after : List String} {text : String}
    (kept : (Constraints.ofSpecs column.specs).kept = before ++ text :: after) :
    text = "NOT NULL" ∨ ∃ word rest, Text.sameIgnoringCase word "DEFAULT" = true
      ∧ text = word ++ rest
      ∧ (DefaultTail rest
        ∨ rest = "" ∧ after = [] ∧ column.specs.getLast? = some text) := by
  obtain ⟨_, readOf, _⟩ := ofText_readOf (ofSql_table read)
  obtain ⟨_, _, found⟩ := readOf.columns column member
  obtain ⟨specs, tokens⟩ := columnElement_specs found
  rcases kept_split kept with same | ⟨begins, front, back, split, last⟩
  · exact .inl same
  · obtain ⟨word, rest, same, whole, tail⟩ := specTokens_default (tokens.symm.trans split) begins
    refine .inr ⟨word, rest, same, whole, tail.imp id ?_⟩
    rintro ⟨empty, rfl⟩
    exact ⟨empty, last rfl, by simp [split]⟩

def twoDefaults : String := "CREATE TABLE t (a INT default('x y') NOT NULL DEFAULT f(1, 2) UNIQUE)"

def twoDefaultsColumn : Column where
  name := "a"
  type := { name := "INT" }
  specs := ["default('x y')", "NOT", "NULL", "DEFAULT f(1, 2)", "UNIQUE"]

theorem twoDefaults_worded :
    definitionOf? twoDefaults = some { name := "t", columns := [twoDefaultsColumn], indexes := [] }
      ∧ (Constraints.ofSpecs twoDefaultsColumn.specs).kept
        = ["default('x y')", "NOT NULL", "DEFAULT f(1, 2)"]
      ∧ ("default('x y')" = "NOT NULL" ∨ ∃ word rest, Text.sameIgnoringCase word "DEFAULT" = true
        ∧ "default('x y')" = word ++ rest
        ∧ (DefaultTail rest ∨ rest = "" ∧ ["NOT NULL", "DEFAULT f(1, 2)"] = []
          ∧ twoDefaultsColumn.specs.getLast? = some "default('x y')")) := by
  have found : definitionOf? twoDefaults
      = some { name := "t", columns := [twoDefaultsColumn], indexes := [] } := by decide +kernel
  have kept : (Constraints.ofSpecs twoDefaultsColumn.specs).kept
      = ["default('x y')", "NOT NULL", "DEFAULT f(1, 2)"] := by decide
  exact ⟨found, kept, @kept_constraints_worded _ _ (read_of_definitionOf? found) _
    List.mem_cons_self [] _ _ kept⟩

/-- What is kept need be neither `NOT NULL` nor a default with a blank and a value: the word stands
alone where no token follows it, and other characters of its token may follow it. -/
theorem default_without_value :
    (definitionOf? ("CREATE TABLE t (a INT REFERENCES p(id) ON DELETE SET DEFAULT, "
        ++ "b INT DEFAULT(5))")).map (fun table =>
          table.columns.map fun column => (Constraints.ofSpecs column.specs).kept)
        = some [["DEFAULT"], ["DEFAULT(5)"]]
      ∧ ∀ text ∈ ["DEFAULT", "DEFAULT(5)"], text ≠ "NOT NULL"
        ∧ ¬ ∃ (word : String) (blank : Char) (value : List Char),
          Text.sameIgnoringCase word "DEFAULT" = true ∧ Text.isBlank blank = true ∧ value ≠ []
            ∧ text.toList = word.toList ++ blank :: value := by
  have lengths : ∀ {word : String}, Text.sameIgnoringCase word "DEFAULT" = true →
      word.toList.length = 7 := fun same => same_length same
  refine ⟨by decide +kernel, fun text listed => ⟨by revert text; decide, ?_⟩⟩
  rintro ⟨word, blank, value, same, isBlank, _, split⟩
  have eighth : (text.toList.drop 7).head? = some blank := by
    rw [split, ← lengths same, List.drop_left]
    rfl
  simp only [List.mem_cons, List.not_mem_nil, or_false] at listed
  rcases listed with rfl | rfl
  · cases eighth
  · cases eighth
    cases isBlank

end SqlDialects
