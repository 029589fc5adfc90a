import SqlDialects.Proofs.Conversion.Separators
import SqlDialects.Proofs.Conversion.SortedSpecs
import SqlDialects.Proofs.Grammar.TopLevel

/-
Parts of a definition that are written as text and can be read back: names in quotes, and tokens with
blanks between them. Only the last token may leave something open, or be the word of a default without
a value, so that the tokens stay apart and no other word takes the token behind it.
-/
namespace SqlDialects

open Reader Nesting

/-! Names. -/

theorem Text.pieces_eq_splitOn (sep : Char) (s : List Char) :
    Text.pieces sep s = s.splitOn sep := by
  induction s with
  | nil => rfl
  | cons c s ih =>
    obtain ⟨piece, others, found⟩ := Text.pieces_cons sep s
    rw [found] at ih
    rw [Text.pieces, found, List.splitOn, List.splitOnP_cons_eq_if_modifyHead, ← List.splitOn, ← ih]
    by_cases same : c = sep <;> simp [same, Text.prepend]

/-- A quoted name is read as its parts between dots, whatever characters they have. -/
theorem quoted_name_reads_back (d : Dialect) (name : String) (rest : List Char)
    (ended : rest.head? ≠ some '.') (closed : rest.head? ≠ some d.quote) :
    path ((d.quoteName name).toList ++ rest)
      = .ok ((name.toList.splitOn '.').map String.ofList, rest) := by
  obtain ⟨first, others, pieces⟩ := Text.pieces_cons '.' name.toList
  rw [quoteName_text, ← Text.pieces_eq_splitOn, pieces]
  exact path_enclosed (quote_known d) (.inl rfl) first others closed ended

theorem strange_name_reads_back :
    Dialect.mysql.quoteName "a\x60b..\"" = "\x60a\x60\x60b\x60.\x60\x60.\x60\"\x60"
      ∧ path ((Dialect.mysql.quoteName "a\x60b..\"").toList ++ "\"x".toList)
        = .ok (["a\x60b", "", "\""], "\"x".toList) :=
  ⟨by decide +kernel, quoted_name_reads_back .mysql _ _ (by decide) (by decide)⟩

/-! Tokens of specifications. -/

/-- A token with the words that it is written with. The word of a default takes the word behind it. -/
inductive SpecWords : String → List String → Prop
  | plain {token : String} (other : Text.sameIgnoringCase token "DEFAULT" = false) :
      SpecWords token [token]
  | default {word value : String} (same : Text.sameIgnoringCase word "DEFAULT" = true) :
      SpecWords (word ++ " " ++ value) [word, value]

inductive SpecList : List String → Prop
  | nil : SpecList []
  | last {token : String} {words : List String} (joined : joinDefaults words = [token])
      (written : " ".intercalate words = token) (listed : TokenList (words.map String.toList)) :
      SpecList [token]
  | more {token : String} {words tokens : List String} (spelled : SpecWords token words)
      (each : ∀ word ∈ words, word.toList ≠ [] ∧ passes Text.isBlank {} word.toList = true)
      (later : SpecList tokens) : SpecList (token :: tokens)

namespace SpecWords

theorem joined {token : String} {words : List String} (spelled : SpecWords token words)
    (rest : List String) : joinDefaults (words ++ rest) = token :: joinDefaults rest := by
  cases spelled with
  | plain other => exact joinDefaults_other other rest
  | default same => simp [joinDefaults, same]

theorem written {token : String} {words : List String} (spelled : SpecWords token words) :
    " ".intercalate words = token := by
  cases spelled with
  | plain => exact String.intercalate_singleton
  | default => rw [String.intercalate_cons_cons, String.intercalate_singleton]

theorem ne_nil {token : String} {words : List String} (spelled : SpecWords token words) :
    words ≠ [] := by
  cases spelled <;> exact List.cons_ne_nil _ _

end SpecWords

theorem TokenList.append {ws ts : List (List Char)}
    (each : ∀ w ∈ ws, w ≠ [] ∧ passes Text.isBlank {} w = true) (later : TokenList ts) :
    TokenList (ws ++ ts) := by
  induction ws with
  | nil => exact later
  | cons w ws ih =>
    obtain ⟨first, others⟩ := List.forall_mem_cons.mp each
    exact .more first.1 first.2 (ih others)

theorem TokenList.front {t u : List Char} {ts : List (List Char)} (list : TokenList (t :: u :: ts)) :
    (t ≠ [] ∧ passes Text.isBlank {} t = true) ∧ TokenList (u :: ts) := by
  cases list with
  | more nonempty through later => exact ⟨⟨nonempty, through⟩, later⟩

theorem specList_joinDefaults {words : List String} (list : TokenList (words.map String.toList)) :
    SpecList (joinDefaults words) := by
  fun_induction joinDefaults words with
  | case1 => exact .nil
  | case2 token => exact .last rfl String.intercalate_singleton list
  | case3 word value rest same ih =>
    have spelled : SpecWords (word ++ " " ++ value) [word, value] := .default same
    cases rest with
    | nil => exact .last (spelled.joined []) spelled.written list
    | cons next rest =>
      obtain ⟨first, behind⟩ := list.front
      obtain ⟨second, later⟩ := behind.front
      refine .more spelled (List.forall_mem_cons.mpr ⟨first, ?_⟩) (ih later)
      exact List.forall_mem_singleton.mpr second
  | case4 word value rest other ih =>
    obtain ⟨first, later⟩ := list.front
    refine .more (.plain (by simpa using other)) ?_ (ih later)
    exact List.forall_mem_singleton.mpr first

theorem eq_nil_of_joinDefaults {words : List String} (none : joinDefaults words = []) :
    words = [] := by
  fun_cases joinDefaults words with
  | case1 => rfl
  | case2 token => cases none
  | case3 word value rest same => simp [joinDefaults, same] at none
  | case4 word value rest other => simp [joinDefaults, other] at none

namespace SpecList

theorem specTokens (s : List Char) : SpecList (SqlDialects.specTokens s) := by
  refine specList_joinDefaults ?_
  rw [List.map_map]
  simpa [Function.comp_def] using tokens_tokenList s

theorem words {tokens : List String} (list : SpecList tokens) :
    ∃ words : List String, TokenList (words.map String.toList) ∧ joinDefaults words = tokens
      ∧ " ".intercalate words = " ".intercalate tokens := by
  induction list with
  | nil => exact ⟨[], .nil, rfl, rfl⟩
  | last joined written listed =>
    exact ⟨_, listed, joined, written.trans String.intercalate_singleton.symm⟩
  | @more token words tokens spelled each later ih =>
    obtain ⟨others, listed, joined, text⟩ := ih
    refine ⟨words ++ others, ?_, by rw [spelled.joined, joined], ?_⟩
    · rw [List.map_append]
      exact .append (List.forall_mem_map.mpr each) listed
    · cases others with
      | nil =>
        obtain rfl : [] = tokens := joined
        rw [List.append_nil, spelled.written, String.intercalate_singleton]
      | cons next others =>
        have some : tokens ≠ [] := by
          rintro rfl
          cases eq_nil_of_joinDefaults joined
        rw [String.intercalate_append_of_ne_nil spelled.ne_nil (List.cons_ne_nil _ _), text,
          spelled.written, String.intercalate_cons_of_ne_nil some]

theorem reads {tokens : List String} (list : SpecList tokens) :
    SqlDialects.specTokens (" ".intercalate tokens).toList = tokens := by
  obtain ⟨words, listed, joined, text⟩ := list.words
  have cut : SqlDialects.tokens (" ".intercalate words).toList = words.map String.toList := by
    rw [String.toList_intercalate]
    exact listed.tokens_join
  rw [← text, SqlDialects.specTokens, cut, List.map_map]
  simpa [Function.comp_def] using joined

variable {token : String} {tokens : List String}

theorem tail (list : SpecList (token :: tokens)) : SpecList tokens := by
  cases list with
  | last => exact .nil
  | more _ _ later => exact later

/-- Other tokens behind the first one. It may leave something open only if it stays the last. -/
theorem swap (list : SpecList (token :: tokens)) {others : List String} (later : SpecList others)
    (ended : tokens = [] → others = []) : SpecList (token :: others) := by
  cases list with
  | last joined written listed =>
    obtain rfl := ended rfl
    exact .last joined written listed
  | more spelled each _ => exact .more spelled each later

end SpecList

/-! Tokens of a column that are sorted. -/

structure Constraints.Listed (constraints : Constraints) : Prop where
  discarded : SpecList constraints.discarded
  kept : SpecList constraints.tokens

theorem SpecList.add {token : String} {tokens : List String} (list : SpecList (token :: tokens))
    {constraints : Constraints} (later : constraints.Listed)
    (ended : tokens = [] → constraints = {}) : (constraints.add token).Listed := by
  rw [Constraints.add]
  split
  · exact later
  · split
    · next default =>
      have other : token ≠ "NOT NULL" := by
        rintro rfl
        exact absurd default (by decide)
      refine ⟨later.discarded, ?_⟩
      have tokens_cons : Constraints.tokens { constraints with kept := token :: constraints.kept }
          = token :: constraints.tokens := by simp [Constraints.tokens, other]
      rw [tokens_cons]
      exact list.swap later.kept fun none => by rw [ended none]; rfl
    · exact ⟨list.swap later.discarded fun none => by rw [ended none], later.kept⟩

theorem SpecList.sorted {specs : List String} (list : SpecList specs) :
    (Constraints.ofSpecs specs).Listed := by
  fun_induction Constraints.ofSpecs specs with
  | case1 => exact ⟨.nil, .nil⟩
  | case2 token => exact list.add ⟨.nil, .nil⟩ fun _ => rfl
  | case3 first second rest _ later ih =>
    have found := ih list.tail.tail
    refine ⟨found.discarded, ?_⟩
    exact .more (.plain (by decide)) (by decide) (.more (.plain (by decide)) (by decide) found.kept)
  | case4 first second rest _ _ ih => exact ih list.tail.tail
  | case5 first second rest _ _ ih => exact list.add (ih list.tail) (by simp)

theorem intercalate_flatMap {f : String → List String} {sep : String}
    (each : ∀ text, f text ≠ [] ∧ sep.intercalate (f text) = text) (texts : List String) :
    sep.intercalate (texts.flatMap f) = sep.intercalate texts := by
  induction texts with
  | nil => rfl
  | cons first texts ih =>
    rw [List.flatMap_cons]
    cases texts with
    | nil => rw [List.flatMap_nil, List.append_nil, (each first).2, String.intercalate_singleton]
    | cons second texts =>
      have more : (second :: texts).flatMap f ≠ [] := by simp [(each second).1]
      rw [String.intercalate_append_of_ne_nil (each first).1 more, (each first).2, ih,
        String.intercalate_cons_of_ne_nil (List.cons_ne_nil second texts)]

theorem Constraints.tokens_written (constraints : Constraints) :
    " ".intercalate constraints.tokens = " ".intercalate constraints.kept := by
  refine intercalate_flatMap (fun text => ?_) constraints.kept
  split
  · next same =>
    subst same
    exact ⟨List.cons_ne_nil _ _, rfl⟩
  · exact ⟨List.cons_ne_nil _ _, String.intercalate_singleton⟩

theorem Column.line_specs (pair : Pair) {column : Column} (list : SpecList column.specs) :
    ∃ text, column.line pair
        = pair.target.quoteName column.name ++ " " ++ (column.type.mapped pair).toSql ++ text
      ∧ specTokens text.toList = (Constraints.ofSpecs column.specs).tokens := by
  have read := list.sorted.kept.reads
  rw [Constraints.tokens_written] at read
  rw [Column.line, List.cons_append, List.cons_append, List.nil_append, String.intercalate_cons_cons]
  cases kept : (Constraints.ofSpecs column.specs).kept with
  | nil =>
    refine ⟨"", by rw [String.intercalate_singleton, String.append_empty], ?_⟩
    rw [kept] at read
    exact read
  | cons first others =>
    refine ⟨" " ++ " ".intercalate (first :: others), ?_, ?_⟩
    · rw [String.intercalate_cons_cons]
      simp only [String.append_assoc]
    · rw [← kept, String.toList_append]
      exact read

theorem TableDefinition.options_read {s : List Char} {table : TableDefinition}
    (read : TableDefinition.ofText? s = some table) : ∃ tail, table.options = specTokens tail := by
  rw [TableDefinition.ofText?] at read
  split at read
  · cases read
  · next name _ _ =>
    split at read
    · cases read
    · next body tail _ =>
      have elements := addElements_options (specTokens (Text.trim tail))
        ((topLevelPieces ',' body).map Text.trim) { name, columns := [], indexes := [] }
      rw [elements] at read
      obtain ⟨_, _, rfl⟩ := Option.map_eq_some_iff.mp read
      exact ⟨Text.trim tail, rfl⟩

/-- Tokens are read from their text with single blanks between them. So are, of a definition that is
read, the options and the specifications that a warning names, and what stands behind a type. -/
theorem joined_specs_read_back (s : List Char) :
    specTokens (" ".intercalate (specTokens s)).toList = specTokens s
      ∧ ∀ table, TableDefinition.ofText? s = some table →
        (table.options ≠ [] → ∃ text, specTokens text.toList = table.options
          ∧ table.optionNotes = [notReproduced .unsupportedConstruct
            ("table options '" ++ text ++ "' dropped")])
        ∧ ∀ column ∈ table.columns,
          ((Constraints.ofSpecs column.specs).discarded ≠ [] →
            ∃ text, specTokens text.toList = (Constraints.ofSpecs column.specs).discarded
              ∧ column.specNotes = [notReproduced .unsupportedConstruct
                ("column " ++ column.name ++ ": '" ++ text ++ "' not reproduced")])
          ∧ ∀ pair, ∃ text, column.line pair
              = pair.target.quoteName column.name ++ " " ++ (column.type.mapped pair).toSql ++ text
            ∧ specTokens text.toList = (Constraints.ofSpecs column.specs).tokens := by
  refine ⟨(SpecList.specTokens s).reads, fun table read => ⟨fun filled => ?_, ?_⟩⟩
  · obtain ⟨tail, options⟩ := TableDefinition.options_read read
    refine ⟨" ".intercalate table.options, ?_, by simp [TableDefinition.optionNotes, filled]⟩
    rw [options]
    exact (SpecList.specTokens tail).reads
  · obtain ⟨elements, readOf, -⟩ := ofText_readOf read
    intro column member
    obtain ⟨element, -, found⟩ := readOf.columns column member
    obtain ⟨rest, specs⟩ := columnElement_specs found
    have list : SpecList column.specs := specs ▸ SpecList.specTokens rest
    refine ⟨fun filled => ?_, fun pair => Column.line_specs pair list⟩
    exact ⟨_, list.sorted.discarded.reads, by simp [Column.specNotes, filled]⟩

/-- Blanks in quotes and in parentheses, a default without a value, and a quote that is left open behind
a parenthesis that was never opened. -/
def crowdedText : String :=
  "CREATE TABLE t (a INT NOT  NULL default ( 1 ) CHECK (a  > 0) 'x  y'  DEFAULT) "
    ++ "ENGINE=X  ) DEFAULT 'left  open"

def crowdedColumn : Column where
  name := "a"
  type := { name := "INT" }
  specs := ["NOT", "NULL", "default ( 1 )", "CHECK", "(a  > 0)", "'x  y'", "DEFAULT"]

def crowdedTable : TableDefinition where
  name := "t"
  columns := [crowdedColumn]
  indexes := []
  options := ["ENGINE=X", ")", "DEFAULT 'left  open"]

theorem crowded_specs_read_back :
    TableDefinition.ofText? crowdedText.toList = some crowdedTable
      ∧ (∃ text, specTokens text.toList = ["ENGINE=X", ")", "DEFAULT 'left  open"]
        ∧ crowdedTable.optionNotes = [notReproduced .unsupportedConstruct
          ("table options '" ++ text ++ "' dropped")])
      ∧ (∃ text, specTokens text.toList = ["CHECK", "(a  > 0)", "'x  y'"]
        ∧ crowdedColumn.specNotes = [notReproduced .unsupportedConstruct
          ("column a: '" ++ text ++ "' not reproduced")])
      ∧ ∃ text, crowdedColumn.line ⟨.mysql, .postgresql⟩ = "\"a\" INTEGER" ++ text
        ∧ specTokens text.toList = ["NOT", "NULL", "default ( 1 )", "DEFAULT"] := by
  have read : TableDefinition.ofText? crowdedText.toList = some crowdedTable := by decide +kernel
  have sorted : Constraints.ofSpecs crowdedColumn.specs
      = ⟨["NOT NULL", "default ( 1 )", "DEFAULT"], ["CHECK", "(a  > 0)", "'x  y'"]⟩ := by
    decide +kernel
  obtain ⟨options, each⟩ := (joined_specs_read_back crowdedText.toList).2 crowdedTable read
  obtain ⟨discarded, line⟩ := each crowdedColumn (by simp [crowdedTable])
  rw [sorted] at discarded line
  exact ⟨read, options (by decide), discarded (by decide), line ⟨.mysql, .postgresql⟩⟩

end SqlDialects
