import SqlDialects.Proofs.Conversion.ColumnNames

/-
Keys among the elements of a table definition. An element gives columns and indexes of its own,
whatever stands around it. One that is written as a key gives one index and no column, unless a
column of the key has a length behind it; no key is read then, and the element is taken for a column.
-/
namespace SqlDialects

open Reader Spelling

/-! How a key is written. -/

inductive NameText : String → List Char → List Char → Prop
  | quoted {quote : Char} {body rest : List Char} (known : quote = '"' ∨ quote = '\x60')
      (closed : rest.head? ≠ some quote) :
      NameText (String.ofList body) (Text.enclose quote body) rest
  | plain {word rest : List Char} (shape : IsWord word)
      (free : isReserved (String.ofList word) = false) (ended : EndsWord rest) :
      NameText (String.ofList word) word rest

def IdentifierText : Spelling String := BehindGap NameText

inductive LengthText : Unit → List Char → List Char → Prop
  | mk {o g ds c rest : List Char} (opened : SymbolText "(" () o (g ++ (ds ++ (c ++ rest))))
      (gap : Gap g (ds ++ (c ++ rest))) (digits : IsDigits ds) (closed : SymbolText ")" () c rest) :
      LengthText () (o ++ (g ++ (ds ++ c))) rest

structure KeyPart where
  name : String
  hasLength : Bool
  hasDirection : Bool
  deriving DecidableEq, Repr

inductive KeyPartText : KeyPart → List Char → List Char → Prop
  | mk {part : KeyPart} {n l d rest : List Char}
      (name : IdentifierText part.name n (l ++ (d ++ rest)))
      (length : Present LengthText part.hasLength l (d ++ rest))
      (direction : Present (EitherWord "ASC" "DESC") part.hasDirection d rest) :
      KeyPartText part (n ++ (l ++ d)) rest

def keyWords : List (String × String × String) :=
  [("PRIMARY", "KEY", "PRIMARY KEY"), ("FOREIGN", "KEY", "FOREIGN KEY"), ("UNIQUE", "KEY", "UNIQUE"),
    ("UNIQUE", "INDEX", "UNIQUE")]

inductive KeyKindText : String → List Char → List Char → Prop
  | mk {one two kind : String} {a b rest : List Char} (listed : (one, two, kind) ∈ keyWords)
      (first : KeywordText one () a (b ++ rest)) (second : KeywordText two () b rest) :
      KeyKindText kind (a ++ b) rest

structure Key where
  constraint : Option String
  kind : String
  name : Option String
  parts : List KeyPart
  deriving DecidableEq, Repr

def Key.index (key : Key) : Index where
  kind := key.kind
  name := key.constraint.or key.name
  columns := key.parts.map KeyPart.name

inductive KeyText : Key → List Char → List Char → Prop
  | mk {key : Key} {c k n o p q rest : List Char}
      (constraint : Maybe (Behind (KeywordText "CONSTRAINT") IdentifierText) key.constraint c
        (k ++ (n ++ (o ++ (p ++ (q ++ rest))))))
      (kind : KeyKindText key.kind k (n ++ (o ++ (p ++ (q ++ rest)))))
      (name : Maybe IdentifierText key.name n (o ++ (p ++ (q ++ rest))))
      (opened : SymbolText "(" () o (p ++ (q ++ rest)))
      (parts : Separated (SymbolText ",") KeyPartText key.parts p (q ++ rest))
      (closed : SymbolText ")" () q rest) :
      KeyText key (c ++ (k ++ (n ++ (o ++ (p ++ q))))) rest

/-! Reading a key. -/

namespace Reader

theorem namePart_complete {name : String} {t rest : List Char} (spelled : NameText name t rest) :
    namePart (t ++ rest) = .ok (name, rest) := by
  cases spelled with
  | quoted known closed => exact namePart_enclosed known _ closed
  | plain shape free ended =>
    rw [namePart, orElse_of_fails (quoted_fails_word (by decide) shape rest),
      orElse_of_fails (quoted_fails_word (by decide) shape rest)]
    exact plainName_complete shape free ended

theorem identifier_apply (s : List Char) : identifier s = namePart (skipGaps s) := rfl

theorem identifier_complete {name : String} {t rest : List Char}
    (spelled : IdentifierText name t rest) : identifier (t ++ rest) = .ok (name, rest) := by
  obtain ⟨g, u, rfl, gap, named⟩ := spelled
  rw [List.append_assoc, identifier_apply, gap]
  exact namePart_complete named

theorem identifier_fails_opening {s : List Char} (opening : front s = some '(') :
    Fails identifier s := by
  obtain ⟨rest, split⟩ := List.head?_eq_some_iff.mp opening
  rw [Fails, identifier_apply, split, namePart, orElse_of_fails (quoted_fails (by simp)),
    orElse_of_fails (quoted_fails (by simp))]
  exact ⟨'(' :: rest, by simp [plainName, wordWhere, bareWord]; rfl⟩

def EndsColumn (s : List Char) : Prop := ∃ c ∈ [',', ')', '('], front s = some c

theorem endsColumn_undirected {s : List Char} (ended : EndsColumn s) :
    Fails (keyword "ASC" <|> keyword "DESC") s := by
  obtain ⟨c, listed, first⟩ := ended
  have mark : isNameCharacter c = false := by
    simp only [List.mem_cons, List.not_mem_nil, or_false] at listed
    rcases listed with rfl | rfl | rfl <;> rfl
  have unled := leadingWord_of_mark first mark
  rw [Fails, orElse_of_fails (keyword_fails "ASC" rfl (by rw [unled]; decide))]
  exact keyword_fails "DESC" rfl (by rw [unled]; decide)

theorem symbol_opens {c : Char} {a : Unit} {text : String} {t rest : List Char}
    (spelled : SymbolText text a t rest) (first : text.toList.head? = some c) :
    front (t ++ rest) = some c := by
  rw [front, symbol_front spelled]
  cases found : text.toList with
  | nil => simp [found] at first
  | cons d s => simpa [found] using first

theorem length_opens {a : Unit} {t rest : List Char} (spelled : LengthText a t rest) :
    front (t ++ rest) = some '(' := by
  cases spelled with
  | @mk o g ds c rest opened gap digits closed =>
    have first : front (o ++ (g ++ (ds ++ (c ++ rest)))) = some '(' := symbol_opens opened rfl
    simpa using first

inductive PlainPartText : String → List Char → List Char → Prop
  | mk {name : String} {directed : Bool} {n d rest : List Char} (named : IdentifierText name n (d ++ rest))
      (direction : Present (EitherWord "ASC" "DESC") directed d rest) :
      PlainPartText name (n ++ d) rest

theorem indexColumn_complete {name : String} {t rest : List Char}
    (spelled : PlainPartText name t rest) (ended : EndsColumn rest) :
    indexColumn (t ++ rest) = .ok (name, rest) := by
  cases spelled with
  | mk named direction =>
    rw [List.append_assoc, indexColumn, bind_of_ok (identifier_complete named)]
    cases direction with
    | missing => exact bind_of_ok (option_of_fails (endsColumn_undirected ended))
    | there word => exact bind_of_ok (option_of_ok (either_complete word rfl rfl (by decide)))

theorem plainParts_read {names : List String} {t rest : List Char}
    (spelled : Separated (SymbolText ",") PlainPartText names t rest)
    (ended : front rest = some ')' ∨ front rest = some '(') :
    separatedBy (symbol ",") indexColumn (t ++ rest) = .ok (names, rest) := by
  refine @complete_separatedBy _ _ _ _ t.length EndsColumn
    (fun rest => front rest = some ')' ∨ front rest = some '(') _ _ ?_ ?_ ?_ ?_ ?_ ?_ names t rest
    (Nat.le_refl _) spelled ended
  · exact fun b m rest => symbol_complete
  · exact fun name t rest _ spelled ended => indexColumn_complete spelled ended
  · exact fun b m rest comma => ⟨',', by simp, symbol_opens comma rfl⟩
  · rintro rest (closed | opened)
    · exact ⟨')', by simp, closed⟩
    · exact ⟨'(', by simp, opened⟩
  · rintro rest (closed | opened)
    · exact bind_fails (symbol_fails (c := ',') rfl (by simp [closed]))
    · exact bind_fails (symbol_fails (c := ',') rfl (by simp [opened]))
  · exact fun b m rest => symbolText_ne_nil (by decide)

theorem parts_split {parts : List KeyPart} {t rest : List Char}
    (spelled : Separated (SymbolText ",") KeyPartText parts t rest) :
    ((∀ part ∈ parts, part.hasLength = false) →
        Separated (SymbolText ",") PlainPartText (parts.map KeyPart.name) t rest)
      ∧ ((∃ part ∈ parts, part.hasLength = true) → ∃ names u v, t ++ rest = u ++ v
        ∧ Separated (SymbolText ",") PlainPartText names u v ∧ front v = some '(') := by
  have unmeasured : ∀ {part : KeyPart} {t rest : List Char}, KeyPartText part t rest →
      part.hasLength = false → PlainPartText part.name t rest := by
    rintro part t rest ⟨named, length, direction⟩ plain
    rw [plain] at length
    cases length
    exact .mk named direction
  have measured : ∀ {part : KeyPart} {t rest : List Char}, KeyPartText part t rest →
      part.hasLength = true → ∃ u v, t ++ rest = u ++ v
        ∧ PlainPartText part.name u v ∧ front v = some '(' := by
    rintro part t rest ⟨named, length, direction⟩ long
    next n l d =>
    rw [long] at length
    cases length with
    | there length =>
      refine ⟨n ++ [], l ++ (d ++ rest), by simp, .mk ?_ (.missing _), length_opens length⟩
      simpa using named
  induction spelled with
  | one head =>
    refine ⟨fun plain => .one (unmeasured head (plain _ List.mem_cons_self)), fun long => ?_⟩
    obtain ⟨u, v, split, named, opening⟩ := measured head (by simpa using long)
    exact ⟨_, u, v, split, .one named, opening⟩
  | @more part _ parts t mark w rest head between tail ih =>
    obtain ⟨all, some⟩ := ih
    constructor
    · intro plain
      obtain ⟨first, others⟩ := List.forall_mem_cons.mp plain
      exact .more (unmeasured head first) between (all others)
    · intro long
      cases first : part.hasLength with
      | true =>
        obtain ⟨u, v, split, named, opening⟩ := measured head first
        exact ⟨_, u, v, by simpa using split, .one named, opening⟩
      | false =>
        obtain ⟨names, u, v, split, several, opening⟩ := some (by simpa [first] using long)
        rw [split] at head between
        refine ⟨_, t ++ (mark ++ u), v, by simp [split], .more (unmeasured head first) between several,
          opening⟩

def keyColumns : Reader (List String) := do
  symbol "("
  let columns ← separatedBy (symbol ",") indexColumn
  symbol ")"
  pure columns

section Columns

variable {parts : List KeyPart} {o p q rest : List Char}
  (opened : SymbolText "(" () o (p ++ (q ++ rest)))
  (spelled : Separated (SymbolText ",") KeyPartText parts p (q ++ rest))
include opened spelled

theorem keyColumns_complete (closed : SymbolText ")" () q rest)
    (plain : ∀ part ∈ parts, part.hasLength = false) :
    keyColumns (o ++ (p ++ (q ++ rest))) = .ok (parts.map KeyPart.name, rest) := by
  have listed := plainParts_read ((parts_split spelled).1 plain) (.inl (symbol_opens closed rfl))
  rw [keyColumns, bind_of_ok (symbol_complete opened), bind_of_ok listed]
  exact bind_of_ok (symbol_complete closed)

theorem keyColumns_fails (long : ∃ part ∈ parts, part.hasLength = true) :
    Fails keyColumns (o ++ (p ++ (q ++ rest))) := by
  obtain ⟨names, u, v, split, several, opening⟩ := (parts_split spelled).2 long
  have listed := plainParts_read several (.inr opening)
  have unclosed : Fails (symbol ")") v := symbol_fails (c := ')') rfl (by simp [opening])
  rw [Fails, keyColumns, bind_of_ok (symbol_complete opened), split, bind_of_ok listed]
  exact bind_fails unclosed

end Columns

theorem indexKind_complete {kind : String} {t rest : List Char} (spelled : KeyKindText kind t rest) :
    indexKind (t ++ rest) = .ok (kind, rest) ∧ kind ≠ "CHECK"
      ∧ Fails (keyword "CONSTRAINT") (t ++ rest) := by
  cases spelled with
  | @mk one two kind a b rest listed first second =>
    rw [List.append_assoc]
    have two_words : ∀ {word kind : String}, Capital word → KeywordText word () b rest →
        (do keyword word; pure kind : Reader String) (b ++ rest) = .ok (kind, rest) :=
      fun capital spelled => bind_of_ok (keyword_complete spelled capital)
    have other : ∀ word : String, Capital one → Capital word → one ≠ word →
        ∀ {β : Type} (next : Unit → Reader β), Fails (keyword word >>= next) (a ++ (b ++ rest)) :=
      fun word capital also apart _ next =>
        bind_fails (keyword_fails_of_keyword word first capital also apart)
    simp only [keyWords, List.mem_cons, List.not_mem_nil, or_false, Prod.mk.injEq] at listed
    rcases listed with ⟨rfl, rfl, rfl⟩ | ⟨rfl, rfl, rfl⟩ | ⟨rfl, rfl, rfl⟩ | ⟨rfl, rfl, rfl⟩
    · refine ⟨orElse_of_ok ?_, by decide, keyword_fails_of_keyword _ first rfl rfl (by decide)⟩
      rw [bind_of_ok (keyword_complete first rfl)]
      exact two_words rfl second
    · refine ⟨?_, by decide, keyword_fails_of_keyword _ first rfl rfl (by decide)⟩
      rw [indexKind, orElse_of_fails (other "PRIMARY" rfl rfl (by decide) _)]
      refine orElse_of_ok ?_
      rw [bind_of_ok (keyword_complete first rfl)]
      exact two_words rfl second
    all_goals
      refine ⟨?_, by decide, keyword_fails_of_keyword _ first rfl rfl (by decide)⟩
      rw [indexKind, orElse_of_fails (other "PRIMARY" rfl rfl (by decide) _),
        orElse_of_fails (other "FOREIGN" rfl rfl (by decide) _)]
      refine orElse_of_ok ?_
      rw [bind_of_ok (keyword_complete first rfl)]
    · exact bind_of_ok (option_of_ok (either_complete (.inl second) rfl rfl (by decide)))
    · exact bind_of_ok (option_of_ok (either_complete (.inr second) rfl rfl (by decide)))

theorem index_head {key : Key} {c k n s : List Char}
    (constraint : Maybe (Behind (KeywordText "CONSTRAINT") IdentifierText) key.constraint c
      (k ++ (n ++ s)))
    (kind : KeyKindText key.kind k (n ++ s)) (name : Maybe IdentifierText key.name n s)
    (opening : front s = some '(') :
    Reader.index (c ++ (k ++ (n ++ s))) = (do
      let columns ← option keyColumns
      if columns.isNone then stop
      else pure { kind := key.kind, name := key.constraint.or key.name, columns := columns.getD [] } :
        Reader Index) s := by
  obtain ⟨kind_read, unchecked, unnamed⟩ := indexKind_complete kind
  have constraint_read : option (do keyword "CONSTRAINT"; identifier) (c ++ (k ++ (n ++ s)))
      = .ok (key.constraint, k ++ (n ++ s)) := by
    refine maybe_complete (fun name t rest spelled => ?_) constraint (bind_fails unnamed)
    obtain ⟨_, m, v, rfl, word, named⟩ := spelled
    rw [List.append_assoc, bind_of_ok (keyword_complete word rfl)]
    exact identifier_complete named
  have name_read : option identifier (n ++ s) = .ok (key.name, s) :=
    maybe_complete (fun _ _ _ => identifier_complete) name (identifier_fails_opening opening)
  have other : (key.kind != "CHECK") = true := by simpa using unchecked
  rw [Reader.index, bind_of_ok constraint_read, bind_of_ok kind_read, bind_of_ok name_read]
  simp only [other, Bool.and_true]
  rfl

theorem index_complete {key : Key} {t rest : List Char} (spelled : KeyText key t rest)
    (plain : ∀ part ∈ key.parts, part.hasLength = false) :
    Reader.index (t ++ rest) = .ok (key.index, rest) := by
  cases spelled with
  | mk constraint kind name opened parts closed =>
    have columns := keyColumns_complete opened parts closed plain
    simp only [List.append_assoc]
    rw [index_head constraint kind name (symbol_opens opened rfl), bind_of_ok (option_of_ok columns)]
    rfl

theorem index_fails_length {key : Key} {t rest : List Char} (spelled : KeyText key t rest)
    (long : ∃ part ∈ key.parts, part.hasLength = true) : Fails Reader.index (t ++ rest) := by
  cases spelled with
  | mk constraint kind name opened parts closed =>
    have columns := keyColumns_fails opened parts long
    simp only [List.append_assoc]
    rw [Fails, index_head constraint kind name (symbol_opens opened rfl),
      bind_of_ok (option_of_fails columns)]
    exact ⟨_, rfl⟩

end Reader

/-! What an element gives. -/

def Yields (elements : List (List Char)) (columns : List Column) (indexes : List Index) : Prop :=
  ∀ table : TableDefinition, elements.foldlM TableDefinition.addElement? table
    = some { table with columns := table.columns ++ columns, indexes := table.indexes ++ indexes }

theorem Yields.append {elements later : List (List Char)} {columns others : List Column}
    {indexes more : List Index} (first : Yields elements columns indexes)
    (rest : Yields later others more) : Yields (elements ++ later) (columns ++ others) (indexes ++ more) := by
  intro table
  rw [List.foldlM_append, first table]
  refine (rest _).trans ?_
  simp

theorem Yields.eq {elements : List (List Char)} {columns : List Column} {indexes : List Index}
    (yields : Yields elements columns indexes) {table : TableDefinition}
    (added : elements.foldlM TableDefinition.addElement? { table with columns := [], indexes := [] }
      = some table) : table.columns = columns ∧ table.indexes = indexes := by
  rw [yields] at added
  have same := Option.some.inj added
  exact ⟨(congrArg TableDefinition.columns same).symm, (congrArg TableDefinition.indexes same).symm⟩

section Element

variable {element : List Char} (nonempty : element ≠ [])
include nonempty

theorem yields_index {index : Index} (read : indexElement? element = some index) :
    Yields [element] [] [index] := by
  intro table
  have added : table.addElement? element = some { table with indexes := table.indexes ++ [index] } := by
    rw [TableDefinition.addElement?, read]
    simp [nonempty]
  rw [List.foldlM_cons, added]
  simp

theorem yields_column {column : Column} (other : indexElement? element = none)
    (read : columnElement? element = some column) : Yields [element] [column] column.ownKey := by
  intro table
  have added : table.addElement? element = some { table with
      columns := table.columns ++ [column]
      indexes := table.indexes ++ column.ownKey } := by
    rw [TableDefinition.addElement?, other, read, Column.ownKey]
    cases own : hasPrimaryKey column.specs <;> simp [nonempty, own]
  rw [List.foldlM_cons, added]
  simp

end Element

theorem addElement_cases {element : List Char} {table result : TableDefinition}
    (added : table.addElement? element = some result) :
    element ≠ [] ∧ ((∃ index, indexElement? element = some index)
      ∨ indexElement? element = none ∧ ∃ column, columnElement? element = some column) := by
  rw [TableDefinition.addElement?] at added
  split at added
  · cases added
  · next nonempty =>
    refine ⟨by simpa using nonempty, ?_⟩
    cases read : indexElement? element with
    | some index => exact .inl ⟨index, rfl⟩
    | none =>
      rw [read] at added
      obtain ⟨column, found, _⟩ := Option.map_eq_some_iff.mp added
      exact .inr ⟨rfl, column, found⟩

theorem yields_of_added {elements : List (List Char)} {table result : TableDefinition}
    (added : elements.foldlM TableDefinition.addElement? table = some result) :
    ∃ columns indexes, Yields elements columns indexes := by
  induction elements generalizing table with
  | nil => exact ⟨[], [], fun table => by simp⟩
  | cons element elements ih =>
    rw [List.foldlM_cons] at added
    obtain ⟨next, found, added⟩ := Option.bind_eq_some_iff.mp added
    obtain ⟨columns, indexes, rest⟩ := ih added
    obtain ⟨nonempty, ⟨index, read⟩ | ⟨other, column, read⟩⟩ := addElement_cases found
    · exact ⟨_, _, (yields_index nonempty read).append rest⟩
    · exact ⟨_, _, (yields_column nonempty other read).append rest⟩

def definitionElements? (s : List Char) : Option (List (List Char)) :=
  match tableHead s with
  | .error _ => none
  | .ok (_, rest) => (cutAtClosing rest).map fun (body, _) => (topLevelPieces ',' body).map Text.trim

theorem ofText_elements {s : List Char} {table : TableDefinition}
    (read : TableDefinition.ofText? s = some table) {elements : List (List Char)}
    (cut : definitionElements? s = some elements) :
    elements.foldlM TableDefinition.addElement? { table with columns := [], indexes := [] }
      = some table := by
  rw [TableDefinition.ofText?] at read
  rw [definitionElements?] at cut
  split at read
  · cases read
  · next name rest head =>
    rw [head] at cut
    split at read
    · cases read
    · next body tail found =>
      simp only [found, Option.map_some, Option.some.injEq] at cut
      rw [cut] at read
      obtain ⟨columns, indexes, yields⟩ := yields_of_added read
      rw [yields] at read
      cases read
      exact yields _

/-- Of the elements of a definition that is read, one that is written as a key gives the index with
the key's columns, in order and among the indexes of the other elements, and it gives no column. This
is so if no column of the key has a length; otherwise the element gives a column. -/
theorem key_element_listed {sql : String} {table : TableDefinition}
    (read : SourceStatement.ofSql sql = .ok ⟨sql, .createTable table⟩)
    {before after : List (List Char)} {t rest : List Char} {key : Key}
    (elements : definitionElements? (statementBody sql.toList)
      = some (before ++ (t ++ rest) :: after)) (spelled : KeyText key t rest) :
    ∃ columns indexes others more, Yields before columns indexes ∧ Yields after others more
      ∧ ((∀ part ∈ key.parts, part.hasLength = false) →
        table.columns = columns ++ others ∧ table.indexes = indexes ++ key.index :: more)
      ∧ ((∃ part ∈ key.parts, part.hasLength = true) →
        ∃ column : Column, table.columns = columns ++ column :: others
          ∧ table.indexes = indexes ++ column.ownKey ++ more) := by
  have added := ofText_elements (ofSql_table read) elements
  have pieces := added
  rw [List.foldlM_append] at pieces
  obtain ⟨middle, first, last⟩ := Option.bind_eq_some_iff.mp pieces
  rw [List.foldlM_cons] at last
  obtain ⟨next, here, last⟩ := Option.bind_eq_some_iff.mp last
  obtain ⟨columns, indexes, yields⟩ := yields_of_added first
  obtain ⟨others, more, later⟩ := yields_of_added last
  refine ⟨columns, indexes, others, more, yields, later, fun plain => ?_, fun long => ?_⟩
  · have found : indexElement? (t ++ rest) = some key.index := by
      rw [indexElement?, index_complete spelled plain]
    have index := yields_index (addElement_cases here).1 found
    exact (yields.append (index.append later)).eq added
  · obtain ⟨stuck, failed⟩ := index_fails_length spelled long
    have unlisted : indexElement? (t ++ rest) = none := by rw [indexElement?, failed]
    obtain ⟨nonempty, ⟨index, found⟩ | ⟨_, column, found⟩⟩ := addElement_cases here
    · rw [unlisted] at found
      cases found
    · refine ⟨column, ?_⟩
      rw [List.append_assoc]
      exact (yields.append ((yields_column nonempty unlisted found).append later)).eq added

def namedKeyText : String :=
  "CREATE TABLE t (\"a b\" INT, c INT, CONSTRAINT u UNIQUE key k (\"a b\" DESC, c) USING BTREE, d INT)"

def namedKey : Key where
  constraint := some "u"
  kind := "UNIQUE"
  name := some "k"
  parts := [⟨"a b", false, true⟩, ⟨"c", false, false⟩]

instance (g rest : List Char) : Decidable (Gap g rest) :=
  inferInstanceAs (Decidable (skipGaps (g ++ rest) = rest))

instance (rest : List Char) : Decidable (EndsWord rest) :=
  decidable_of_iff (rest.head?.all (!isNameCharacter ·) = true) (by simp [EndsWord, Option.all_eq_true])

theorem namedKey_spelled :
    KeyText namedKey "CONSTRAINT u UNIQUE key k (\"a b\" DESC, c)".toList " USING BTREE".toList := by
  have word : ∀ {c : Char}, isNameStart c = true → isNameCharacter c = true → IsWord [c] :=
    fun start inside => ⟨⟨_, rfl, start⟩, by simpa using inside⟩
  have parts : Separated (SymbolText ",") KeyPartText namedKey.parts
      (("\"a b\"".toList ++ ([] ++ ([' '] ++ "DESC".toList))) ++ (([] ++ ",".toList)
        ++ (([' '] ++ ['c']) ++ ([] ++ [])))) ") USING BTREE".toList := by
    refine .more (.mk ⟨[], _, rfl, by decide, .quoted (.inl rfl) (by decide)⟩ (.missing _) ?_)
      (.mk (by decide)) (.one (.mk ⟨_, _, rfl, by decide, ?_⟩ (.missing _) (.missing _)))
    · exact .there (.inr (.mk (by decide) (by decide) (by decide)))
    · exact .plain (word (by decide) (by decide)) (by decide) (by decide)
  refine @KeyText.mk namedKey ("CONSTRAINT".toList ++ ([' '] ++ ['u']))
    (([' '] ++ "UNIQUE".toList) ++ ([' '] ++ "key".toList)) ([' '] ++ ['k']) ([' '] ++ "(".toList)
    _ ([] ++ ")".toList) _ (.there ⟨(), _, _, rfl, ?_, _, _, rfl, by decide, ?_⟩)
    (@KeyKindText.mk "UNIQUE" "KEY" _ _ _ _ (by decide) ?_ ?_) (.there ⟨_, _, rfl, by decide, ?_⟩)
    (.mk (by decide)) parts (.mk (by decide))
  · exact @KeywordText.mk _ [] _ _ (by decide) (by decide) (by decide)
  · exact .plain (word (by decide) (by decide)) (by decide) (by decide)
  · exact .mk (by decide) (by decide) (by decide)
  · exact .mk (by decide) (by decide) (by decide)
  · exact .plain (word (by decide) (by decide)) (by decide) (by decide)

def namedKeyTable : TableDefinition where
  name := "t"
  columns := [⟨"a b", { name := "INT" }, []⟩, ⟨"c", { name := "INT" }, []⟩, ⟨"d", { name := "INT" }, []⟩]
  indexes := [⟨"UNIQUE", some "u", ["a b", "c"]⟩]

theorem namedKey_listed :
    definitionOf? namedKeyText = some namedKeyTable
      ∧ ∃ columns indexes others more, Yields ["\"a b\" INT".toList, "c INT".toList] columns indexes
        ∧ Yields ["d INT".toList] others more
        ∧ namedKeyTable.columns = columns ++ others
        ∧ namedKeyTable.indexes = indexes ++ ⟨"UNIQUE", some "u", ["a b", "c"]⟩ :: more := by
  have found : definitionOf? namedKeyText = some namedKeyTable := by decide +kernel
  have elements : definitionElements? (statementBody namedKeyText.toList)
      = some (["\"a b\" INT".toList, "c INT".toList]
        ++ ("CONSTRAINT u UNIQUE key k (\"a b\" DESC, c)".toList ++ " USING BTREE".toList)
          :: ["d INT".toList]) := by decide +kernel
  obtain ⟨columns, indexes, others, more, earlier, later, plain, _⟩ :=
    key_element_listed (read_of_definitionOf? found) elements namedKey_spelled
  exact ⟨found, columns, indexes, others, more, earlier, later, plain (by decide)⟩

/-- With a length behind one of its columns, a key is read as a column called by its first word. -/
theorem key_with_length_is_column :
    (definitionOf? "CREATE TABLE t (a VARCHAR(10), UNIQUE KEY k (a(5)))").map (fun table =>
        (table.columns.map Column.name, table.indexes))
      = some (["a", "UNIQUE"], []) := by
  decide +kernel

end SqlDialects
