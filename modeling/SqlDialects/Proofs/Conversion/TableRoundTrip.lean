import SqlDialects.Conversion.Statement
import SqlDialects.Proofs.Canonical.RoundTrip
import SqlDialects.Proofs.Conversion.Options
import SqlDialects.Proofs.Grammar.Nesting
import SqlDialects.Proofs.Grammar.Table

/-
Written table definitions are read back. The definition that is read has the names of the one that
was converted, its types in the target dialect, the constraints that are kept and the primary key.
-/
namespace SqlDialects

open Reader Spelling Nesting

/-! Which definitions are meant, and what they are read as. -/

def separates (c : Char) : Bool := Text.isBlank c || c == ',' || c == ')'

inductive DefaultText : String → Prop
  | mk {word value : List Char} (same : word.map Char.toUpper = "DEFAULT".toList)
      (nonempty : value ≠ []) (token : passes separates {} value = true) :
      DefaultText (String.ofList (word ++ ' ' :: value))

structure Column.Separable (column : Column) : Prop where
  name : '.' ∉ column.name.toList
  type : isTypeName column.type.name = true
  defaults : ∀ token ∈ column.specs,
    "DEFAULT".toList.isPrefixOf (Text.upper token).toList = true → DefaultText token

structure TableDefinition.Separable (table : TableDefinition) : Prop where
  nonempty : table.columns ≠ []
  columns : ∀ column ∈ table.columns, column.Separable
  key : ∀ index ∈ table.indexes.find? Index.isPrimaryKey,
    index.columns ≠ [] ∧ ∀ name ∈ index.columns, '.' ∉ name.toList

def Constraints.tokens (constraints : Constraints) : List String :=
  constraints.kept.flatMap fun kept => if kept = "NOT NULL" then ["NOT", "NULL"] else [kept]

def Column.reread (pair : Pair) (column : Column) : Column where
  name := column.name
  type := (column.type.mapped pair).asWritten
  specs := (Constraints.ofSpecs column.specs).tokens

def TableDefinition.reread (pair : Pair) (table : TableDefinition) : TableDefinition where
  name := table.name
  columns := table.columns.map (Column.reread pair)
  indexes := (table.indexes.find? Index.isPrimaryKey).toList.map fun index =>
    { kind := "PRIMARY KEY", columns := index.columns }

/-! Constraints. -/

theorem constraint_cases {given : String → Prop} {specs : List String}
    (defaults : ∀ token ∈ specs,
      "DEFAULT".toList.isPrefixOf (Text.upper token).toList = true → given token) :
    ∀ kept ∈ (Constraints.ofSpecs specs).kept, kept = "NOT NULL" ∨ given kept := by
  have added : ∀ (token : String) (constraints : Constraints),
      ("DEFAULT".toList.isPrefixOf (Text.upper token).toList = true → given token) →
      (∀ kept ∈ constraints.kept, kept = "NOT NULL" ∨ given kept) →
      ∀ kept ∈ (Constraints.add token constraints).kept, kept = "NOT NULL" ∨ given kept := by
    intro token constraints known later kept member
    rw [Constraints.add] at member
    split at member
    · exact later kept member
    · split at member
      · next begins =>
        rcases List.mem_cons.mp member with rfl | member
        · exact .inr (known begins)
        · exact later kept member
      · exact later kept member
  fun_induction Constraints.ofSpecs specs with
  | case1 => exact fun kept member => nomatch member
  | case2 token =>
    exact added token {} (defaults token (by simp)) fun kept member => nomatch member
  | case3 first second rest _ later ih =>
    intro kept member
    rcases List.mem_cons.mp member with rfl | member
    · exact .inl rfl
    · exact ih (fun token listed => defaults token (by simp [listed])) kept member
  | case4 first second rest _ _ ih =>
    exact ih fun token listed => defaults token (by simp [listed])
  | case5 first second rest _ _ ih =>
    exact added first _ (defaults first (by simp)) (ih fun token listed =>
      defaults token (by simp [List.mem_cons.mp listed]))

theorem joinDefaults_other {token : String}
    (other : Text.sameIgnoringCase token "DEFAULT" = false) (rest : List String) :
    joinDefaults (token :: rest) = token :: joinDefaults rest := by
  cases rest with
  | nil => rfl
  | cons value rest => simp [joinDefaults, other]

structure Tokenizes (text : List Char) (specs : List String) (words : List (List Char)) : Prop where
  written : text = words.flatMap (' ' :: ·)
  each : ∀ word ∈ words, word ≠ [] ∧ passes Text.isBlank {} word = true
  joined : ∀ rest, joinDefaults (words.map String.ofList ++ rest) = specs ++ joinDefaults rest

theorem default_letters {word : List Char} (same : word.map Char.toUpper = "DEFAULT".toList) :
    word ≠ [] ∧ ∀ c ∈ word, c.isAlpha = true := by
  refine ⟨?_, @capital_letters "DEFAULT" rfl _ same⟩
  rintro rfl
  cases same

theorem flat_letter {c : Char} (letter : c.isAlpha = true) :
    isFlat c = true ∧ separates c = false := by
  have flat : c ∉ ['\x27', '"', '\x60', '(', ')', ','] := Text.not_mem_of_all letter rfl
  have solid : Text.isBlank c = false :=
    not_blank_of_nameCharacter (nameCharacter_of_isAlpha c letter)
  simp only [List.mem_cons, List.not_mem_nil, or_false, not_or] at flat
  simp [isFlat, isQuote, separates, flat, solid]

theorem constraint_tokenizes {kept : String} (known : kept = "NOT NULL" ∨ DefaultText kept) :
    ∃ words, Tokenizes (' ' :: kept.toList)
      (if kept = "NOT NULL" then ["NOT", "NULL"] else [kept]) words := by
  have blanks : ∀ c, separates c = false → Text.isBlank c = false := fun c free => by
    simp only [separates, Bool.or_eq_false_iff] at free
    exact free.1.1
  rcases known with rfl | ⟨same, nonempty, token⟩
  · refine ⟨["NOT".toList, "NULL".toList], by simp, ?_, fun rest => ?_⟩
    · have letters : ∀ word ∈ ["NOT".toList, "NULL".toList],
          (!word.isEmpty && passes Text.isBlank {} word) = true :=
        List.all_eq_true.mp (by decide)
      intro word member
      simpa using letters word member
    · exact (@joinDefaults_other "NOT" (by decide) _).trans
        (congrArg ("NOT" :: ·) (@joinDefaults_other "NULL" (by decide) rest))
  · next word value =>
    obtain ⟨some, letters⟩ := default_letters same
    have upper : Text.sameIgnoringCase (String.ofList word) "DEFAULT" = true := by
      rw [Text.sameIgnoringCase, Text.upper, String.toList_ofList, same]
      decide
    have different : String.ofList (word ++ ' ' :: value) ≠ "NOT NULL" := by
      intro equal
      have texts : word ++ ' ' :: value = "NOT NULL".toList := by
        rw [← equal, String.toList_ofList]
      have heads := congrArg (fun t : List Char => (t.map Char.toUpper).head?) texts
      simp [same] at heads
    refine ⟨[word, value], by simp, ?_, fun rest => ?_⟩
    · intro found member
      rcases List.mem_cons.mp member with rfl | member
      · exact ⟨some, passes_flat fun c inside =>
          ⟨(flat_letter (letters c inside)).1, blanks c (flat_letter (letters c inside)).2⟩⟩
      · obtain rfl := List.mem_singleton.mp member
        exact ⟨nonempty, passes_weaken blanks token⟩
    · rw [if_neg different]
      simp [joinDefaults, upper, String.ofList_append, String.append_assoc]

def constraintsText (kept : List String) : List Char := kept.flatMap fun text => ' ' :: text.toList

theorem constraintsText_cons (text : String) (kept : List String) :
    constraintsText (text :: kept) = ' ' :: (text.toList ++ constraintsText kept) := by
  simp [constraintsText]

theorem constraintsText_tokenizes {kept : List String}
    (known : ∀ text ∈ kept, text = "NOT NULL" ∨ DefaultText text) :
    ∃ words, Tokenizes (constraintsText kept)
      (kept.flatMap fun text => if text = "NOT NULL" then ["NOT", "NULL"] else [text]) words := by
  induction kept with
  | nil => exact ⟨[], rfl, by simp, fun rest => rfl⟩
  | cons text kept ih =>
    obtain ⟨first, head⟩ := constraint_tokenizes (known text List.mem_cons_self)
    obtain ⟨others, tail⟩ := ih fun later member => known later (.tail text member)
    refine ⟨first ++ others, ?_, fun word member => ?_, fun rest => ?_⟩
    · rw [constraintsText_cons, ← List.cons_append, tail.written, head.written, List.flatMap_append]
    · exact (List.mem_append.mp member).elim (head.each word) (tail.each word)
    · rw [List.map_append, List.append_assoc, head.joined, tail.joined, List.flatMap_cons,
        List.append_assoc]

theorem specTokens_constraints {kept : List String}
    (known : ∀ text ∈ kept, text = "NOT NULL" ∨ DefaultText text) :
    specTokens (constraintsText kept)
      = kept.flatMap fun text => if text = "NOT NULL" then ["NOT", "NULL"] else [text] := by
  obtain ⟨words, tokenizes⟩ := constraintsText_tokenizes known
  have joined := tokenizes.joined []
  rw [List.append_nil, joinDefaults, List.append_nil] at joined
  rw [specTokens, tokenizes.written, tokens_blanks tokenizes.each, joined]

theorem hasPrimaryKey_constraints {kept : List String}
    (known : ∀ text ∈ kept, text = "NOT NULL" ∨ DefaultText text) :
    hasPrimaryKey (kept.flatMap fun text => if text = "NOT NULL" then ["NOT", "NULL"] else [text])
      = false := by
  have scan : ∀ specs : List String, (∀ token ∈ specs,
      Text.sameIgnoringCase token "PRIMARY" = false) → hasPrimaryKey specs = false := by
    intro specs
    fun_induction hasPrimaryKey specs with
    | case1 first second rest ih =>
      intro other
      rw [other first List.mem_cons_self, ih fun token member => other token (.tail first member)]
      rfl
    | case2 => exact fun _ => rfl
  refine scan _ fun token member => ?_
  obtain ⟨text, listed, inside⟩ := List.mem_flatMap.mp member
  rcases known text listed with rfl | ⟨same, nonempty, passed⟩
  · rw [if_pos rfl] at inside
    simp only [List.mem_cons, List.not_mem_nil, or_false] at inside
    rcases inside with rfl | rfl <;> decide
  · next word value =>
    split at inside
    · simp only [List.mem_cons, List.not_mem_nil, or_false] at inside
      rcases inside with rfl | rfl <;> decide
    · obtain rfl := List.mem_singleton.mp inside
      cases equal : Text.sameIgnoringCase (String.ofList (word ++ ' ' :: value)) "PRIMARY" with
      | false => rfl
      | true =>
        rw [Text.sameIgnoringCase, beq_iff_eq, Text.upper, String.toList_ofList, List.map_append,
          same] at equal
        have heads := congrArg (fun t : String => t.toList.head?) equal
        rw [String.toList_ofList] at heads
        cases heads

/-! Types. -/

theorem table_isTypeName (pair : Pair) :
    ∀ mapping ∈ TypeMapping.table pair, isTypeName mapping.target = true := by
  have checked : ∀ source target : Dialect,
      (TypeMapping.table ⟨source, target⟩).all (fun mapping => isTypeName mapping.target) = true := by
    intro source target
    cases source <;> cases target <;> decide
  exact List.all_eq_true.mp (checked pair.source pair.target)

theorem mapped_isTypeName (pair : Pair) {type : DataType} (named : isTypeName type.name = true) :
    isTypeName (type.mapped pair).name = true := by
  rw [DataType.mapped]
  split
  · next mapping found =>
    have target := table_isTypeName pair mapping (List.mem_of_find?_eq_some found)
    rw [TypeMapping.apply]
    split <;> exact target
  · exact named

theorem flat_nameCharacter {c : Char} (inside : isNameCharacter c = true) :
    isFlat c = true ∧ c ≠ ',' ∧ c ≠ ')' := by
  have flat : c ∉ ['\x27', '"', '\x60', '(', ')', ','] := Text.not_mem_of_all inside rfl
  simp only [List.mem_cons, List.not_mem_nil, or_false, not_or] at flat
  simp [isFlat, isQuote, flat]

theorem passes_nameCharacters {word : List Char} (inside : ∀ c ∈ word, isNameCharacter c = true) :
    passes (fun c => c == ',' || c == ')') {} word = true :=
  passes_flat fun c member => by
    obtain ⟨flat, comma, close⟩ := flat_nameCharacter (inside c member)
    exact ⟨flat, by simp [comma, close]⟩

/-! Lines. -/

def EndsSolid (s : List Char) : Prop := ∃ c, s.getLast? = some c ∧ Text.isBlank c = false

/-- A line of a definition: it can stand between commas and parentheses, and begins and ends in
characters that are kept. -/
structure IsLine (line : List Char) : Prop where
  through : passes (fun c => c == ',' || c == ')') {} line = true
  begins : ∃ c, line.head? = some c ∧ Text.isBlank c = false
  ends : EndsSolid line

theorem EndsSolid.behind {t : List Char} (solid : EndsSolid t) (s : List Char) :
    EndsSolid (s ++ t) := by
  obtain ⟨c, last, blank⟩ := solid
  exact ⟨c, by rw [List.getLast?_append, last]; rfl, blank⟩

theorem endsSolid_one {c : Char} (solid : Text.isBlank c = false) : EndsSolid [c] := ⟨c, rfl, solid⟩

theorem endsSolid_nameCharacters {word : List Char} (nonempty : word ≠ [])
    (inside : ∀ c ∈ word, isNameCharacter c = true) : EndsSolid word :=
  ⟨word.getLast nonempty, List.getLast?_eq_some_getLast nonempty,
    not_blank_of_nameCharacter (inside _ (List.getLast_mem nonempty))⟩

theorem parameters_cases (type : DataType) : type.parameters = []
    ∨ ∃ s : List Char, type.parameters = '(' :: (s ++ [')']) ∧ ∀ c ∈ s, c.isDigit = true ∨ c = ',' := by
  have digits : ∀ (n : UInt32), ∀ c ∈ (toString n.toNat).toList, c.isDigit = true ∨ c = ',' :=
    fun n c member => .inl ((decimal_digits n.toNat).inside c member)
  rw [DataType.parameters]
  split
  · next p s _ _ =>
    refine .inr ⟨_, rfl, fun c member => ?_⟩
    rcases List.mem_append.mp member with member | member
    · exact digits p c member
    · exact (List.mem_cons.mp member).elim .inr (digits s c)
  · next p _ _ => exact .inr ⟨_, rfl, digits p⟩
  · exact .inl rfl

theorem type_line {type : DataType} (named : isTypeName type.name = true) :
    passes (fun c => c == ',' || c == ')') {} type.toSql.toList = true
      ∧ EndsSolid type.toSql.toList := by
  have parenthesized : ∀ {s : List Char}, (∀ c ∈ s, c.isDigit = true ∨ c = ',') →
      passes (fun c => c == ',' || c == ')') {} ('(' :: (s ++ [')'])) = true := by
    intro s inside
    refine passes_parentheses rfl (passes_flat fun c member => ?_)
    rcases inside c member with digit | rfl
    · obtain ⟨flat, _, close⟩ := flat_nameCharacter (nameCharacter_of_isDigit c digit)
      exact ⟨flat, by simpa using close⟩
    · decide
  have closed : ∀ s : List Char, EndsSolid ('(' :: (s ++ [')'])) := fun s =>
    (endsSolid_one rfl).behind ('(' :: s)
  have name : passes (fun c => c == ',' || c == ')') {} type.name.toList = true
      ∧ EndsSolid type.name.toList := by
    rcases isTypeName_cases named with typed | ⟨word, suffix, typed, listed, split⟩
    · obtain ⟨shape, _⟩ := isTypeWord_shape typed
      exact ⟨passes_nameCharacters shape.inside,
        endsSolid_nameCharacters (shape.ne_nil) shape.inside⟩
    · obtain ⟨shape, _⟩ := isTypeWord_shape typed
      obtain ⟨later, _⟩ := isTypeWord_shape (typeSuffixes_shape listed).2
      rw [split]
      exact ⟨passes_append (passes_nameCharacters shape.inside)
          (passes_behind rfl rfl (passes_nameCharacters later.inside)),
        ((endsSolid_nameCharacters (later.ne_nil) later.inside).behind [' ']).behind word⟩
  rw [DataType.toSql_parameters]
  rcases parameters_cases type with none | ⟨s, some, inside⟩
  · rw [none, List.append_nil]
    exact name
  · rw [some]
    exact ⟨passes_append name.1 (parenthesized inside), (closed s).behind _⟩

/-- A constraint that may stand behind a type and between commas: a default, or `NOT NULL`. -/
structure FitsLine (text : String) : Prop where
  begins : ∃ c t, text.toList = c :: t ∧ (c.toUpper = 'N' ∨ c.toUpper = 'D')
  through : passes (fun c => c == ',' || c == ')') {} text.toList = true
  ends : EndsSolid text.toList

theorem fitsLine_notNull : FitsLine "NOT NULL" where
  begins := ⟨'N', "OT NULL".toList, by simp, .inl rfl⟩
  through := by decide
  ends := ⟨'L', rfl, rfl⟩

theorem separates_weaken (c : Char) (free : separates c = false) : (c == ',' || c == ')') = false := by
  simp only [separates, Bool.or_eq_false_iff] at free
  simp [free.1.2, free.2]

theorem token_endsSolid {token : List Char} (nonempty : token ≠ [])
    (through : passes separates {} token = true) : EndsSolid token := by
  obtain ⟨init, c, rfl⟩ : ∃ init c, token = init ++ [c] :=
    ⟨_, _, (List.dropLast_append_getLast nonempty).symm⟩
  refine ⟨c, by simp, @passes_last separates (fun d blank => ?_) {} (by simp) _ _ through⟩
  simp [separates, blank]

theorem DefaultText.fitsLine {text : String} (default : DefaultText text) : FitsLine text := by
  obtain ⟨same, nonempty, token⟩ := default
  next word value =>
  obtain ⟨some, letters⟩ := default_letters same
  have head : passes (fun c => c == ',' || c == ')') {} word = true :=
    passes_flat fun c member =>
      ⟨(flat_letter (letters c member)).1, separates_weaken c (flat_letter (letters c member)).2⟩
  refine ⟨?_, ?_, ?_⟩
  · cases word with
    | nil => exact absurd rfl some
    | cons c word =>
      rw [String.toList_ofList]
      exact ⟨c, _, rfl, .inr (List.cons.inj same).1⟩
  · rw [String.toList_ofList]
    exact passes_append head (passes_behind rfl rfl (passes_weaken separates_weaken token))
  · rw [String.toList_ofList]
    exact ((token_endsSolid nonempty token).behind [' ']).behind word

theorem constraintsText_ends {kept : List String} (known : ∀ text ∈ kept, FitsLine text) :
    EndsType (constraintsText kept) := by
  cases kept with
  | nil => exact ⟨endsWord_nil, by decide, by decide⟩
  | cons text kept =>
    obtain ⟨c, t, split, initial⟩ := (known text List.mem_cons_self).begins
    have letter : c.isAlpha = true := by
      rw [← Char.isAlpha_toUpper_eq_isAlpha]
      rcases initial with upper | upper <;> rw [upper] <;> rfl
    have solid : afterGap (c :: (t ++ constraintsText kept)) = none :=
      solid_of_head _ (Text.not_mem_of_all letter rfl)
    rw [constraintsText_cons, split]
    refine ⟨endsWord_blank _, ?_, ?_⟩
    · have leads : leadingWord ([' '] ++ (c :: (t ++ constraintsText kept)))
          = String.ofList ((c :: (t ++ constraintsText kept).takeWhile isNameCharacter).map
            Char.toUpper) := by
        rw [leadingWord, gap_blank solid, List.takeWhile_cons, nameCharacter_of_isAlpha c letter]
        rfl
      have heads : ∀ suffix ∈ typeSuffixes,
          suffix.toList.head? ≠ some 'N' ∧ suffix.toList.head? ≠ some 'D' := by decide
      intro listed
      obtain ⟨other, another⟩ := heads _ listed
      rw [List.singleton_append] at leads
      rw [List.cons_append, leads, String.toList_ofList, List.map_cons, List.head?_cons] at other another
      rcases initial with upper | upper
      · exact other (congrArg some upper)
      · exact another (congrArg some upper)
    · have first : front ([' '] ++ (c :: (t ++ constraintsText kept))) = some c :=
        front_gap (gap_blank solid)
      rw [List.singleton_append] at first
      rw [List.cons_append, first]
      rintro same
      cases same
      cases letter

theorem constraints_line {kept : List String} (known : ∀ text ∈ kept, FitsLine text) :
    passes (fun c => c == ',' || c == ')') {} (constraintsText kept) = true
      ∧ (constraintsText kept = [] ∨ EndsSolid (constraintsText kept)) := by
  induction kept with
  | nil => exact ⟨rfl, .inl rfl⟩
  | cons text kept ih =>
    have first := known text List.mem_cons_self
    obtain ⟨later, rest⟩ := ih fun text member => known text (.tail _ member)
    have solid : EndsSolid (text.toList ++ constraintsText kept) := by
      rcases rest with none | rest
      · rw [none, List.append_nil]
        exact first.ends
      · exact rest.behind _
    rw [constraintsText_cons]
    exact ⟨passes_behind rfl rfl (passes_append first.through later), .inr (solid.behind [' '])⟩

theorem quote_known (d : Dialect) : d.quote = '"' ∨ d.quote = '\x60' := by
  cases d <;> decide

theorem quote_isQuote (d : Dialect) : isQuote d.quote = true := by
  cases d <;> rfl

theorem quoteName_text (d : Dialect) (name : String) :
    (d.quoteName name).toList
      = ['.'].intercalate ((Text.pieces '.' name.toList).map (Text.enclose d.quote)) := by
  rw [Dialect.quoteName, String.toList_intercalate, List.map_map]
  congr 1
  exact List.map_congr_left fun part _ => String.toList_ofList

theorem quoteName_one (d : Dialect) {name : String} (dotless : '.' ∉ name.toList) :
    (d.quoteName name).toList = Text.enclose d.quote name.toList := by
  rw [quoteName_text, Text.pieces_one dotless]
  exact List.intercalate_singleton

theorem quoteName_begins (d : Dialect) (name : String) :
    ∃ t, (d.quoteName name).toList = d.quote :: t := by
  obtain ⟨first, others, pieces⟩ := Text.pieces_cons '.' name.toList
  rw [quoteName_text, pieces]
  cases others with
  | nil => exact ⟨_, List.intercalate_singleton⟩
  | cons second others => exact ⟨_, List.intercalate_cons_cons⟩

theorem quoteName_line (d : Dialect) (name : String) :
    passes (fun c => c == ',' || c == ')') {} (d.quoteName name).toList = true := by
  have part : ∀ body, passes (fun c => c == ',' || c == ')') {} (Text.enclose d.quote body) = true := by
    refine passes_enclose (quote_isQuote d) ?_
    rcases quote_known d with same | same <;> rw [same] <;> decide
  rw [quoteName_text]
  induction Text.pieces '.' name.toList with
  | nil => rfl
  | cons first others ih =>
    cases others with
    | nil => simpa using part first
    | cons second others =>
      simp only [List.map_cons, List.intercalate_cons_cons] at ih ⊢
      exact passes_append (passes_append (part first) (passes_behind rfl rfl rfl)) ih

theorem blanks_text (first : String) (others : List String) :
    (" ".intercalate (first :: others)).toList = first.toList ++ constraintsText others := by
  induction others generalizing first with
  | nil => simp [constraintsText]
  | cons second others ih =>
    rw [String.intercalate_cons_of_ne_nil (by simp), String.toList_append, ih, constraintsText_cons]
    simp

theorem line_text (pair : Pair) (column : Column) : (column.line pair).toList
    = (pair.target.quoteName column.name).toList
      ++ (' ' :: ((column.type.mapped pair).toSql.toList
        ++ constraintsText (Constraints.ofSpecs column.specs).kept)) := by
  have items : [pair.target.quoteName column.name, (column.type.mapped pair).toSql]
      ++ (Constraints.ofSpecs column.specs).kept
      = pair.target.quoteName column.name :: (column.type.mapped pair).toSql
        :: (Constraints.ofSpecs column.specs).kept := rfl
  rw [Column.line, items, blanks_text, constraintsText_cons]

structure Column.Writable (column : Column) : Prop where
  type : isTypeName column.type.name = true
  kept : ∀ text ∈ (Constraints.ofSpecs column.specs).kept, FitsLine text

theorem Column.Separable.writable {column : Column} (separable : column.Separable) :
    column.Writable where
  type := separable.type
  kept text member := by
    rcases constraint_cases separable.defaults text member with rfl | default
    · exact fitsLine_notNull
    · exact default.fitsLine

def Column.rewritten (pair : Pair) (column : Column) : Column where
  name := column.name
  type := (column.type.mapped pair).asWritten
  specs := specTokens (constraintsText (Constraints.ofSpecs column.specs).kept)

def Column.ownKey (column : Column) : List Index :=
  if hasPrimaryKey column.specs then [{ kind := "PRIMARY KEY", columns := [column.name] }] else []

theorem Column.Separable.rewritten {column : Column} (separable : column.Separable) (pair : Pair) :
    column.rewritten pair = column.reread pair := by
  rw [Column.rewritten, specTokens_constraints (constraint_cases separable.defaults)]
  rfl

theorem Column.Separable.ownKey {column : Column} (separable : column.Separable) (pair : Pair) :
    (column.reread pair).ownKey = [] := by
  have plain : hasPrimaryKey (column.reread pair).specs = false :=
    hasPrimaryKey_constraints (constraint_cases separable.defaults)
  rw [Column.ownKey, plain]
  rfl

section Columns

variable {pair : Pair} {column : Column}

theorem indexElement_line : indexElement? (column.line pair).toList = none := by
  obtain ⟨t, begins⟩ := quoteName_begins pair.target column.name
  obtain ⟨stuck, failed⟩ := index_fails (quote_known pair.target)
    (t ++ (' ' :: ((column.type.mapped pair).toSql.toList
      ++ constraintsText (Constraints.ofSpecs column.specs).kept)))
  rw [indexElement?, line_text, begins]
  simp only [List.cons_append, failed]

variable (writable : column.Writable)
include writable

theorem column_isLine : IsLine (column.line pair).toList := by
  have typed := type_line (mapped_isTypeName pair writable.type)
  have kept := constraints_line writable.kept
  obtain ⟨t, begins⟩ := quoteName_begins pair.target column.name
  have name := quoteName_line pair.target column.name
  have ends : EndsSolid ((column.type.mapped pair).toSql.toList
      ++ constraintsText (Constraints.ofSpecs column.specs).kept) := by
    rcases kept.2 with none | some
    · rw [none, List.append_nil]
      exact typed.2
    · exact some.behind _
  rw [line_text]
  refine ⟨passes_append name (passes_behind rfl rfl (passes_append typed.1 kept.1)),
    ⟨pair.target.quote, by rw [begins]; rfl, ?_⟩, (ends.behind [' ']).behind _⟩
  rcases quote_known pair.target with same | same <;> rw [same] <;> decide

theorem columnElement_line (dotless : '.' ∉ column.name.toList) :
    columnElement? (column.line pair).toList = some (column.rewritten pair) := by
  have closed : ∀ s : List Char, (' ' :: s).head? ≠ some pair.target.quote := by
    intro s same
    rcases quote_known pair.target with quote | quote <;> rw [quote] at same <;> cases same
  have name := identifier_enclosed (quote_known pair.target) (.inl rfl) column.name.toList
    (closed ((column.type.mapped pair).toSql.toList
      ++ constraintsText (Constraints.ofSpecs column.specs).kept))
  rw [List.nil_append, String.ofList_toList] at name
  have type := dataType_written (mapped_isTypeName pair writable.type)
    (constraintsText_ends writable.kept)
  rw [columnElement?, line_text, quoteName_one _ dotless, name]
  simp only [type]
  rfl

theorem addElement_column (dotless : '.' ∉ column.name.toList) (table : TableDefinition) :
    table.addElement? (column.line pair).toList
      = some { table with
          columns := table.columns ++ [column.rewritten pair]
          indexes := table.indexes ++ (column.rewritten pair).ownKey } := by
  obtain ⟨c, first, _⟩ := (@column_isLine pair column writable).begins
  have nonempty : (column.line pair).toList.isEmpty = false := by
    cases split : (column.line pair).toList with
    | nil =>
      rw [split] at first
      cases first
    | cons => rfl
  rw [TableDefinition.addElement?, nonempty, indexElement_line,
    columnElement_line writable dotless, Column.ownKey]
  cases own : hasPrimaryKey (column.rewritten pair).specs <;> simp [own]

end Columns

theorem addElements_columns {pair : Pair} {columns : List Column}
    (each : ∀ column ∈ columns, column.Writable)
    (dotless : ∀ column ∈ columns, '.' ∉ column.name.toList) (table : TableDefinition) :
    (columns.map fun column => (column.line pair).toList).foldlM TableDefinition.addElement? table
      = some { table with
          columns := table.columns ++ columns.map (Column.rewritten pair)
          indexes := table.indexes ++ (columns.map (Column.rewritten pair)).flatMap Column.ownKey } := by
  induction columns generalizing table with
  | nil => simp
  | cons column columns ih =>
    obtain ⟨first, others⟩ := List.forall_mem_cons.mp each
    obtain ⟨plain, later⟩ := List.forall_mem_cons.mp dotless
    rw [List.map_cons, List.foldlM_cons, addElement_column first plain]
    refine (ih others later _).trans ?_
    simp

/-! The key. -/

section Key

variable {pair : Pair} {index : Index}

theorem key_text : ("PRIMARY KEY (" ++ ", ".intercalate (index.columns.map pair.target.quoteName)
      ++ ")").toList
    = "PRIMARY KEY (".toList
      ++ (commas (index.columns.map fun name => (pair.target.quoteName name).toList) ++ [')']) := by
  rw [String.toList_append, String.toList_append, String.toList_intercalate, List.map_map,
    List.append_assoc]
  rfl

theorem key_isLine : IsLine ("PRIMARY KEY ("
    ++ ", ".intercalate (index.columns.map pair.target.quoteName) ++ ")").toList := by
  have inside : passes (· == ')') {}
      (commas (index.columns.map fun name => (pair.target.quoteName name).toList)) = true := by
    have one : ∀ name : String, passes (· == ')') {} (pair.target.quoteName name).toList = true :=
      fun name => passes_weaken (fun c free => (Bool.or_eq_false_iff.mp free).2)
        (quoteName_line pair.target name)
    have comma : passes (· == ')') {} [',', ' '] = true := by decide
    induction index.columns with
    | nil => rfl
    | cons name names ih =>
      cases names with
      | nil => simpa using one name
      | cons second names =>
        simp only [List.map_cons, commas_more] at ih ⊢
        exact passes_append (one name) (passes_append comma ih)
  have head : passes (fun c => c == ',' || c == ')') {} "PRIMARY KEY ".toList = true := by decide
  rw [key_text]
  have through : passes (fun c => c == ',' || c == ')') {} ("PRIMARY KEY ".toList ++ '(' ::
      (commas (index.columns.map fun name => (pair.target.quoteName name).toList) ++ [')'])) = true :=
    passes_append head (passes_parentheses rfl inside)
  refine ⟨through, ⟨'P', rfl, rfl⟩, ?_⟩
  exact ((endsSolid_one rfl).behind _).behind "PRIMARY KEY (".toList

theorem addElement_key (nonempty : index.columns ≠ [])
    (dotless : ∀ name ∈ index.columns, '.' ∉ name.toList) (table : TableDefinition) :
    table.addElement? ("PRIMARY KEY ("
        ++ ", ".intercalate (index.columns.map pair.target.quoteName) ++ ")").toList
      = some { table with
          indexes := table.indexes ++ [{ kind := "PRIMARY KEY", columns := index.columns }] } := by
  have read := index_primaryKey (quote_known pair.target) nonempty
  have names : index.columns.map (fun name => (pair.target.quoteName name).toList)
      = index.columns.map fun name => Text.enclose pair.target.quote name.toList :=
    List.map_congr_left fun name member => quoteName_one _ (dotless name member)
  rw [key_text, names, TableDefinition.addElement?, indexElement?, read]
  rfl

end Key

/-! The whole definition. -/

theorem trim_padded {before s after : List Char} (first : ∀ c ∈ before, Text.isBlank c = true)
    (line : IsLine s) (last : ∀ c ∈ after, Text.isBlank c = true) :
    Text.trim (before ++ s ++ after) = s := by
  obtain ⟨c, head, solid⟩ := line.begins
  obtain ⟨d, final, kept⟩ := line.ends
  obtain ⟨t, rfl⟩ : ∃ t, s = c :: t := by
    cases s with
    | nil => cases head
    | cons e t => cases head; exact ⟨t, rfl⟩
  have started : Text.trimStart (before ++ (c :: t) ++ after) = (c :: t) ++ after := by
    rw [Text.trimStart, List.append_assoc, List.dropWhile_append_of_pos first, List.cons_append,
      List.dropWhile_cons_of_neg (by simp [solid])]
  have ended : Text.dropEndWhile Text.isBlank ((c :: t) ++ after)
      = Text.dropEndWhile Text.isBlank (c :: t) := by
    rw [Text.dropEndWhile, List.reverse_append,
      List.dropWhile_append_of_pos fun e member => last e (List.mem_reverse.mp member),
      ← Text.dropEndWhile]
  rw [Text.trim, started, ended, dropEndWhile_of_last final kept]

def bodyText (indent : Nat) (lines : List (List Char)) : List Char :=
  [','].intercalate (lines.map fun line => '\n' :: List.replicate indent ' ' ++ line) ++ ['\n']

theorem indent_blank (indent : Nat) :
    ∀ c ∈ '\n' :: List.replicate indent ' ', Text.isBlank c = true := by
  intro c member
  rcases List.mem_cons.mp member with rfl | member
  · rfl
  · obtain rfl := List.eq_of_mem_replicate member
    rfl

theorem indented_passes (indent : Nat) {line : List Char} (isLine : IsLine line) :
    passes (fun c => c == ',' || c == ')') {} ('\n' :: List.replicate indent ' ' ++ line) = true := by
  refine passes_append (passes_flat fun c member => ?_) isLine.through
  rcases List.mem_cons.mp member with rfl | member
  · decide
  · obtain rfl := List.eq_of_mem_replicate member
    decide

theorem bodyText_one (indent : Nat) (line : List Char) :
    bodyText indent [line] = ('\n' :: List.replicate indent ' ' ++ line) ++ ['\n'] := by
  simp [bodyText]

theorem bodyText_more (indent : Nat) (first second : List Char) (others : List (List Char)) :
    bodyText indent (first :: second :: others)
      = ('\n' :: List.replicate indent ' ' ++ first) ++ ',' :: bodyText indent (second :: others) := by
  simp [bodyText, List.intercalate_cons_cons]

theorem bodyText_balanced (indent : Nat) {lines : List (List Char)}
    (each : ∀ line ∈ lines, IsLine line) :
    passes (· == ')') {} (bodyText indent lines) = true := by
  have one : ∀ line ∈ lines,
      passes (· == ')') {} ('\n' :: List.replicate indent ' ' ++ line) = true :=
    fun line member => passes_weaken (fun c free => (Bool.or_eq_false_iff.mp free).2)
      (indented_passes indent (each line member))
  have last : passes (· == ')') {} ['\n'] = true := by decide
  induction lines with
  | nil => exact last
  | cons first lines ih =>
    cases lines with
    | nil =>
      rw [bodyText_one]
      exact passes_append (one first List.mem_cons_self) last
    | cons second others =>
      rw [bodyText_more]
      refine passes_append (one first List.mem_cons_self) (passes_behind rfl rfl ?_)
      exact ih (fun line member => each line (.tail first member))
        fun line member => one line (.tail first member)

theorem bodyText_pieces (indent : Nat) {lines : List (List Char)} (nonempty : lines ≠ [])
    (each : ∀ line ∈ lines, IsLine line) :
    (topLevelPieces ',' (bodyText indent lines)).map Text.trim = lines := by
  have one : ∀ line ∈ lines,
      passes (· == ',') {} ('\n' :: List.replicate indent ' ' ++ line) = true :=
    fun line member => passes_weaken (fun c free => (Bool.or_eq_false_iff.mp free).1)
      (indented_passes indent (each line member))
  induction lines with
  | nil => exact absurd rfl nonempty
  | cons first lines ih =>
    cases lines with
    | nil =>
      have last : passes (· == ',') {} ['\n'] = true := by decide
      rw [bodyText_one, topLevelPieces_last (passes_append (one first List.mem_cons_self) last),
        List.map_singleton, trim_padded (indent_blank indent) (each first List.mem_cons_self)
          (by simp; rfl)]
    | cons second others =>
      have trimmed := @trim_padded _ _ [] (indent_blank indent) (each first List.mem_cons_self)
        (by simp)
      rw [List.append_nil] at trimmed
      rw [bodyText_more, topLevelPieces_more (one first List.mem_cons_self), List.map_cons, trimmed,
        ih (by simp) (fun line member => each line (.tail first member))
          fun line member => one line (.tail first member)]

structure TableDefinition.Writable (table : TableDefinition) : Prop where
  nonempty : table.columns ≠ []
  columns : ∀ column ∈ table.columns, column.Writable
  key : ∀ index ∈ table.indexes.find? Index.isPrimaryKey, index.columns ≠ []

structure TableDefinition.Dotless (table : TableDefinition) : Prop where
  columns : ∀ column ∈ table.columns, '.' ∉ column.name.toList
  key : ∀ index ∈ table.indexes.find? Index.isPrimaryKey, ∀ name ∈ index.columns, '.' ∉ name.toList

def TableDefinition.rewritten (pair : Pair) (table : TableDefinition) : TableDefinition where
  name := table.name
  columns := table.columns.map (Column.rewritten pair)
  indexes := (table.columns.map (Column.rewritten pair)).flatMap Column.ownKey
    ++ (table.indexes.find? Index.isPrimaryKey).toList.map fun index =>
      { kind := "PRIMARY KEY", columns := index.columns }

theorem TableDefinition.Separable.writable {table : TableDefinition} (separable : table.Separable) :
    table.Writable :=
  ⟨separable.nonempty, fun column member => (separable.columns column member).writable,
    fun index found => (separable.key index found).1⟩

theorem TableDefinition.Separable.dotless {table : TableDefinition} (separable : table.Separable) :
    table.Dotless :=
  ⟨fun column member => (separable.columns column member).name,
    fun index found => (separable.key index found).2⟩

theorem TableDefinition.Separable.rewritten {table : TableDefinition} (separable : table.Separable)
    (pair : Pair) : table.rewritten pair = table.reread pair := by
  have columns : table.columns.map (Column.rewritten pair) = table.columns.map (Column.reread pair) :=
    List.map_congr_left fun column member => (separable.columns column member).rewritten pair
  have keyless : (table.columns.map (Column.reread pair)).flatMap Column.ownKey = [] := by
    refine List.flatMap_eq_nil_iff.mpr (List.forall_mem_map.mpr fun column member => ?_)
    exact (separable.columns column member).ownKey pair
  rw [TableDefinition.rewritten, columns, keyless]
  rfl

section Definition

variable {pair : Pair} {table : TableDefinition} (writable : table.Writable)

def TableDefinition.lineTexts (pair : Pair) (table : TableDefinition) : List (List Char) :=
  table.columns.map (fun column => (column.line pair).toList)
    ++ (table.keyLine? pair.target).toList.map String.toList

omit writable in
theorem bodyText_eq (indent : Nat) {lines : List (List Char)} (nonempty : lines ≠ []) :
    bodyText indent lines
      = '\n' :: ([',', '\n'].intercalate (lines.map (List.replicate indent ' ' ++ ·)) ++ ['\n']) := by
  induction lines with
  | nil => exact absurd rfl nonempty
  | cons first lines ih =>
    cases lines with
    | nil => simp [bodyText]
    | cons second others =>
      rw [bodyText_more, ih (by simp)]
      simp [List.intercalate_cons_cons]

include writable

theorem lineTexts_ne_nil : table.lineTexts pair ≠ [] := by
  intro none
  have empty := (List.append_eq_nil_iff.mp none).1
  exact writable.nonempty (List.map_eq_nil_iff.mp empty)

theorem toSql_text (indent : Nat) : (table.toSql pair indent).toList
    = "CREATE TABLE ".toList
      ++ (['.'].intercalate ((Text.pieces '.' table.name.toList).map (Text.enclose pair.target.quote))
        ++ (' ' :: '(' :: (bodyText indent (table.lineTexts pair) ++ [')']))) := by
  have lines : ((table.lines pair).map (String.ofList (List.replicate indent ' ') ++ ·)).map
        String.toList
      = (table.lineTexts pair).map (List.replicate indent ' ' ++ ·) := by
    simp [TableDefinition.lines, TableDefinition.lineTexts, Function.comp_def]
  rw [bodyText_eq indent (lineTexts_ne_nil writable), TableDefinition.toSql_eq]
  simp only [String.toList_append, String.toList_intercalate, lines, quoteName_text]
  simp

theorem lineTexts_isLine : ∀ line ∈ table.lineTexts pair, IsLine line := by
  intro line member
  rcases List.mem_append.mp member with member | member
  · obtain ⟨column, listed, rfl⟩ := List.mem_map.mp member
    exact column_isLine (writable.columns column listed)
  · obtain ⟨text, listed, rfl⟩ := List.mem_map.mp member
    rw [Option.mem_toList, TableDefinition.keyLine?, Option.map_eq_some_iff] at listed
    obtain ⟨index, found, rfl⟩ := listed
    exact key_isLine

theorem addElements_lines (dotless : table.Dotless) :
    (table.lineTexts pair).foldlM TableDefinition.addElement?
        { name := table.name, columns := [], indexes := [], options := [] }
      = some (table.rewritten pair) := by
  rw [TableDefinition.lineTexts, List.foldlM_append,
    addElements_columns writable.columns dotless.columns]
  cases found : table.indexes.find? Index.isPrimaryKey with
  | none => simp [TableDefinition.keyLine?, TableDefinition.rewritten, found]
  | some index =>
    have key := @addElement_key pair _ (writable.key index found) (dotless.key index found)
      { name := table.name
        columns := table.columns.map (Column.rewritten pair)
        indexes := (table.columns.map (Column.rewritten pair)).flatMap Column.ownKey }
    rw [TableDefinition.keyLine?, found]
    refine (congrArg (· >>= pure) key).trans ?_
    simp [TableDefinition.rewritten, found]

theorem ofText_lines (indent : Nat) :
    TableDefinition.ofText? (table.toSql pair indent).toList
      = (table.lineTexts pair).foldlM TableDefinition.addElement?
          { name := table.name, columns := [], indexes := [], options := [] } := by
  obtain ⟨first, others, pieces⟩ := Text.pieces_cons '.' table.name.toList
  have name : ".".intercalate ((first :: others).map String.ofList) = table.name := by
    rw [← String.toList_inj, String.toList_intercalate, List.map_map, ← pieces]
    simpa [Function.comp_def] using Text.pieces_join '.' table.name.toList
  have head := tableHead_written (quote_known pair.target) first others
    (bodyText indent (table.lineTexts pair) ++ [')'])
  have cut := cutAtClosing_passes (bodyText_balanced indent (@lineTexts_isLine pair _ writable)) []
  rw [TableDefinition.ofText?, toSql_text writable, pieces, head]
  simp only [cut, bodyText_pieces indent (lineTexts_ne_nil writable) (lineTexts_isLine writable),
    name]
  rfl

theorem statementBody_written (indent : Nat) :
    statementBody (table.toSql pair indent).toList = (table.toSql pair indent).toList := by
  have closed : Closed (table.toSql pair indent).toList := by
    rw [toSql_text writable]
    exact ((((closed_end ')' rfl (by decide) _).cons '(').cons ' ').behind _).behind _
  obtain ⟨t, begins⟩ : ∃ t, (table.toSql pair indent).toList = 'C' :: t := by
    rw [toSql_text writable]
    exact ⟨_, rfl⟩
  rw [begins] at closed ⊢
  exact statementBody_closed rfl closed

end Definition

theorem query_fails_create (s : List Char) : Fails Reader.query ("CREATE TABLE ".toList ++ s) := by
  have create : KeywordText "CREATE" () ([] ++ "CREATE".toList) (" TABLE ".toList ++ s) :=
    keyword_spelled (.inl rfl) rfl (by decide) (endsWord_blank _)
  have other : Fails (keyword "SELECT") (([] ++ "CREATE".toList) ++ (" TABLE ".toList ++ s)) :=
    keyword_fails_of_keyword "SELECT" create rfl rfl (by decide)
  exact bind_fails other

theorem converted_table_text {pair : Pair} (different : pair.target ≠ pair.source)
    (options : Options) (sql : String) (table : TableDefinition) :
    (SourceStatement.convert pair options ⟨sql, .createTable table⟩).sql
      = table.toSql pair options.ddlIndent := by
  have distinct : pair.isIdentity = false := by simpa [Pair.isIdentity] using different.symm
  rw [SourceStatement.convert, distinct]
  rfl

theorem ofSql_written (pair : Pair) (indent : Nat) {table : TableDefinition}
    (writable : table.Writable) (dotless : table.Dotless) :
    SourceStatement.ofSql (table.toSql pair indent)
      = .ok ⟨table.toSql pair indent, .createTable (table.rewritten pair)⟩ := by
  have unselected : Fails Reader.query (table.toSql pair indent).toList := by
    rw [toSql_text writable]
    exact query_fails_create _
  obtain ⟨stuck, failed⟩ := unselected
  have nonempty : (table.toSql pair indent).toList.isEmpty = false := by
    rw [toSql_text writable]
    rfl
  rw [SourceStatement.ofSql]
  simp only [statementBody_written writable, nonempty, Statement.ofText, failed,
    ofText_lines writable, addElements_lines writable dotless]
  rfl

/-- A table definition that is converted is read as the definition in the target dialect: with the
same names, the mapped types, the kept constraints and the first primary key. -/
theorem converted_table_reads_back {pair : Pair} (different : pair.target ≠ pair.source)
    (options : Options) (sql : String) {table : TableDefinition} (separable : table.Separable) :
    SourceStatement.ofSql (SourceStatement.convert pair options ⟨sql, .createTable table⟩).sql
      = .ok ⟨(SourceStatement.convert pair options ⟨sql, .createTable table⟩).sql,
          .createTable (table.reread pair)⟩ := by
  rw [converted_table_text different, ← separable.rewritten pair]
  exact ofSql_written pair options.ddlIndent separable.writable separable.dotless

def ordersTable : TableDefinition where
  name := "shop.orders"
  columns := [
    { name := "id", type := { name := "NUMBER", precision := some 10 }, specs := ["NOT", "NULL"] },
    { name := "a\"b", type := { name := "DOUBLE PRECISION", scale := some 2 },
      specs := ["DEFAULT 'x, (y'", "UNIQUE"] }]
  indexes := [{ kind := "PRIMARY KEY", name := some "pk", columns := ["id", "a\"b"] }]

theorem ordersTable_separable : ordersTable.Separable where
  nonempty := List.cons_ne_nil _ _
  columns column member := by
    have value : DefaultText (String.ofList ("DEFAULT".toList ++ ' ' :: "'x, (y'".toList)) :=
      .mk (by decide) (by decide) (by decide)
    have same : String.ofList ("DEFAULT".toList ++ ' ' :: "'x, (y'".toList) = "DEFAULT 'x, (y'" := by
      decide
    rw [same] at value
    simp only [ordersTable, List.mem_cons, List.not_mem_nil, or_false] at member
    rcases member with rfl | rfl
    · refine ⟨by decide, by decide, fun token listed begins => ?_⟩
      simp only [List.mem_cons, List.not_mem_nil, or_false] at listed
      rcases listed with rfl | rfl <;> exact absurd begins (by decide)
    · refine ⟨by decide, by decide, fun token listed begins => ?_⟩
      simp only [List.mem_cons, List.not_mem_nil, or_false] at listed
      rcases listed with rfl | rfl
      · exact value
      · exact absurd begins (by decide)
  key index found := by
    have first : ordersTable.indexes.find? Index.isPrimaryKey
        = some { kind := "PRIMARY KEY", name := some "pk", columns := ["id", "a\"b"] } := by
      decide
    rw [first] at found
    cases found
    decide

theorem ordersTable_reads_back :
    SourceStatement.ofSql (SourceStatement.convert ⟨.oracle, .mysql⟩ {}
        ⟨"", .createTable ordersTable⟩).sql
      = .ok ⟨"CREATE TABLE \x60shop\x60.\x60orders\x60 (\n"
          ++ "    \x60id\x60 DECIMAL(10) NOT NULL,\n"
          ++ "    \x60a\"b\x60 DOUBLE PRECISION DEFAULT 'x, (y',\n"
          ++ "    PRIMARY KEY (\x60id\x60, \x60a\"b\x60)\n)", .createTable
        { name := "shop.orders"
          columns := [
            { name := "id", type := { name := "DECIMAL", precision := some 10 },
              specs := ["NOT", "NULL"] },
            { name := "a\"b", type := { name := "DOUBLE PRECISION" }, specs := ["DEFAULT 'x, (y'"] }]
          indexes := [{ kind := "PRIMARY KEY", columns := ["id", "a\"b"] }] }⟩ := by
  refine (converted_table_reads_back (by decide) {} "" ordersTable_separable).trans ?_
  congr 2

end SqlDialects
