import SqlDialects.Proofs.Canonical.Spelled
import SqlDialects.Reader.Table

/-
Reading the parts of a table definition: names in quotes, data types, the start of a definition and
its primary key.
-/
namespace SqlDialects

open Reader Spelling

/-! Names. -/

theorem Text.pieces_cons (sep : Char) (s : List Char) :
    ∃ piece others, Text.pieces sep s = piece :: others := by
  cases s with
  | nil => exact ⟨[], [], rfl⟩
  | cons c s =>
    rw [Text.pieces]
    split
    · exact ⟨_, _, rfl⟩
    · cases found : Text.pieces sep s with
      | nil => exact ⟨_, _, rfl⟩
      | cons piece others => exact ⟨_, _, rfl⟩

theorem Text.prepend_join (sep c : Char) (pieces : List (List Char)) :
    [sep].intercalate (Text.prepend c pieces) = c :: [sep].intercalate pieces := by
  cases pieces with
  | nil => rfl
  | cons piece others =>
    cases others with
    | nil => simp [Text.prepend]
    | cons next others => simp [Text.prepend, List.intercalate_cons_cons]

theorem Text.pieces_join (sep : Char) (s : List Char) :
    [sep].intercalate (Text.pieces sep s) = s := by
  induction s with
  | nil => rfl
  | cons c s ih =>
    rw [Text.pieces]
    split
    · next same =>
      obtain ⟨piece, others, found⟩ := Text.pieces_cons sep s
      rw [found] at ih ⊢
      simp [List.intercalate_cons_cons, ih, same]
    · rw [Text.prepend_join, ih]

theorem Text.pieces_one {sep : Char} {s : List Char} (absent : sep ∉ s) :
    Text.pieces sep s = [s] := by
  induction s with
  | nil => rfl
  | cons c s ih =>
    obtain ⟨other, later⟩ := not_or.mp (mt List.mem_cons.mpr absent)
    rw [Text.pieces, if_neg (Ne.symm other), ih later]
    rfl

theorem Text.pieces_more {sep : Char} {s : List Char} (absent : sep ∉ s) (t : List Char) :
    Text.pieces sep (s ++ sep :: t) = s :: Text.pieces sep t := by
  induction s with
  | nil => simp [Text.pieces]
  | cons c s ih =>
    obtain ⟨other, later⟩ := not_or.mp (mt List.mem_cons.mpr absent)
    rw [List.cons_append, Text.pieces, if_neg (Ne.symm other), ih later]
    rfl

theorem Text.pieces_two {sep : Char} {s : List Char} (present : sep ∈ s) :
    ∃ first second others, Text.pieces sep s = first :: second :: others := by
  obtain ⟨first, rest, rfl, absent⟩ := List.eq_append_cons_of_mem present
  obtain ⟨second, others, later⟩ := Text.pieces_cons sep rest
  exact ⟨first, second, others, by rw [Text.pieces_more absent, later]⟩

def EnclosedText (q : Char) : Spelling String :=
  fun name t rest => t = Text.enclose q name.toList ∧ rest.head? ≠ some q

namespace Reader

section Enclosed

variable {q : Char} (known : q = '"' ∨ q = '\x60')
include known

theorem enclosed_solid (body rest : List Char) :
    afterGap (Text.enclose q body ++ rest) = none := by
  refine solid_of_head _ ?_
  rcases known with rfl | rfl <;> decide

theorem namePart_enclosed (body : List Char) {rest : List Char} (closed : rest.head? ≠ some q) :
    namePart (Text.enclose q body ++ rest) = .ok (String.ofList body, rest) := by
  have read := quoted_complete q body rest closed
  rcases known with rfl | rfl
  · exact orElse_of_ok read
  · have other : Fails (quoted '"') (Text.enclose '\x60' body ++ rest) :=
      quoted_fails (by simp [Text.enclose])
    rw [namePart, orElse_of_fails other]
    exact orElse_of_ok read

theorem identifier_enclosed {g : List Char} (spaced : Spaced g) (body : List Char)
    {rest : List Char} (closed : rest.head? ≠ some q) :
    identifier (g ++ (Text.enclose q body ++ rest)) = .ok (String.ofList body, rest) := by
  have gap := spaced.gap (enclosed_solid known body rest)
  have skipped : identifier (g ++ (Text.enclose q body ++ rest))
      = namePart (skipGaps (g ++ (Text.enclose q body ++ rest))) := rfl
  rw [skipped, gap]
  exact namePart_enclosed known body closed

omit known in
theorem enclosed_separated (dotless : q ≠ '.') {first : List Char} {others : List (List Char)}
    {rest : List Char} (closed : rest.head? ≠ some q) :
    Separated (ExactText ".") (EnclosedText q) ((first :: others).map String.ofList)
      (['.'].intercalate ((first :: others).map (Text.enclose q))) rest := by
  induction others generalizing first with
  | nil =>
    simp only [List.map_cons, List.map_nil, List.intercalate_singleton]
    exact .one ⟨by rw [String.toList_ofList], closed⟩
  | cons next others ih =>
    have tail := @ih next
    rw [List.map_cons, List.map_cons, List.map_cons, List.map_cons, List.intercalate_cons_cons,
      List.append_assoc]
    refine .more ⟨by rw [String.toList_ofList], ?_⟩ (b := ()) rfl (by simpa using tail)
    intro same
    exact dotless (Option.some.inj same).symm

theorem path_enclosed {g : List Char} (spaced : Spaced g) (first : List Char)
    (others : List (List Char)) {rest : List Char} (closed : rest.head? ≠ some q)
    (ended : rest.head? ≠ some '.') :
    path (g ++ (['.'].intercalate ((first :: others).map (Text.enclose q)) ++ rest))
      = .ok ((first :: others).map String.ofList, rest) := by
  have dotless : q ≠ '.' := by rcases known with rfl | rfl <;> decide
  have solid : afterGap (['.'].intercalate ((first :: others).map (Text.enclose q)) ++ rest)
      = none := by
    cases others with
    | nil => simpa using enclosed_solid known first rest
    | cons next others =>
      rw [List.map_cons, List.map_cons, List.intercalate_cons_cons, List.append_assoc,
        List.append_assoc]
      exact enclosed_solid known first _
  have skipped : ∀ s, path s = separatedBy (exactly ".") namePart (skipGaps s) := fun s => rfl
  rw [skipped, spaced.gap solid]
  refine @complete_separatedBy _ _ _ _ _ (fun _ => True) (fun rest => rest.head? ≠ some '.') _ _
    ?_ ?_ ?_ ?_ ?_ ?_ _ _ rest (Nat.le_refl _) (enclosed_separated dotless closed) ended
  · rintro _ m rest rfl
    exact exactly_append "." rest
  · rintro name t rest _ ⟨rfl, closed⟩ _
    rw [namePart_enclosed known _ closed, String.ofList_toList]
  · intros
    trivial
  · intros
    trivial
  · intro rest ended
    exact bind_fails (exactly_fails_of_head rfl ended)
  · rintro _ m rest rfl
    decide

end Enclosed

/-! The start of a definition. -/

theorem tableHead_written {q : Char} (known : q = '"' ∨ q = '\x60') (first : List Char)
    (others : List (List Char)) (rest : List Char) :
    tableHead ("CREATE TABLE ".toList
        ++ (['.'].intercalate ((first :: others).map (Text.enclose q)) ++ (' ' :: '(' :: rest)))
      = .ok (".".intercalate ((first :: others).map String.ofList), rest) := by
  generalize written : ['.'].intercalate ((first :: others).map (Text.enclose q))
    ++ (' ' :: '(' :: rest) = s
  have create : KeywordText "CREATE" () ([] ++ "CREATE".toList) (" TABLE ".toList ++ s) :=
    keyword_spelled (.inl rfl) rfl (by decide) (endsWord_blank _)
  have table : KeywordText "TABLE" () ([' '] ++ "TABLE".toList) (' ' :: s) :=
    keyword_spelled (.inr rfl) rfl (by decide) (endsWord_blank _)
  have named : path (' ' :: s)
      = .ok ((first :: others).map String.ofList, ' ' :: '(' :: rest) := by
    rw [← written]
    refine path_enclosed known (.inr rfl) first others ?_ (by simp)
    rcases known with rfl | rfl <;> simp
  have opened : SymbolText "(" () ([' '] ++ "(".toList) rest :=
    .mk (gap_blank (solid_of_head rest (by decide)))
  have notGlobal : Fails (keyword "GLOBAL") (([' '] ++ "TABLE".toList) ++ (' ' :: s)) :=
    keyword_fails_of_keyword "GLOBAL" table rfl rfl (by decide)
  have notConditional : Fails (keyword "IF") (' ' :: s) := by
    refine keyword_fails "IF" rfl ?_
    obtain ⟨t, begins⟩ : ∃ t, s = q :: t := by
      rw [← written]
      cases others with
      | nil => exact ⟨_, by simp [Text.enclose]; rfl⟩
      | cons next others => exact ⟨_, by simp [Text.enclose, List.intercalate_cons_cons]; rfl⟩
    have front : front (' ' :: s) = some q := by
      have solid : afterGap s = none := by
        rw [begins]
        refine solid_of_head _ ?_
        rcases known with rfl | rfl <;> decide
      have skipped := front_gap (gap_blank solid)
      rwa [begins] at skipped ⊢
    rw [leadingWord_of_mark front (by rcases known with rfl | rfl <;> rfl)]
    decide
  rw [tableHead]
  refine (bind_of_ok (keyword_complete create rfl)).trans ?_
  refine (bind_of_ok (option_of_fails (bind_fails notGlobal))).trans ?_
  refine (bind_of_ok (keyword_complete table rfl)).trans ?_
  rw [bind_of_ok (option_of_fails (bind_fails notConditional)), bind_of_ok named]
  exact bind_of_ok (symbol_complete opened)

/-! Data types. -/

end Reader

def isTypeWord (word : List Char) : Bool :=
  word.head?.any isNameStart && word.all isNameCharacter && word.map Char.toUpper == word

def isTypeName (name : String) : Bool :=
  match Text.pieces ' ' name.toList with
  | [word] => isTypeWord word
  | [word, suffix] => isTypeWord word && typeSuffixes.contains (String.ofList suffix)
  | _ => false

/-- The type as it is written: a scale needs a precision. -/
def DataType.asWritten (type : DataType) : DataType :=
  { type with scale := type.precision.bind fun _ => type.scale }

def DataType.parameters (type : DataType) : List Char :=
  match type.precision, type.scale with
  | some p, some s => '(' :: ((toString p.toNat).toList ++ ',' :: (toString s.toNat).toList ++ [')'])
  | some p, none => '(' :: ((toString p.toNat).toList ++ [')'])
  | none, _ => []

theorem DataType.toSql_parameters (type : DataType) :
    type.toSql.toList = type.name.toList ++ type.parameters := by
  obtain ⟨name, precision, scale⟩ := type
  cases precision with
  | none => simp [DataType.toSql, DataType.parameters]
  | some p => cases scale <;> simp [DataType.toSql, DataType.parameters]

/-- What follows a type: no character of a word, no second word of a type, no parameters. -/
structure EndsType (rest : List Char) : Prop where
  word : EndsWord rest
  suffix : leadingWord rest ∉ typeSuffixes
  uncalled : front rest ≠ some '('

theorem isTypeName_cases {name : String} (named : isTypeName name = true) :
    (isTypeWord name.toList = true)
      ∨ ∃ word suffix, isTypeWord word = true ∧ suffix ∈ typeSuffixes
        ∧ name.toList = word ++ ' ' :: suffix.toList := by
  have join := Text.pieces_join ' ' name.toList
  rw [isTypeName] at named
  split at named
  · next word found =>
    rw [found, List.intercalate_singleton] at join
    rw [← join]
    exact .inl named
  · next word suffix found =>
    rw [Bool.and_eq_true, List.contains_iff_mem] at named
    rw [found, List.intercalate_cons_cons, List.intercalate_singleton] at join
    exact .inr ⟨word, _, named.1, named.2, by simp [← join]⟩
  · cases named

theorem isTypeWord_shape {word : List Char} (typed : isTypeWord word = true) :
    IsWord word ∧ Text.upper (String.ofList word) = String.ofList word := by
  simp only [isTypeWord, Bool.and_eq_true, beq_iff_eq] at typed
  obtain ⟨⟨first, inside⟩, upper⟩ := typed
  obtain ⟨c, found, start⟩ := (Option.any_eq_true ..).mp first
  refine ⟨⟨⟨c, found, start⟩, List.all_eq_true.mp inside⟩, ?_⟩
  rw [Text.upper, String.toList_ofList, upper]

namespace Reader

theorem typeSuffixes_shape {suffix : String} (listed : suffix ∈ typeSuffixes) :
    Capital suffix ∧ isTypeWord suffix.toList = true := by
  simp only [typeSuffixes, List.mem_cons, List.not_mem_nil, or_false] at listed
  rcases listed with rfl | rfl | rfl <;> exact ⟨rfl, by decide⟩

theorem typeSuffix_read {suffix : String} (listed : suffix ∈ typeSuffixes) {rest : List Char}
    (ended : EndsWord rest) : typeSuffix (' ' :: (suffix.toList ++ rest)) = .ok (suffix, rest) := by
  obtain ⟨shape, _⟩ := isTypeWord_shape (typeSuffixes_shape listed).2
  obtain ⟨c, first, start⟩ := word_head shape rest
  have solid : afterGap (suffix.toList ++ rest) = none := by
    cases found : suffix.toList ++ rest with
    | nil => rfl
    | cons d s =>
      rw [found] at first
      cases first
      exact solid_of_head s fun listed => by
        simp only [List.mem_cons, List.not_mem_nil, or_false] at listed
        rcases listed with rfl | rfl | rfl | rfl | rfl | rfl <;> cases start
  have read := bareWord_complete shape ended
  have known : typeSuffixes.any (Text.sameIgnoringCase suffix) = true :=
    List.any_eq_true.mpr ⟨suffix, listed, by simp [Text.sameIgnoringCase]⟩
  have skipped : typeSuffix (' ' :: (suffix.toList ++ rest))
      = wordWhere (fun word => typeSuffixes.any (Text.sameIgnoringCase word))
        (skipGaps ([' '] ++ (suffix.toList ++ rest))) := rfl
  rw [skipped, gap_blank solid, wordWhere, read]
  simp [String.ofList_toList, known]

theorem typeSuffix_fails {rest : List Char} (other : leadingWord rest ∉ typeSuffixes) :
    Fails typeSuffix rest := by
  cases read : typeSuffix rest with
  | error stuck => exact ⟨stuck, read⟩
  | ok result =>
    obtain ⟨word, after⟩ := result
    have skipped : typeSuffix rest
      = wordWhere (fun word => typeSuffixes.any (Text.sameIgnoringCase word)) (skipGaps rest) := rfl
    rw [skipped, wordWhere] at read
    split at read
    · next name tail found =>
      obtain ⟨w, rfl, split, shape, ended⟩ := bareWord_sound found
      split at read
      · next known =>
        obtain ⟨suffix, listed, same⟩ := List.any_eq_true.mp known
        refine absurd ?_ other
        have upper := (isTypeWord_shape (typeSuffixes_shape listed).2).2
        rw [String.ofList_toList] at upper
        rw [Text.sameIgnoringCase, beq_iff_eq, upper, Text.upper, String.toList_ofList] at same
        rwa [leadingWord_of_split split shape.inside ended, same]
      · cases read
    · cases read

theorem parameterValue_digits {ds : List Char} (shape : IsDigits ds)
    (bound : digitsValue ds < UInt32.size) :
    parameterValue? ds = some (UInt32.ofNat (digitsValue ds)) := by
  have checked : (!ds.isEmpty && ds.all Char.isDigit && decide (digitsValue ds < UInt32.size))
      = true := by
    simp only [Bool.and_eq_true, Bool.not_eq_true', List.isEmpty_eq_false_iff, List.all_eq_true,
      decide_eq_true_eq]
    exact ⟨⟨shape.nonempty, shape.inside⟩, bound⟩
  cases ds with
  | nil => exact absurd rfl shape.nonempty
  | cons c ds =>
    have unsigned : c ≠ '+' := by
      rintro rfl
      cases shape.inside '+' List.mem_cons_self
    rw [parameterValue?, if_pos checked]
    exact fun rest same => unsigned (List.cons.inj same).1

theorem parameterValue_written (n : UInt32) :
    parameterValue? (toString n.toNat).toList = some n := by
  have value := decimal_value n.toNat
  rw [parameterValue_digits (decimal_digits n.toNat) (by rw [value]; exact n.toNat_lt_size), value,
    UInt32.ofNat_toNat]

theorem words_solid {s : List Char} (nonempty : s ≠ [])
    (solid : ∀ c ∈ s, Text.isBlank c = false) : Text.words s = [s] := by
  have run : ∀ t u : List Char, (∀ c ∈ u, Text.isBlank c = false) → t ++ u ≠ [] →
      Text.wordsFrom t u = [t ++ u] := by
    intro t u
    induction u generalizing t with
    | nil => intro _ nonempty; simpa [Text.wordsFrom] using nonempty
    | cons c u ih =>
      intro solid _
      rw [Text.wordsFrom, solid c (by simp), ih (t ++ [c]) (fun d member => solid d (by simp [member]))
        (by simp)]
      simp
  simpa [Text.words] using run [] s solid nonempty

def ParameterNumber : Spelling (Option UInt32) :=
  fun value t rest => ∃ n : UInt32, value = some n ∧ t = (toString n.toNat).toList
    ∧ ∃ c ∈ [',', ')'], rest.head? = some c

theorem typeArgument_digits {ds rest : List Char} (shape : IsDigits ds)
    (ended : ∃ c ∈ [',', ')'], rest.head? = some c) :
    typeArgument (ds ++ rest) = .ok (parameterValue? ds, rest) := by
  obtain ⟨c, listed, first⟩ := ended
  have inside : ∀ d ∈ ds, (d != ',' && d != ')') = true := by
    intro d member
    have digit := shape.inside d member
    by_contra other
    have cases : d = ',' ∨ d = ')' := by simpa [imp_iff_not_or] using other
    rcases cases with rfl | rfl <;> cases digit
  have stops : ∀ d, rest.head? = some d → (d != ',' && d != ')') = false := by
    intro d found
    rw [first] at found
    cases found
    simp only [List.mem_cons, List.not_mem_nil, or_false] at listed
    rcases listed with rfl | rfl <;> rfl
  have solid : afterGap (ds ++ rest) = none := by
    cases ds with
    | nil => exact absurd rfl shape.nonempty
    | cons d ds =>
      exact solid_of_head _ (Text.not_mem_of_all (shape.inside d List.mem_cons_self) rfl)
  have skipped : gaps (ds ++ rest) = .ok ((), ds ++ rest) :=
    congrArg (fun s => Except.ok ((), s)) (skipGaps_of_none _ solid)
  rw [typeArgument]
  refine (bind_of_ok skipped).trans ?_
  rw [takeWhile_upTo inside stops, dropWhile_upTo inside stops]
  split
  · exact absurd rfl shape.nonempty
  · rw [words_solid shape.nonempty fun d member =>
      not_blank_of_nameCharacter (nameCharacter_of_isDigit d (shape.inside d member))]
    rfl

theorem typeArgument_written {value : Option UInt32} {t rest : List Char}
    (spelled : ParameterNumber value t rest) : typeArgument (t ++ rest) = .ok (value, rest) := by
  obtain ⟨n, rfl, rfl, ended⟩ := spelled
  rw [typeArgument_digits (decimal_digits n.toNat) ended, parameterValue_written]

theorem arguments_read {values : List (Option UInt32)} {t rest : List Char}
    (spelled : Separated (SymbolText ",") ParameterNumber values t (')' :: rest)) :
    typeArguments ('(' :: (t ++ ')' :: rest)) = .ok (values, rest) := by
  have opened : SymbolText "(" () ([] ++ "(".toList) (t ++ ')' :: rest) :=
    .mk (gap_none (solid_of_head _ (by decide)))
  have listed : separatedBy (symbol ",") typeArgument (t ++ ')' :: rest)
      = .ok (values, ')' :: rest) := by
    refine @complete_separatedBy _ _ _ _ t.length (fun _ => True)
      (fun rest => front rest = some ')') _ _ ?_ ?_ ?_ ?_ ?_ ?_ values t (')' :: rest)
      (Nat.le_refl _) spelled ?_
    · exact fun b m rest => symbol_complete
    · exact fun value t rest _ spelled _ => typeArgument_written spelled
    · intros
      trivial
    · intros
      trivial
    · intro rest closed
      exact bind_fails (symbol_fails (c := ',') rfl (by rw [closed]; decide))
    · exact fun b m rest => symbolText_ne_nil (by decide)
    · exact congrArg List.head? (skipGaps_of_none _ (solid_of_head rest (by decide)))
  have closed := closing_spelled rest
  rw [typeArguments]
  refine (bind_of_ok (symbol_complete opened)).trans ?_
  rw [bind_of_ok listed]
  exact bind_of_ok (symbol_complete closed)

def DataType.values (type : DataType) : List (Option UInt32) :=
  match type.precision, type.scale with
  | some p, some s => [some p, some s]
  | some p, none => [some p]
  | none, _ => []

theorem parameters_read (type : DataType) {rest : List Char} (ended : EndsType rest) :
    ∃ values, option typeArguments (type.parameters ++ rest) = .ok (values, rest)
      ∧ values.getD [] = DataType.values type := by
  have comma : ∀ s : List Char, SymbolText "," () ([] ++ ",".toList) s := fun s =>
    .mk (gap_none (solid_of_head s (by decide)))
  have number : ∀ (n : UInt32) (c : Char) (s : List Char), c ∈ [',', ')'] →
      ParameterNumber (some n) (toString n.toNat).toList (c :: s) :=
    fun n c s listed => ⟨n, rfl, rfl, c, listed, rfl⟩
  rw [DataType.parameters, DataType.values]
  split
  · next p s _ _ =>
    have last := @Separated.one _ _ (SymbolText ",") _ _ _ _ (number s ')' rest (by simp))
    have both := Separated.more (number p ',' _ (by simp)) (comma _) last
    have read := arguments_read both
    exact ⟨_, option_of_ok (by simpa using read), rfl⟩
  · next p _ _ =>
    have one := @Separated.one _ _ (SymbolText ",") _ _ _ _ (number p ')' rest (by simp))
    exact ⟨_, option_of_ok (by simpa using arguments_read one), rfl⟩
  · have missing : Fails typeArguments rest := bind_fails (symbol_fails (c := '(') rfl ended.uncalled)
    exact ⟨none, option_of_fails missing, rfl⟩

theorem parameters_ends {rest : List Char} (ended : EndsType rest) (type : DataType) :
    EndsWord (type.parameters ++ rest) ∧ leadingWord (type.parameters ++ rest) ∉ typeSuffixes := by
  have opened : ∀ s : List Char, EndsWord ('(' :: s) ∧ leadingWord ('(' :: s) ∉ typeSuffixes := by
    intro s
    have first : front ('(' :: s) = some '(' :=
      congrArg List.head? (skipGaps_of_none _ (solid_of_head s (by decide)))
    refine ⟨fun c found => by cases found; rfl, ?_⟩
    rw [leadingWord_of_mark first rfl]
    decide
  rw [DataType.parameters]
  split
  · exact opened _
  · exact opened _
  · exact ⟨ended.word, ended.suffix⟩

theorem word_solid {word : List Char} (shape : IsWord word) (rest : List Char) :
    afterGap (word ++ rest) = none := by
  obtain ⟨c, first, start⟩ := word_head shape rest
  cases found : word ++ rest with
  | nil => rfl
  | cons d s =>
    rw [found] at first
    cases first
    exact solid_of_head s (Text.not_mem_of_all start rfl)

theorem dataType_written {type : DataType} (named : isTypeName type.name = true) {rest : List Char}
    (ended : EndsType rest) :
    dataType (' ' :: (type.toSql.toList ++ rest)) = .ok (type.asWritten, rest) := by
  obtain ⟨values, read, same⟩ := parameters_read type ended
  obtain ⟨endsWord, unextended⟩ := parameters_ends ended type
  have result : ∀ name, name = type.name →
      ({ name, precision := (values.getD [])[0]?.join, scale := (values.getD [])[1]?.join } : DataType)
        = type.asWritten := by
    rintro name rfl
    obtain ⟨name, precision, scale⟩ := type
    rw [same]
    cases precision with
    | none => rfl
    | some p => cases scale <;> rfl
  have skipped : ∀ {word : List Char} (s : List Char), IsWord word →
      gaps (' ' :: (word ++ s)) = .ok ((), word ++ s) := fun s shape =>
    congrArg (fun s => Except.ok ((), s)) (gap_blank (word_solid shape s))
  rw [DataType.toSql_parameters, List.append_assoc]
  rcases isTypeName_cases named with typed | ⟨word, suffix, typed, listed, split⟩
  · obtain ⟨shape, upper⟩ := isTypeWord_shape typed
    rw [String.ofList_toList] at upper
    have first : bareWord (type.name.toList ++ (type.parameters ++ rest))
        = .ok (type.name, type.parameters ++ rest) := by
      rw [bareWord_complete shape endsWord, String.ofList_toList]
    refine (bind_of_ok (skipped _ shape)).trans ?_
    refine (bind_of_ok first).trans ?_
    refine (bind_of_ok (option_of_fails (typeSuffix_fails unextended))).trans ?_
    refine (bind_of_ok read).trans ?_
    exact congrArg (fun type => Except.ok (type, rest)) (result _ upper)
  · obtain ⟨shape, upper⟩ := isTypeWord_shape typed
    have suffixUpper := (isTypeWord_shape (typeSuffixes_shape listed).2).2
    rw [String.ofList_toList] at suffixUpper
    have first := bareWord_complete shape (endsWord_blank (suffix.toList ++ (type.parameters ++ rest)))
    have whole : Text.upper (String.ofList word) ++ " " ++ Text.upper suffix = type.name := by
      rw [upper, suffixUpper, ← String.toList_inj, split]
      simp
    rw [split, List.append_assoc, List.cons_append]
    refine (bind_of_ok (skipped _ shape)).trans ?_
    refine (bind_of_ok first).trans ?_
    refine (bind_of_ok (option_of_ok (typeSuffix_read listed endsWord))).trans ?_
    refine (bind_of_ok read).trans ?_
    exact congrArg (fun type => Except.ok (type, rest)) (result _ whole)

/-! Keys. -/

def KeyColumnText (q : Char) : Spelling String :=
  fun name t rest => (∃ g, Spaced g ∧ t = g ++ Text.enclose q name.toList) ∧ rest.head? ≠ some q

section Keys

variable {q : Char} (known : q = '"' ∨ q = '\x60')
include known

theorem indexColumn_written {name : String} {t rest : List Char}
    (spelled : KeyColumnText q name t rest) (ended : Ends [] ["ASC", "DESC"] rest) :
    indexColumn (t ++ rest) = .ok (name, rest) := by
  obtain ⟨⟨g, spaced, rfl⟩, closed⟩ := spelled
  have read := identifier_enclosed known spaced name.toList closed
  have ascending : Fails (keyword "ASC") rest :=
    keyword_fails "ASC" rfl fun leads => ended.word (by simp [leads])
  have descending : Fails (keyword "DESC") rest :=
    keyword_fails "DESC" rfl fun leads => ended.word (by simp [leads])
  have undirected : Fails (keyword "ASC" <|> keyword "DESC") rest := by
    rwa [Fails, orElse_of_fails ascending]
  rw [List.append_assoc]
  refine (bind_of_ok read).trans ?_
  refine (bind_of_ok (option_of_fails undirected)).trans ?_
  rw [String.ofList_toList]
  rfl

theorem keyColumns_read {names : List String} (nonempty : names ≠ []) {c : Char}
    (mark : c ∈ [')', '.']) (rest : List Char) :
    separatedBy (symbol ",") indexColumn
        (commas (names.map fun name => Text.enclose q name.toList) ++ c :: rest)
      = .ok (names, c :: rest) := by
  have marked : ∀ {d : Char} {s : List Char}, front s = some d → d ∈ [',', ')', '.'] →
      Ends [] ["ASC", "DESC"] s := by
    intro d s first listed
    refine ends_of_mark first ?_ (by simp) (by decide)
    simp only [List.mem_cons, List.not_mem_nil, or_false] at listed
    rcases listed with rfl | rfl | rfl <;> rfl
  have last : ∀ d ∈ [',', ')', '.'], d ≠ q := by
    rcases known with rfl | rfl <;> simp
  have listed : ∀ d ∈ [')', '.'], d ∈ [',', ')', '.'] := fun d member => .tail _ member
  have spelled : Separated (SymbolText ",") (KeyColumnText q) names
      ([] ++ commas (names.map fun name => Text.enclose q name.toList)) (c :: rest) := by
    refine @commas_separated _ _ _ (fun rest => ∃ d ∈ [',', ')', '.'], rest.head? = some d)
      (fun s => ⟨',', by simp, rfl⟩) _ nonempty (fun name _ g rest spaced ended => ?_) _ _ (.inl rfl)
      ⟨c, listed c mark, rfl⟩
    obtain ⟨d, member, first⟩ := ended
    exact ⟨⟨g, spaced, rfl⟩, by rw [first]; exact fun same => last d member (Option.some.inj same)⟩
  have solid : front (c :: rest) = some c := by
    refine congrArg List.head? (skipGaps_of_none _ (solid_of_head rest ?_))
    simp only [List.mem_cons, List.not_mem_nil, or_false] at mark
    rcases mark with rfl | rfl <;> decide
  refine @complete_separatedBy _ _ _ _ _ (Ends [] ["ASC", "DESC"])
    (fun rest => front rest = some c) _ _ ?_ ?_ ?_ ?_ ?_ ?_ names _ (c :: rest)
    (Nat.le_refl _) spelled solid
  · exact fun b m rest => symbol_complete
  · exact fun name t rest _ spelled ended => indexColumn_written known spelled ended
  · intro _ m rest comma
    refine marked (d := ',') ?_ (by simp)
    rw [front, symbol_front comma]
    rfl
  · exact fun rest closed => marked closed (listed c mark)
  · intro rest closed
    refine bind_fails (symbol_fails (c := ',') rfl ?_)
    rw [closed]
    rintro same
    cases same
    simp at mark
  · exact fun b m rest => symbolText_ne_nil (by decide)

omit known in
theorem index_primary (s : List Char) :
    Reader.index ("PRIMARY KEY (".toList ++ s) = (do
      let columns ← option do
        symbol "("
        let columns ← separatedBy (symbol ",") indexColumn
        symbol ")"
        pure columns
      if columns.isNone then stop
      else pure { kind := "PRIMARY KEY", columns := columns.getD [] } : Reader Index)
        (" (".toList ++ s) := by
  have first : KeywordText "PRIMARY" () ([] ++ "PRIMARY".toList) (" KEY (".toList ++ s) :=
    keyword_spelled (.inl rfl) rfl (by decide) (endsWord_blank _)
  have second : KeywordText "KEY" () ([' '] ++ "KEY".toList) (" (".toList ++ s) :=
    keyword_spelled (.inr rfl) rfl (by decide) (endsWord_blank _)
  have anonymous : Fails identifier (" (".toList ++ s) := by
    have skipped : identifier (" (".toList ++ s) = namePart (skipGaps ([' '] ++ ('(' :: s))) := rfl
    rw [Fails, skipped, gap_blank (solid_of_head s (by decide)), namePart,
      orElse_of_fails (quoted_fails (by simp)), orElse_of_fails (quoted_fails (by simp))]
    exact ⟨'(' :: s, by simp [plainName, wordWhere, bareWord]; rfl⟩
  have kind : indexKind (([] ++ "PRIMARY".toList) ++ (" KEY (".toList ++ s))
      = .ok ("PRIMARY KEY", " (".toList ++ s) := by
    refine orElse_of_ok ?_
    refine (bind_of_ok (keyword_complete first rfl)).trans ?_
    exact bind_of_ok (keyword_complete second rfl)
  have unnamed : Fails (keyword "CONSTRAINT") (([] ++ "PRIMARY".toList) ++ (" KEY (".toList ++ s)) :=
    keyword_fails_of_keyword "CONSTRAINT" first rfl rfl (by decide)
  have other : ("PRIMARY KEY" != "CHECK") = true := by decide
  rw [Reader.index]
  refine (bind_of_ok (option_of_fails (bind_fails unnamed))).trans ?_
  refine (bind_of_ok kind).trans ?_
  refine (bind_of_ok (option_of_fails anonymous)).trans ?_
  simp only [other, Bool.and_true]
  rfl

omit known in
theorem keyOpening_spelled (s : List Char) : SymbolText "(" () ([' '] ++ "(".toList) s :=
  .mk (gap_blank (solid_of_head s (by decide)))

theorem index_primaryKey {names : List String} (nonempty : names ≠ []) :
    Reader.index ("PRIMARY KEY (".toList
        ++ (commas (names.map fun name => Text.enclose q name.toList) ++ [')']))
      = .ok ({ kind := "PRIMARY KEY", columns := names }, []) := by
  have listed := keyColumns_read known nonempty (c := ')') (by simp) []
  rw [index_primary]
  refine bind_of_ok (a := some names) (option_of_ok ?_)
  refine (bind_of_ok (symbol_complete (keyOpening_spelled _))).trans ?_
  refine (bind_of_ok listed).trans ?_
  exact bind_of_ok (symbol_complete (closing_spelled []))

theorem index_dotted {names : List String} (nonempty : names ≠ []) (rest : List Char) :
    Fails Reader.index ("PRIMARY KEY (".toList
      ++ (commas (names.map fun name => Text.enclose q name.toList) ++ '.' :: rest)) := by
  have listed := keyColumns_read known nonempty (c := '.') (by simp) rest
  have unclosed : Fails (symbol ")") ('.' :: rest) := by
    refine symbol_fails (c := ')') rfl ?_
    rw [front, skipGaps_of_none _ (solid_of_head rest (by decide))]
    simp
  obtain ⟨stuck, failed⟩ := bind_fails (f := fun _ => pure names) unclosed
  rw [Fails, index_primary]
  refine ⟨_, bind_of_ok (a := none) (option_of_fails ⟨stuck, ?_⟩)⟩
  refine (bind_of_ok (symbol_complete (keyOpening_spelled _))).trans ?_
  exact (bind_of_ok listed).trans failed

theorem index_fails (s : List Char) : Fails Reader.index (q :: s) := by
  have first : front (q :: s) = some q := by
    refine congrArg List.head? (skipGaps_of_none _ (solid_of_head s ?_))
    rcases known with rfl | rfl <;> decide
  have unled : leadingWord (q :: s) = "" :=
    leadingWord_of_mark first (by rcases known with rfl | rfl <;> rfl)
  have unread : ∀ {α : Type} (word : String) (next : Unit → Reader α), Capital word → word ≠ "" →
      Fails (keyword word >>= next) (q :: s) := fun word next capital nonempty =>
    bind_fails (keyword_fails word capital (by rw [unled]; exact nonempty.symm))
  have kind : Fails indexKind (q :: s) := by
    rw [Fails, indexKind, orElse_of_fails (unread "PRIMARY" _ rfl (by decide)),
      orElse_of_fails (unread "FOREIGN" _ rfl (by decide)),
      orElse_of_fails (unread "UNIQUE" _ rfl (by decide)),
      orElse_of_fails (unread "KEY" _ rfl (by decide)),
      orElse_of_fails (unread "INDEX" _ rfl (by decide))]
    exact unread "CHECK" _ rfl (by decide)
  have unnamed := option_of_fails (unread "CONSTRAINT" (fun _ => identifier) rfl (by decide))
  rw [Fails, Reader.index, bind_of_ok unnamed]
  exact bind_fails kind

end Keys

end Reader

end SqlDialects
