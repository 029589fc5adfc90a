import SqlDialects.Proofs.Grammar.Expression

/-
Expressions are read as they are spelled. Each level stops in front of the marks and words with
which it could go on; the levels inside it stop there too, so the marks and words add up from the
operands to the whole expression.
-/
namespace SqlDialects

open Reader Spelling

def symbolHeads (table : List (String × BinaryOp)) : List Char :=
  table.filterMap fun entry => entry.1.toList.head?

def productMarks : List Char := ['.'] ++ symbolHeads productSymbols

def sumMarks : List Char := productMarks ++ symbolHeads sumSymbols

def comparisonMarks : List Char := sumMarks ++ symbolHeads comparisonSymbols

def comparisonWords : List String := ["IS", "NOT", "IN", "LIKE", "ILIKE"]

def EndsExpr : List Char → Prop := Ends comparisonMarks (comparisonWords ++ ["AND"] ++ ["OR"])

def isOperandStart (c : Char) : Bool :=
  ['(', '\x27', '?', ':', '$', '*', '"', '\x60'].contains c || c.isDigit || isNameStart c

/-- The text begins like an expression; of the reserved words it can lead with the given ones. -/
structure Begins (words : List String) (s : List Char) : Prop where
  start : ∃ c, front s = some c ∧ (isOperandStart c || c == '-') = true
  word : ∀ w ∈ reservedWords, w ∉ words → leadingWord s ≠ w

def StarText : Spelling Expr := fun e t rest => e = .star none ∧ SymbolText "*" () t rest

namespace Reader

/-! Operators. -/

theorem symbolHeads_cons {text : String} {op : BinaryOp} {c : Char} {u : List Char}
    (found : text.toList = c :: u) (table : List (String × BinaryOp)) :
    symbolHeads ((text, op) :: table) = c :: symbolHeads table := by
  simp [symbolHeads, found]

theorem operatorOf_fails {table : List (String × BinaryOp)} {s : List Char}
    (written : ∀ entry ∈ table, entry.1.toList ≠ [])
    (other : ∀ c, s.head? = some c → c ∉ symbolHeads table) : Fails (operatorOf table) s := by
  induction table with
  | nil => exact ⟨s, rfl⟩
  | cons entry table ih =>
    obtain ⟨text, op⟩ := entry
    cases found : text.toList with
    | nil => exact absurd found (written (text, op) (by simp))
    | cons c u =>
      rw [symbolHeads_cons found] at other
      have head : s.head? ≠ some c := fun first => other c first (by simp)
      have failed : Fails (exactly text) s := exactly_fails_of_head (by rw [found]; rfl) head
      rw [Fails, operatorOf, orElse_of_fails (bind_fails failed)]
      refine ih (fun entry member => written entry (by simp [member])) fun d first member => ?_
      exact other d first (by simp [member])

theorem operator_front {table : List (String × BinaryOp)} {op : BinaryOp} {t rest : List Char}
    (written : ∀ entry ∈ table, entry.1.toList ≠ []) (spelled : OperatorText table op t rest) :
    ∃ c ∈ symbolHeads table, front (t ++ rest) = some c := by
  cases spelled with
  | @mk g rest text op gap listed first =>
    cases found : text.toList with
    | nil => exact absurd found (written (text, op) listed)
    | cons c u =>
      refine ⟨c, ?_, ?_⟩
      · exact List.mem_filterMap.mpr ⟨(text, op), listed, by rw [found]; rfl⟩
      · rw [← found, List.append_assoc, front, gap, found]
        rfl

/-- A chain with the operators of a table stops in front of everything but their symbols. -/
theorem complete_symbolChain {r : Reader Expr} {item : Spelling Expr} {operator : Reader BinaryOp}
    {table : List (String × BinaryOp)} {marks : List Char} {size : Nat}
    (skips : ∀ s, operator s = operatorOf table (skipGaps s))
    (written : ∀ entry ∈ table, entry.1.toList ≠ [])
    (apart : (symbolHeads table).all (fun c => !isNameCharacter c && !marks.contains c) = true)
    (complete : Complete r item size (Ends marks [])) :
    Complete (chain .binary r operator) (Chained .binary item (OperatorText table)) size
      (Ends (marks ++ symbolHeads table) []) := by
  refine complete_chain (fun op o rest => operator_complete skips) complete ?_ ?_ ?_ ?_
  · intro op o rest spelled
    obtain ⟨c, member, first⟩ := operator_front written spelled
    have free := List.all_eq_true.mp apart c member
    simp only [Bool.and_eq_true, Bool.not_eq_true', List.contains_eq_mem, decide_eq_false_iff_not]
      at free
    exact ends_of_mark first free.1 free.2 (by simp)
  · intro rest ended
    exact ended.weaken (fun c member => by simp [member]) (by simp)
  · intro rest ended
    rw [Fails, skips]
    exact operatorOf_fails written fun c first member =>
      ended.mark c first (by simp [member])
  · intro op o rest spelled
    cases spelled with
    | mk gap listed first =>
      intro none
      exact written _ listed (List.append_eq_nil_iff.mp none).2

theorem complete_wordChain {r : Reader Expr} {item : Spelling Expr} {op : BinaryOp} {word : String}
    {marks : List Char} {words : List String} {size : Nat} (capital : Capital word)
    (nonempty : word.toList ≠ []) (apart : word ∉ words)
    (signs : marks.all (fun c => !c.isAlpha) = true)
    (complete : Complete r item size (Ends marks words)) :
    Complete (chain .binary r (do keyword word; pure op))
      (Chained .binary item (WordOperator word op)) size (Ends marks (words ++ [word])) := by
  refine complete_chain ?_ complete ?_ ?_ ?_ ?_
  · rintro _ o rest ⟨rfl, spelled⟩
    rw [bind_of_ok (keyword_complete spelled capital)]
    rfl
  · rintro _ o rest ⟨rfl, spelled⟩
    exact ends_of_keyword spelled capital nonempty apart signs
  · intro rest ended
    exact ended.weaken (fun c member => member) (fun w member => by simp [member])
  · intro rest ended
    exact bind_fails (keyword_fails word capital fun same => ended.word (by simp [same]))
  · rintro _ o rest ⟨rfl, spelled⟩
    exact keywordText_ne_nil nonempty spelled

/-! How an operand begins. -/

theorem operandStart_of_isDigit {c : Char} (digit : c.isDigit = true) :
    isOperandStart c = true := by
  simp [isOperandStart, digit]

theorem operandStart_of_path {parts : List String} {t rest : List Char}
    (spelled : PathText parts t rest) :
    ∃ c, (t ++ rest).head? = some c ∧ isOperandStart c = true := by
  obtain ⟨name, u, v, split, part⟩ := path_head spelled
  obtain ⟨c, first, quote | start⟩ := part_head part
  · refine ⟨c, by rw [split, first], ?_⟩
    simp only [List.mem_cons, List.not_mem_nil, or_false] at quote
    rcases quote with rfl | rfl <;> rfl
  · exact ⟨c, by rw [split, first], by simp [isOperandStart, start]⟩

section Operands

variable {inner : Spelling Expr} {e : Expr} {t rest : List Char}

theorem operand_head (spelled : OperandText inner e t rest) :
    ∃ c, (t ++ rest).head? = some c ∧ isOperandStart c = true := by
  cases spelled with
  | group h closed => exact ⟨'(', rfl, rfl⟩
  | string closed => exact ⟨'\x27', rfl, rfl⟩
  | number h =>
    obtain ⟨c, first, digit⟩ := number_head h
    exact ⟨c, first, operandStart_of_isDigit digit⟩
  | parameter h =>
    cases h with
    | question => exact ⟨'?', rfl, rfl⟩
    | named => exact ⟨':', rfl, rfl⟩
    | numbered => exact ⟨'$', rfl, rfl⟩
  | null same ended =>
    cases t with
    | nil => cases same
    | cons c t =>
      have letter := capital_letters (show Capital "NULL" from rfl) same c (by simp)
      exact ⟨c, rfl, by simp [isOperandStart, nameStart_of_isAlpha c letter]⟩
  | star => exact ⟨'*', rfl, rfl⟩
  | qualified h => simpa using operandStart_of_path h
  | call h opened inside => simpa using operandStart_of_path h
  | bare h niladic uncalled => exact operandStart_of_path h
  | column h other uncalled => exact operandStart_of_path h

theorem operand_solid (spelled : OperandText inner e t rest) : afterGap (t ++ rest) = none := by
  obtain ⟨c, first, start⟩ := operand_head spelled
  cases found : t ++ rest with
  | nil => rfl
  | cons d u =>
    rw [found] at first
    cases first
    exact solid_of_head u (Text.not_mem_of_all start rfl)

theorem operand_leads {word : String} (spelled : OperandText inner e t rest)
    (reserved : word ∈ reservedWords) (other : word ≠ "NULL") :
    leadingWord (t ++ rest) ≠ word := by
  intro leads
  have solid := operand_solid spelled
  obtain ⟨c, first, letter⟩ :=
    front_of_leadingWord (capital_reserved reserved) (reserved_nonempty reserved) leads
  rw [front, skipGaps_of_none _ solid] at first
  have path : ∀ {parts : List String} {u v : List Char}, PathText parts u v → t ++ rest = u ++ v →
      False := by
    intro parts u v spelled split
    obtain ⟨name, u', v', same, part⟩ := path_head spelled
    rw [split, same] at solid leads
    exact part_leads part solid reserved leads
  cases spelled with
  | group h closed => cases first; cases letter
  | string closed => cases first; cases letter
  | number h =>
    obtain ⟨d, same, digit⟩ := number_head h
    rw [first] at same
    cases same
    have none := Text.not_alphabetic_of_isDigit c digit
    rw [Text.alphabetic_of_isAlpha c letter] at none
    cases none
  | parameter h =>
    cases h with
    | question => cases first; cases letter
    | named => cases first; cases letter
    | numbered => cases first; cases letter
  | null same ended =>
    have letters := capital_letters (show Capital "NULL" from rfl) same
    rw [leadingWord_of_split (skipGaps_of_none _ solid)
      (fun c member => nameCharacter_of_isAlpha c (letters c member)) ended, same] at leads
    exact other leads.symm
  | star => cases first; cases letter
  | qualified h => exact path h (by simp)
  | call h opened inside => exact path h (by simp)
  | bare h niladic uncalled => exact path h rfl
  | column h other uncalled => exact path h rfl

theorem primary_front (spelled : PrimaryText inner e t rest) :
    ∃ c, front (t ++ rest) = some c ∧ isOperandStart c = true := by
  obtain ⟨g, u, rfl, gap, operand⟩ := spelled
  rw [List.append_assoc, front_gap gap]
  exact operand_head operand

theorem primary_begins (spelled : PrimaryText inner e t rest) : Begins ["NULL"] (t ++ rest) where
  start := by
    obtain ⟨c, first, start⟩ := primary_front spelled
    exact ⟨c, first, by simp [start]⟩
  word w reserved other := by
    obtain ⟨g, u, rfl, gap, operand⟩ := spelled
    rw [List.append_assoc, leadingWord_gap gap]
    exact operand_leads operand reserved (by simpa using other)

theorem unary_begins (spelled : UnaryText inner e t rest) : Begins ["NULL"] (t ++ rest) := by
  cases spelled with
  | bare h => exact primary_begins h
  | @behind a b m t rest sign inside =>
    have first : front (m ++ (t ++ rest)) = some '-' := by
      rw [front, symbol_front sign]
      rfl
    rw [List.append_assoc]
    refine ⟨⟨'-', first, rfl⟩, fun w reserved _ leads => ?_⟩
    rw [leadingWord_of_mark first rfl] at leads
    exact reserved_nonempty reserved (by rw [← leads]; rfl)

omit inner in
theorem chained_begins {operand : Spelling Expr} {operator : Spelling BinaryOp}
    {words : List String} (each : ∀ e t rest, operand e t rest → Begins words (t ++ rest))
    (spelled : Chained .binary operand operator e t rest) : Begins words (t ++ rest) := by
  cases spelled with
  | mk head tail =>
    rw [List.append_assoc]
    exact each _ _ _ head

theorem sum_begins (spelled : SumText inner e t rest) : Begins ["NULL"] (t ++ rest) :=
  chained_begins (fun _ _ _ => chained_begins fun _ _ _ => unary_begins) spelled

theorem comparison_begins (spelled : ComparisonText inner e t rest) :
    Begins ["NULL"] (t ++ rest) := by
  cases spelled with
  | operand h => exact sum_begins h
  | isNull h _ _ _ => simpa using sum_begins h
  | inList h _ _ _ _ _ => simpa using sum_begins h
  | compared h _ _ => simpa using sum_begins h

theorem not_begins (spelled : NotText inner e t rest) : Begins ["NULL", "NOT"] (t ++ rest) := by
  cases spelled with
  | bare h =>
    have begins := comparison_begins h
    exact ⟨begins.start, fun w reserved other => begins.word w reserved (by simp_all)⟩
  | @behind a b m t rest sign inside =>
    rw [List.append_assoc]
    obtain ⟨c, first, letter⟩ := keyword_front sign rfl (by decide)
    refine ⟨⟨c, first, ?_⟩, fun w reserved other leads => ?_⟩
    · simp [isOperandStart, nameStart_of_isAlpha c letter]
    · rw [keyword_leads sign rfl] at leads
      exact other (by simp [← leads])

theorem or_begins (spelled : OrText inner e t rest) : Begins ["NULL", "NOT"] (t ++ rest) :=
  chained_begins (fun _ _ _ => chained_begins fun _ _ _ => not_begins) spelled

end Operands

section Levels

variable {nested : Reader Expr} {inner : Spelling Expr} {size : Nat}

theorem endsExpr_of_mark {c : Char} {s : List Char} (first : front s = some c)
    (closing : c ∈ [',', ')']) : EndsExpr s := by
  simp only [List.mem_cons, List.not_mem_nil, or_false] at closing
  rcases closing with rfl | rfl
  · exact ends_of_mark first rfl (by decide) (by decide)
  · exact ends_of_mark first rfl (by decide) (by decide)

theorem complete_values (complete : Complete nested inner size EndsExpr) :
    Complete (separatedBy (symbol ",") nested) (ValuesText inner) size
      (fun rest => front rest = some ')') := by
  refine complete_separatedBy (fun b m rest => symbol_complete) complete ?_ ?_ ?_ ?_
  · intro _ m rest comma
    refine endsExpr_of_mark (c := ',') ?_ (by simp)
    rw [front, symbol_front comma]
    rfl
  · intro rest closed
    exact endsExpr_of_mark closed (by simp)
  · intro rest closed
    exact bind_fails (symbol_fails (c := ',') rfl (by rw [closed]; decide))
  · intro _ m rest comma
    exact symbolText_ne_nil (by decide) comma

theorem closing_front {close rest : List Char} (closed : SymbolText ")" () close rest) :
    front (close ++ rest) = some ')' := by
  rw [front, symbol_front closed]
  rfl

theorem symbol_fails_of_begins {words : List String} {text : String} {c : Char} {s : List Char}
    (begins : Begins words s) (first : text.toList.head? = some c)
    (other : (isOperandStart c || c == '-') = false) : Fails (symbol text) s := by
  obtain ⟨d, found, start⟩ := begins.start
  refine symbol_fails first fun same => ?_
  rw [found] at same
  cases same
  rw [start] at other
  cases other

theorem keyword_fails_of_begins {words : List String} {word : String} {s : List Char}
    (begins : Begins words s) (reserved : word ∈ reservedWords) (other : word ∉ words) :
    Fails (keyword word) s :=
  keyword_fails word (capital_reserved reserved) (begins.word word reserved other)

theorem values_begins {words : List String} {values : List Expr} {t rest : List Char}
    (each : ∀ e t rest, inner e t rest → Begins words (t ++ rest))
    (spelled : ValuesText inner values t rest) : Begins words (t ++ rest) := by
  cases spelled with
  | one h => exact each _ _ _ h
  | more head _ _ => simpa using each _ _ _ head

/-- A lone `*` between parentheses is read by the shortcut for it, with the same result. -/
theorem arguments_alone (star : ∀ size, Complete nested StarText size EndsExpr)
    {args : List Expr} {s last rest other : List Char} (closed : symbol ")" last = .ok ((), rest))
    (values : separatedBy (symbol ",") nested s = .ok (args, last))
    (alone : (do symbol "*"; symbol ")" : Reader Unit) s = .ok ((), other)) :
    args = [.star none] ∧ other = rest := by
  obtain ⟨_, middle, starred, closing⟩ := bind_ok alone
  obtain ⟨mark, rfl, spelled⟩ := sound_symbol "*" _ _ _ starred
  obtain ⟨close, rfl, ended⟩ := sound_symbol ")" _ _ _ closing
  have single := complete_values (star mark.length) [.star none] mark (close ++ other)
    (Nat.le_refl _) (.one ⟨rfl, spelled⟩) (closing_front ended)
  rw [values] at single
  cases single
  rw [closing] at closed
  cases closed
  exact ⟨rfl, rfl⟩

theorem complete_arguments (complete : Complete nested inner size EndsExpr)
    (star : ∀ size, Complete nested StarText size EndsExpr)
    (begins : ∀ e t rest, inner e t rest → Begins ["NULL", "NOT"] (t ++ rest)) (name : String) :
    Complete (callArguments nested name) (ArgumentsText inner name) size (fun _ => True) := by
  intro e t rest small spelled _
  cases spelled with
  | none closed => exact whenRead_of_ok (symbol_complete closed)
  | @all mark close rest starred closed =>
    have unclosed : Fails (symbol ")") (mark ++ (close ++ rest)) := by
      refine symbol_fails (c := ')') rfl ?_
      rw [front, symbol_front starred]
      simp
    rw [List.append_assoc, callArguments, whenRead_of_fails unclosed]
    refine whenRead_of_ok (a := ()) ?_
    exact (bind_of_ok (symbol_complete starred)).trans (symbol_complete closed)
  | @some args distinct d ts close rest only listed closed =>
    have valuesBegin := values_begins begins listed
    rw [List.length_append, List.length_append] at small
    have values := complete_values complete args ts (close ++ rest) (by omega) listed
      (closing_front closed)
    rw [List.append_assoc, List.append_assoc]
    cases only with
    | missing =>
      have unclosed : Fails (symbol ")") (ts ++ (close ++ rest)) :=
        symbol_fails_of_begins valuesBegin rfl rfl
      have plain : Fails (keyword "DISTINCT") (ts ++ (close ++ rest)) :=
        keyword_fails_of_begins valuesBegin (by decide) (by decide)
      rw [List.nil_append, callArguments, whenRead_of_fails unclosed]
      cases alone : (do symbol "*"; symbol ")" : Reader Unit) (ts ++ (close ++ rest)) with
      | error stuck =>
        rw [whenRead_of_fails ⟨stuck, alone⟩, bind_of_ok (present_of_fails plain),
          bind_of_ok values, bind_of_ok (symbol_complete closed)]
        rfl
      | ok result =>
        obtain ⟨rfl, same⟩ := arguments_alone star (symbol_complete closed) values alone
        rw [whenRead_of_ok alone, same]
        rfl
    | there only =>
      rw [callArguments,
        whenRead_of_fails (symbol_fails_of_keyword (c := ')') only rfl (by decide) rfl rfl),
        whenRead_of_fails
          (bind_fails (symbol_fails_of_keyword (c := '*') only rfl (by decide) rfl rfl)),
        bind_of_ok (present_of_ok (keyword_complete only rfl)), bind_of_ok values,
        bind_of_ok (symbol_complete closed)]
      rfl

/-- A dotted name is read as a column, `t.*`, a call or a bare function by what follows it. -/
theorem pathExpr_apply {parts : List String} {t rest : List Char} (spelled : PathText parts t rest)
    (ended : EndsPath rest) (solid : afterGap (t ++ rest) = none) :
    pathExpr nested (t ++ rest)
      = (whenRead (exactly ".*") (fun _ => pure (.star (some (".".intercalate parts)))) <|
          whenRead (symbol "(") (fun _ => callArguments nested (".".intercalate parts)) <|
          if parts.length == 1 && isNiladic (".".intercalate parts) then
            pure (.call (".".intercalate parts) [] false true)
          else pure (.column (".".intercalate parts))) rest := by
  have named : quotedPath (t ++ rest) = .ok (parts, rest) := by
    rw [quotedPath_apply, skipGaps_of_none _ solid]
    exact path_complete spelled ended
  exact bind_of_ok named

/-! Which alternative of an operand is taken is told by its first character. -/

theorem operand_signed {c : Char} {s : List Char} (first : s.head? = some c)
    (other : c ∉ ['(', '\x27']) (digit : c.isDigit = false) :
    operand nested s = (parameter <|> (do keyword "NULL"; pure .null)
      <|> (do exactly "*"; pure (.star none)) <|> pathExpr nested) s := by
  have group : Fails (exactly "(") s :=
    exactly_fails_of_head (c := '(') rfl (by rw [first]; rintro ⟨⟩; simp at other)
  have string : Fails (quoted '\x27') s :=
    quoted_fails (by rw [first]; rintro ⟨⟩; simp at other)
  have number : Fails number s := number_fails (by
    intro d found
    rw [first] at found
    cases found
    exact digit)
  rw [operand, orElse_of_fails (bind_fails group), orElse_of_fails (bind_fails string),
    orElse_of_fails number]

theorem operand_unsigned {c : Char} {s : List Char} (first : s.head? = some c)
    (other : c ∉ ['(', '\x27', '?', ':', '$']) (digit : c.isDigit = false) :
    operand nested s = ((do keyword "NULL"; pure .null)
      <|> (do exactly "*"; pure (.star none)) <|> pathExpr nested) s := by
  have parameter : Fails parameter s := parameter_fails (by
    intro d found
    rw [first] at found
    cases found
    exact fun member => other (by simp_all))
  rw [operand_signed first (fun member => other (by simp_all)) digit, orElse_of_fails parameter]

theorem operand_of_path {parts : List String} {t rest : List Char}
    (spelled : PathText parts t rest) (solid : afterGap (t ++ rest) = none) :
    operand nested (t ++ rest) = pathExpr nested (t ++ rest) := by
  obtain ⟨name, u, v, split, part⟩ := path_head spelled
  rw [split] at solid ⊢
  obtain ⟨c, first, start⟩ := part_head part
  have null : Fails (keyword "NULL") (u ++ v) :=
    keyword_fails "NULL" rfl (part_leads part solid (by decide))
  have apart : c ∉ ['(', '\x27', '?', ':', '$', '*'] ∧ c.isDigit = false := by
    rcases start with quote | start
    · simp only [List.mem_cons, List.not_mem_nil, or_false] at quote
      rcases quote with rfl | rfl <;> decide
    · refine ⟨Text.not_mem_of_all start rfl, ?_⟩
      cases digit : c.isDigit with
      | false => rfl
      | true => rw [not_nameStart_of_isDigit c digit] at start; cases start
  have star : Fails (exactly "*") (u ++ v) :=
    exactly_fails_of_head (c := '*') rfl (by rw [first]; rintro ⟨⟩; simp at apart)
  rw [operand_unsigned first (fun member => apart.1 (by simp_all)) apart.2,
    orElse_of_fails (bind_fails null), orElse_of_fails (bind_fails star)]

theorem operand_null {k rest : List Char} (same : k.map Char.toUpper = "NULL".toList)
    (ended : EndsWord rest) (solid : afterGap (k ++ rest) = none) :
    operand nested (k ++ rest) = .ok (.null, rest) := by
  have spelled : KeywordText "NULL" () ([] ++ k) rest := .mk (gap_none solid) same ended
  obtain ⟨c, first, letter⟩ := keyword_front spelled rfl (by decide)
  rw [List.nil_append, front, skipGaps_of_none _ solid] at first
  rw [operand_unsigned first (Text.not_mem_of_all letter rfl) (Text.not_isDigit_of_isAlpha c letter)]
  exact orElse_of_ok ((bind_of_ok (keyword_complete spelled rfl)).trans rfl)

theorem operand_star (rest : List Char) :
    operand nested ('*' :: rest) = .ok (.star none, rest) := by
  have null : Fails (keyword "NULL") ('*' :: rest) := by
    apply keyword_fails "NULL" rfl
    rw [leadingWord_of_mark (c := '*') _ rfl]
    · decide
    · rw [front, skipGaps_of_none _ (solid_of_head rest (by decide))]
      rfl
  rw [operand_unsigned (c := '*') rfl (by decide) rfl, orElse_of_fails (bind_fails null)]
  exact orElse_of_ok (bind_of_ok (exactly_append "*" rest))

theorem operand_call (complete : Complete nested inner size EndsExpr)
    (star : ∀ m, Complete nested StarText m EndsExpr)
    (begins : ∀ e t rest, inner e t rest → Begins ["NULL", "NOT"] (t ++ rest))
    {parts : List String} {e : Expr} {t opening args rest : List Char}
    (h : PathText parts t (opening ++ (args ++ rest)))
    (opened : SymbolText "(" () opening (args ++ rest))
    (inside : ArgumentsText inner (".".intercalate parts) e args rest)
    (small : args.length ≤ size) (solid : afterGap (t ++ (opening ++ (args ++ rest))) = none) :
    operand nested (t ++ (opening ++ (args ++ rest))) = .ok (e, rest) := by
  have undotted : (opening ++ (args ++ rest)).head? ≠ some '.' :=
    head_ne_of_front (by decide) (by rw [front, symbol_front opened]; simp)
  rw [operand_of_path h solid, pathExpr_apply h (.inl undotted) solid,
    whenRead_of_fails (exactly_fails_of_head rfl undotted),
    whenRead_of_ok (symbol_complete opened)]
  exact complete_arguments complete star begins _ e args rest small inside trivial

theorem operand_alone {parts : List String} {t rest : List Char} (h : PathText parts t rest)
    (solid : afterGap (t ++ rest) = none) (undotted : rest.head? ≠ some '.')
    (uncalled : front rest ≠ some '(') :
    operand nested (t ++ rest)
      = if parts.length == 1 && isNiladic (".".intercalate parts) then
          .ok (.call (".".intercalate parts) [] false true, rest)
        else .ok (.column (".".intercalate parts), rest) := by
  rw [operand_of_path h solid, pathExpr_apply h (.inl undotted) solid,
    whenRead_of_fails (exactly_fails_of_head rfl undotted),
    whenRead_of_fails (symbol_fails rfl uncalled)]
  split <;> rfl

theorem complete_primary (complete : ∀ m < size, Complete nested inner m EndsExpr)
    (star : 0 < size → ∀ m, Complete nested StarText m EndsExpr)
    (begins : ∀ e t rest, inner e t rest → Begins ["NULL", "NOT"] (t ++ rest)) :
    Complete (primary nested) (PrimaryText inner) size (Ends ['.'] []) := by
  rintro e t rest small ⟨g, u, rfl, gap, spelled⟩ ended
  rw [List.append_assoc, primary_apply, gap]
  rw [List.length_append] at small
  have solid := gap_solid gap
  have undotted : rest.head? ≠ some '.' :=
    head_ne_of_front (by decide) fun dot => ended.mark '.' dot (by simp)
  cases spelled with
  | @group e t close rest h closed =>
    rw [List.length_cons, List.length_append] at small
    have inside := complete t.length (by omega) e t (close ++ rest) (Nat.le_refl _) h
      (endsExpr_of_mark (closing_front closed) (by simp))
    have opened : exactly "(" ('(' :: (t ++ close) ++ rest) = .ok ((), t ++ (close ++ rest)) :=
      exactly_ok.mpr (by simp)
    refine orElse_of_ok ?_
    rw [bind_of_ok opened, bind_of_ok inside, bind_of_ok (symbol_complete closed)]
    rfl
  | @string body rest closed =>
    have group : Fails (exactly "(") (Text.enclose '\x27' body ++ rest) :=
      exactly_fails_of_head (c := '(') rfl (by simp [Text.enclose])
    rw [operand, orElse_of_fails (bind_fails group)]
    exact orElse_of_ok (bind_of_ok (quoted_complete '\x27' body rest closed))
  | number h =>
    obtain ⟨c, first, digit⟩ := number_head h
    have group : Fails (exactly "(") (u ++ rest) :=
      exactly_fails_of_head (c := '(') rfl (by rw [first]; rintro ⟨⟩; cases digit)
    have string : Fails (quoted '\x27') (u ++ rest) :=
      quoted_fails (by rw [first]; rintro ⟨⟩; cases digit)
    rw [operand, orElse_of_fails (bind_fails group), orElse_of_fails (bind_fails string)]
    exact orElse_of_ok (number_complete h)
  | parameter h =>
    obtain ⟨c, mark, first⟩ := parameter_head h
    simp only [List.mem_cons, List.not_mem_nil, or_false] at mark
    rw [operand_signed first (by rcases mark with rfl | rfl | rfl <;> decide)
      (by rcases mark with rfl | rfl | rfl <;> rfl)]
    exact orElse_of_ok (parameter_complete h)
  | null same ended => exact operand_null same ended solid
  | star => exact operand_star rest
  | @qualified parts t rest h =>
    have dotted : t ++ ['.', '*'] ++ rest = t ++ '.' :: '*' :: rest := by simp
    rw [dotted] at solid ⊢
    rw [operand_of_path h solid, pathExpr_apply h (.inr ⟨rest, rfl⟩) solid]
    exact whenRead_of_ok (exactly_append ".*" rest)
  | @call parts e t opening args rest h opened inside =>
    rw [List.append_assoc, List.append_assoc] at solid ⊢
    rw [List.length_append, List.length_append] at small
    have long : 0 < opening.length :=
      List.length_pos_iff.mpr (symbolText_ne_nil (by decide) opened)
    exact operand_call (complete args.length (by omega)) (star (by omega)) begins h opened inside
      (Nat.le_refl _) solid
  | bare h niladic uncalled =>
    rw [operand_alone h solid undotted uncalled]
    simp [niladic]
  | column h other uncalled =>
    rw [operand_alone h solid undotted uncalled, if_neg (by simpa using other)]

theorem complete_additive {item : Spelling Expr}
    (complete : Complete (primary nested) item size (Ends ['.'] []))
    (unsigned : ∀ e t rest, item e t rest → Fails (symbol "-") (t ++ rest)) :
    Complete (additive nested)
      (Chained .binary (Chained .binary (Marked (SymbolText "-") .negate item)
        (OperatorText productSymbols)) (OperatorText sumSymbols)) size (Ends sumMarks []) := by
  have signed : Complete (unary nested) (Marked (SymbolText "-") .negate item) size
      (Ends ['.'] []) :=
    complete_marked (fun _ _ _ => symbol_complete) complete unsigned
      fun _ _ _ => symbolText_ne_nil (by decide)
  have product : Complete (multiplicative nested) (Chained .binary
      (Marked (SymbolText "-") .negate item) (OperatorText productSymbols)) size
      (Ends productMarks []) :=
    complete_symbolChain (fun _ => rfl) (by decide) rfl signed
  exact complete_symbolChain (fun _ => rfl) (by decide) rfl product

theorem primary_unsigned {e : Expr} {t rest : List Char} (spelled : PrimaryText inner e t rest) :
    Fails (symbol "-") (t ++ rest) := by
  obtain ⟨c, first, start⟩ := primary_front spelled
  refine symbol_fails (c := '-') rfl ?_
  rw [first]
  rintro ⟨⟩
  cases start

theorem comparisonRest_stops {left : Expr} {rest : List Char}
    (ended : Ends comparisonMarks comparisonWords rest) :
    comparisonRest nested left rest = .ok (left, rest) := by
  have word : ∀ w, w ∈ reservedWords → w ∈ comparisonWords → Fails (keyword w) rest :=
    fun w reserved listed => keyword_fails w (capital_reserved reserved) fun same =>
      ended.word (by rwa [same])
  have symbols : Fails comparisonOperator rest :=
    @operatorOf_fails comparisonSymbols (skipGaps rest) (by decide)
      fun c first member => ended.mark c first (by simp [comparisonMarks, member])
  rw [comparisonRest, whenRead_of_fails (word "IS" (by decide) (by decide)),
    whenRead_of_fails (word "NOT" (by decide) (by decide)),
    whenRead_of_fails (word "IN" (by decide) (by decide)),
    whenRead_of_fails (word "LIKE" (by decide) (by decide)),
    whenRead_of_fails (word "ILIKE" (by decide) (by decide)), whenRead_of_fails symbols]
  rfl

theorem comparator_front {op : BinaryOp} {o rest : List Char}
    (spelled : OperatorText comparisonSymbols op o rest) :
    ∃ c, front (o ++ rest) = some c ∧ isNameCharacter c = false ∧ c ∉ sumMarks := by
  obtain ⟨c, member, first⟩ := operator_front (by decide) spelled
  have free := List.all_eq_true.mp (rfl : (symbolHeads comparisonSymbols).all
    (fun c => !isNameCharacter c && !sumMarks.contains c) = true) c member
  exact ⟨c, first, by simpa using free⟩

theorem comparisonRest_compared {left : Expr} {op : BinaryOp} {o rest : List Char}
    (mark : ComparatorText op o rest) :
    comparisonRest nested left (o ++ rest) = compared nested left op rest := by
  cases mark with
  | like h =>
    have other : ∀ w, w ∈ reservedWords → "LIKE" ≠ w → Fails (keyword w) (o ++ rest) :=
      fun w reserved => keyword_fails_of_keyword w h rfl (capital_reserved reserved)
    rw [comparisonRest, whenRead_of_fails (other "IS" (by decide) (by decide)),
      whenRead_of_fails (other "NOT" (by decide) (by decide)),
      whenRead_of_fails (other "IN" (by decide) (by decide)),
      whenRead_of_ok (keyword_complete h rfl)]
  | @notLike t u rest not h =>
    rw [List.append_assoc, comparisonRest,
      whenRead_of_fails (keyword_fails_of_keyword "IS" not rfl rfl (by decide)),
      whenRead_of_ok (keyword_complete not rfl),
      whenRead_of_fails (keyword_fails_of_keyword "IN" h rfl rfl (by decide)),
      whenRead_of_ok (keyword_complete h rfl)]
  | ilike h =>
    have other : ∀ w, w ∈ reservedWords → "ILIKE" ≠ w → Fails (keyword w) (o ++ rest) :=
      fun w reserved => keyword_fails_of_keyword w h rfl (capital_reserved reserved)
    rw [comparisonRest, whenRead_of_fails (other "IS" (by decide) (by decide)),
      whenRead_of_fails (other "NOT" (by decide) (by decide)),
      whenRead_of_fails (other "IN" (by decide) (by decide)),
      whenRead_of_fails (other "LIKE" (by decide) (by decide)),
      whenRead_of_ok (keyword_complete h rfl)]
  | symbol h =>
    obtain ⟨c, first, sign, _⟩ := comparator_front h
    have wordless : leadingWord (o ++ rest) = "" := leadingWord_of_mark first sign
    have other : ∀ w, w ∈ reservedWords → Fails (keyword w) (o ++ rest) := by
      intro w reserved
      refine keyword_fails w (capital_reserved reserved) fun same => ?_
      exact reserved_nonempty reserved (by rw [← same, wordless]; rfl)
    have skips : ∀ s, comparisonOperator s = operatorOf comparisonSymbols (skipGaps s) :=
      fun _ => rfl
    rw [comparisonRest, whenRead_of_fails (other "IS" (by decide)),
      whenRead_of_fails (other "NOT" (by decide)),
      whenRead_of_fails (other "IN" (by decide)),
      whenRead_of_fails (other "LIKE" (by decide)),
      whenRead_of_fails (other "ILIKE" (by decide)),
      whenRead_of_ok (operator_complete skips h)]

theorem comparator_ends {op : BinaryOp} {o rest : List Char} (mark : ComparatorText op o rest) :
    Ends sumMarks [] (o ++ rest) := by
  cases mark with
  | like h => exact ends_of_keyword h rfl (by decide) (by simp) rfl
  | notLike not h =>
    rw [List.append_assoc]
    exact ends_of_keyword not rfl (by decide) (by simp) rfl
  | ilike h => exact ends_of_keyword h rfl (by decide) (by simp) rfl
  | symbol h =>
    obtain ⟨c, first, sign, free⟩ := comparator_front h
    exact ends_of_mark first sign free (by simp)

theorem valueList_complete {subject : Expr} {values : List Expr} {negated : Bool}
    {opening ts close rest : List Char} (complete : Complete nested inner size EndsExpr)
    (small : ts.length ≤ size) (opened : SymbolText "(" () opening (ts ++ (close ++ rest)))
    (listed : ValuesText inner values ts (close ++ rest)) (closed : SymbolText ")" () close rest) :
    valueList nested subject negated (opening ++ (ts ++ (close ++ rest)))
      = .ok (.inList subject values negated, rest) := by
  have inside := complete_values complete values ts (close ++ rest) small listed
    (closing_front closed)
  rw [valueList, bind_of_ok (symbol_complete opened), bind_of_ok inside,
    bind_of_ok (symbol_complete closed)]
  rfl

theorem complete_comparison (complete : ∀ m < size, Complete nested inner m EndsExpr)
    (sum : Complete (additive nested) (SumText inner) size (Ends sumMarks [])) :
    Complete (comparison nested) (ComparisonText inner) size
      (Ends comparisonMarks comparisonWords) := by
  intro e text rest small spelled ended
  have last : Ends sumMarks [] rest :=
    ended.weaken (fun c member => by simp [comparisonMarks, member]) (by simp)
  cases spelled with
  | operand h =>
    rw [comparison, bind_of_ok (sum e text rest small h last)]
    exact comparisonRest_stops ended
  | @isNull subject negated t is not null rest h test sign final =>
    rw [List.length_append] at small
    simp only [List.append_assoc]
    have first := sum subject t _ (by omega) h
      (ends_of_keyword test rfl (by decide) (by simp) rfl)
    have negation : present (keyword "NOT") (not ++ (null ++ rest)) = .ok (negated, null ++ rest) :=
      present_complete (fun _ _ _ h => keyword_complete h rfl) sign fun _ =>
        keyword_fails_of_keyword "NOT" final rfl rfl (by decide)
    rw [comparison, bind_of_ok first, comparisonRest, whenRead_of_ok (keyword_complete test rfl),
      nullTest, bind_of_ok negation, bind_of_ok (keyword_complete final rfl)]
    rfl
  | @inList subject values negated t not within opening ts close rest h sign test opened listed
      closed =>
    simp only [List.length_append] at small
    simp only [List.append_assoc]
    have long : 0 < opening.length :=
      List.length_pos_iff.mpr (symbolText_ne_nil (by decide) opened)
    have inside : ∀ sign, valueList nested subject sign (opening ++ (ts ++ (close ++ rest)))
        = .ok (.inList subject values sign, rest) := fun sign =>
      valueList_complete (complete ts.length (by omega)) (Nat.le_refl _) opened listed closed
    cases sign with
    | missing =>
      rw [List.nil_append] at h ⊢
      have first := sum subject t _ (by omega) h
        (ends_of_keyword test rfl (by decide) (by simp) rfl)
      rw [comparison, bind_of_ok first, comparisonRest,
        whenRead_of_fails
          (keyword_fails_of_keyword "IS" test rfl rfl (by decide)),
        whenRead_of_fails
          (keyword_fails_of_keyword "NOT" test rfl rfl (by decide)),
        whenRead_of_ok (keyword_complete test rfl)]
      exact inside false
    | there not =>
      have first := sum subject t _ (by omega) h
        (ends_of_keyword not rfl (by decide) (by simp) rfl)
      rw [comparison, bind_of_ok first, comparisonRest,
        whenRead_of_fails
          (keyword_fails_of_keyword "IS" not rfl rfl (by decide)),
        whenRead_of_ok (keyword_complete not rfl), whenRead_of_ok (keyword_complete test rfl)]
      exact inside true
  | @compared left right op t o u rest first mark second =>
    simp only [List.length_append] at small
    simp only [List.append_assoc]
    have begun := sum left t _ (by omega) first (comparator_ends mark)
    have done := sum right u rest (by omega) second last
    rw [comparison, bind_of_ok begun, comparisonRest_compared mark, compared, bind_of_ok done]
    rfl

theorem complete_logic {item : Spelling Expr}
    (complete : Complete (comparison nested) item size (Ends comparisonMarks comparisonWords))
    (positive : ∀ e t rest, item e t rest → Fails (keyword "NOT") (t ++ rest)) :
    Complete (orExpr nested)
      (Chained .binary (Chained .binary (Marked (KeywordText "NOT") .not item)
        (WordOperator "AND" .and)) (WordOperator "OR" .or)) size EndsExpr := by
  have negation : Complete (notExpr nested) (Marked (KeywordText "NOT") .not item) size
      (Ends comparisonMarks comparisonWords) :=
    complete_marked (fun _ _ _ h => keyword_complete h rfl) complete positive
      fun _ _ _ => keywordText_ne_nil (by decide)
  have conjunction : Complete (andExpr nested) (Chained .binary
      (Marked (KeywordText "NOT") .not item) (WordOperator "AND" .and)) size
      (Ends comparisonMarks (comparisonWords ++ ["AND"])) :=
    complete_wordChain rfl (by decide) (by decide) rfl negation
  exact complete_wordChain rfl (by decide) (by decide) rfl conjunction

theorem complete_orExpr (complete : ∀ m < size, Complete nested inner m EndsExpr)
    (star : 0 < size → ∀ m, Complete nested StarText m EndsExpr)
    (begins : ∀ e t rest, inner e t rest → Begins ["NULL", "NOT"] (t ++ rest)) :
    Complete (orExpr nested) (OrText inner) size EndsExpr := by
  have sum := complete_additive (complete_primary complete star begins)
    fun _ _ _ => primary_unsigned
  refine complete_logic (complete_comparison complete sum) fun e t rest spelled => ?_
  exact keyword_fails_of_begins (comparison_begins spelled) (by decide) (by decide)

theorem complete_star (size : Nat) : Complete (orExpr nested) StarText size EndsExpr := by
  have primary : Complete (primary nested) StarText size (Ends ['.'] []) := by
    rintro _ t rest _ ⟨rfl, spelled⟩ _
    rw [primary_apply, symbol_front spelled]
    exact operand_star rest
  have front : ∀ e t rest, StarText e t rest → front (t ++ rest) = some '*' := by
    rintro _ t rest ⟨rfl, spelled⟩
    rw [front, symbol_front spelled]
    rfl
  have sum := complete_additive primary fun e t rest spelled =>
    symbol_fails (c := '-') rfl (by rw [front e t rest spelled]; decide)
  have comparison : Complete (comparison nested) StarText size
      (Ends comparisonMarks comparisonWords) := by
    intro e t rest small spelled ended
    have first := sum e t rest small (chained_one (chained_one (.bare spelled)))
      (ended.weaken (fun c member => by simp [comparisonMarks, member]) (by simp))
    exact (bind_of_ok first).trans (comparisonRest_stops ended)
  intro e t rest small spelled ended
  refine complete_logic comparison ?_ e t rest small
    (chained_one (chained_one (.bare spelled))) ended
  intro e t rest spelled
  apply keyword_fails "NOT" rfl
  rw [leadingWord_of_mark (front e t rest spelled) rfl]
  decide

end Levels

theorem exprText_begins (depth : Nat) (e : Expr) (t rest : List Char)
    (spelled : ExprText depth e t rest) : Begins ["NULL", "NOT"] (t ++ rest) := by
  cases depth with
  | zero => cases spelled
  | succ depth => exact or_begins spelled

theorem complete_exprWithin (bound depth size : Nat) (enough : size < bound) :
    Complete (exprWithin bound) (ExprText depth) size EndsExpr := by
  induction bound generalizing depth size with
  | zero => omega
  | succ bound ih =>
    cases depth with
    | zero =>
      intro e t rest small spelled
      cases spelled
    | succ depth =>
      refine complete_orExpr (fun m less => ih depth m (by omega)) ?_ (exprText_begins depth)
      intro positive m
      cases bound with
      | zero => omega
      | succ bound => exact complete_star m

end Reader

end SqlDialects
