import SqlDialects.Proofs.Grammar.Mirroring
import SqlDialects.Proofs.Text.Letters
import SqlDialects.Proofs.Canonical.RoundTrip

/-
Queries in upper case. A text without comments and the same text with the letters outside quotes in
upper case are read alike: keywords and operators are the same, and every name is in upper case
outside its quotes.
-/
namespace SqlDialects

open Reader Text Nesting

/-! What a query looks like in upper case. -/

mutual

def Expr.mapWords (f : String → String) : Expr → Expr
  | .call name args distinct bare => .call (f name) (Expr.listMapWords f args) distinct bare
  | .binary left op right => .binary (left.mapWords f) op (right.mapWords f)
  | .column name => .column (f name)
  | .star qualifier => .star (qualifier.map f)
  | .parameter text => .parameter (f text)
  | .group inner => .group (inner.mapWords f)
  | .not inner => .not (inner.mapWords f)
  | .negate inner => .negate (inner.mapWords f)
  | .isNull subject negated => .isNull (subject.mapWords f) negated
  | .inList subject values negated =>
    .inList (subject.mapWords f) (Expr.listMapWords f values) negated
  | .number text => .number text
  | .string value => .string value
  | .null => .null

def Expr.listMapWords (f : String → String) : List Expr → List Expr
  | [] => []
  | e :: rest => e.mapWords f :: Expr.listMapWords f rest

end

theorem Expr.listMapWords_eq (f : String → String) (es : List Expr) :
    Expr.listMapWords f es = es.map (Expr.mapWords f) := by
  induction es with
  | nil => rfl
  | cons e es ih => rw [Expr.listMapWords, ih, List.map_cons]

def SelectItem.mapWords (f : String → String) (item : SelectItem) : SelectItem :=
  { expr := item.expr.mapWords f, alias? := item.alias?.map f }

def Join.mapWords (f : String → String) (join : Join) : Join :=
  { join with table := join.table.mapNames f, on? := join.on?.map (Expr.mapWords f) }

def OrderItem.mapWords (f : String → String) (item : OrderItem) : OrderItem :=
  { item with expr := item.expr.mapWords f }

def Select.mapWords (f : String → String) (select : Select) : Select :=
  { select with
    items := select.items.map (SelectItem.mapWords f)
    tables := select.tables.map (TableRef.mapNames f)
    joins := select.joins.map (Join.mapWords f)
    filter := select.filter.map (Expr.mapWords f)
    groupBy := select.groupBy.map (Expr.mapWords f)
    having := select.having.map (Expr.mapWords f)
    orderBy := select.orderBy.map (OrderItem.mapWords f) }

/-! Texts that differ in the case of their letters. -/

/-- A text without comments, and the text in upper case. The first argument is the quote that is open
in front of both. -/
structure Raises (quote : Option Char) (s w : List Char) : Prop where
  free : commentFreeFrom quote s = true
  upper : w = upperFrom quote s

theorem Raises.even {quote : Option Char} : Mirrors.Even (Raises quote) := by
  rintro s w ⟨_, rfl⟩
  exact length_upperFrom quote s

theorem Raises.nil {quote : Option Char} {w : List Char} (raised : Raises quote [] w) : w = [] :=
  raised.upper

theorem Raises.cons {c : Char} {s w : List Char} (raised : Raises none (c :: s) w) :
    startsComment (c :: s) = false ∧ ∃ w', w = c.toUpper :: w' ∧ Raises (quoteBehind none c) s w' := by
  obtain ⟨free, rfl⟩ := raised
  rw [commentFreeFrom, Option.isSome_none, Bool.false_or, Bool.and_eq_true,
    Bool.not_eq_true'] at free
  exact ⟨free.1, _, rfl, free.2, rfl⟩

theorem Raises.code {c : Char} {s w : List Char} (raised : Raises none (c :: s) w)
    (unquoted : isQuote c = false) : ∃ w', w = c.toUpper :: w' ∧ Raises none s w' := by
  obtain ⟨_, w', rfl, later⟩ := raised.cons
  rw [quoteBehind, unquoted] at later
  exact ⟨w', rfl, later⟩

theorem Raises.inside {q c : Char} {s w : List Char} (raised : Raises (some q) (c :: s) w) :
    ∃ w', w = c :: w' ∧ Raises (if c = q then none else some q) s w' := by
  obtain ⟨free, rfl⟩ := raised
  exact ⟨_, rfl, free, rfl⟩

/-! Gaps, marks and words. -/

theorem Raises.skipGaps {s w : List Char} (raised : Raises none s w) :
    Raises none (skipGaps s) (skipGaps w) := by
  induction s generalizing w with
  | nil =>
    obtain rfl := raised.nil
    exact raised
  | cons c s ih =>
    obtain ⟨free, w', same, _⟩ := raised.cons
    have first := afterGap_of_not_startsComment free
    have free' : startsComment (c.toUpper :: w') = false := by
      rw [← same, raised.upper, startsComment_upperFrom, free]
    have second := afterGap_of_not_startsComment free'
    by_cases blank : c ∈ [' ', '\t', '\r', '\n']
    · have plain : c.toUpper = c ∧ isQuote c = false := by
        simp only [List.mem_cons, List.not_mem_nil, or_false] at blank
        rcases blank with rfl | rfl | rfl | rfl <;> decide
      obtain ⟨w'', same', later⟩ := raised.code plain.2
      obtain ⟨_, rfl⟩ := List.cons.inj (same.symm.trans same')
      rw [plain.1, if_pos blank] at second
      rw [if_pos blank] at first
      rw [same, plain.1, skipGaps_of_some _ _ first, skipGaps_of_some _ _ second]
      exact ih later
    · have other : c.toUpper ∉ [' ', '\t', '\r', '\n'] := by
        simp only [List.mem_cons, List.not_mem_nil, or_false] at blank ⊢
        rwa [toUpper_eq_mark rfl, toUpper_eq_mark rfl, toUpper_eq_mark rfl, toUpper_eq_mark rfl]
      rw [if_neg other, ← same] at second
      rw [if_neg blank] at first
      rw [skipGaps_of_none _ first, skipGaps_of_none _ second]
      exact raised

theorem mirrors_gaps : Mirrors (Raises none) id gaps gaps :=
  fun _ _ raised => .inl ⟨(), _, _, rfl, rfl, raised.skipGaps⟩

theorem mirrors_drop {drop : List Char → Option (List Char)}
    (each : ∀ s w, Raises none s w → Option.Rel (Raises none) (drop s) (drop w)) :
    Mirrors (Raises none) id
      (fun s => match drop s with
        | some rest => .ok ((), rest)
        | none => .error s)
      (fun s => match drop s with
        | some rest => .ok ((), rest)
        | none => .error s) := by
  intro s w raised
  have dropped := each s w raised
  simp only [Fails]
  generalize drop s = found at dropped ⊢
  generalize drop w = found' at dropped ⊢
  cases dropped with
  | some later => exact .inl ⟨(), _, _, rfl, rfl, later⟩
  | none => exact .inr ⟨⟨s, rfl⟩, ⟨w, rfl⟩⟩

/-- Marks: characters that are neither letters nor quotes. -/
def isUncased (c : Char) : Bool := !isQuote c && !c.isAlpha

theorem dropText_raised {t : List Char} (marks : t.all isUncased = true) (s w : List Char)
    (raised : Raises none s w) : Option.Rel (Raises none) (dropText t s) (dropText t w) := by
  induction t generalizing s w with
  | nil => exact .some raised
  | cons d t ih =>
    rw [List.all_cons, Bool.and_eq_true] at marks
    obtain ⟨mark, marks⟩ := marks
    simp only [isUncased, Bool.and_eq_true, Bool.not_eq_true'] at mark
    cases s with
    | nil =>
      obtain rfl := raised.nil
      exact .none
    | cons c s =>
      by_cases same : c = d
      · subst same
        obtain ⟨w', rfl, later⟩ := raised.code mark.1
        rw [dropText, dropText, if_pos rfl, if_pos (toUpper_of_mark mark.2)]
        exact ih marks s w' later
      · obtain ⟨_, w', rfl, _⟩ := raised.cons
        rw [dropText, dropText, if_neg same, if_neg (mt (toUpper_eq_mark mark.2).mp same)]
        exact .none

theorem mirrors_exactly {text : String} (marks : text.toList.all isUncased = true) :
    Mirrors (Raises none) id (exactly text) (exactly text) :=
  mirrors_drop (dropText_raised marks)

theorem mirrors_symbol {text : String} (marks : text.toList.all isUncased = true) :
    Mirrors (Raises none) id (symbol text) (symbol text) :=
  .bind mirrors_gaps fun _ _ _ _ => mirrors_exactly marks

theorem mirrors_wordEnd : Mirrors (Raises none) id wordEnd wordEnd := by
  intro s w raised
  cases s with
  | nil =>
    obtain rfl := raised.nil
    exact .inl ⟨(), [], [], rfl, rfl, raised⟩
  | cons c s =>
    obtain ⟨_, w', rfl, _⟩ := raised.cons
    cases inside : isNameCharacter c with
    | true =>
      exact .inr ⟨⟨c :: s, by simp [wordEnd, inside]⟩,
        ⟨c.toUpper :: w', by simp [wordEnd, isNameCharacter_toUpper, inside]⟩⟩
    | false =>
      exact .inl ⟨(), c :: s, c.toUpper :: w', by simp [wordEnd, inside],
        by simp [wordEnd, isNameCharacter_toUpper, inside], raised⟩

theorem dropWord_raised {t : List Char} (letters : t.all Char.isUpper = true) (s w : List Char)
    (raised : Raises none s w) : Option.Rel (Raises none) (dropWord t s) (dropWord t w) := by
  induction t generalizing s w with
  | nil => exact .some raised
  | cons d t ih =>
    rw [List.all_cons, Bool.and_eq_true] at letters
    cases s with
    | nil =>
      obtain rfl := raised.nil
      exact .none
    | cons c s =>
      by_cases same : c.toUpper = d.toUpper
      · have letter : c.isAlpha = true := by
          rw [← Char.isAlpha_toUpper_eq_isAlpha, same, Char.isAlpha_toUpper_eq_isAlpha]
          simp [Char.isAlpha, letters.1]
        obtain ⟨w', rfl, later⟩ := raised.code (fails_letters (fun _ => quote_mark) c letter)
        rw [dropWord, dropWord, if_pos same, if_pos (by rw [Char.toUpper_toUpper_eq_toUpper, same])]
        exact ih letters.2 s w' later
      · obtain ⟨_, w', rfl, _⟩ := raised.cons
        rw [dropWord, dropWord, if_neg same, if_neg (by rwa [Char.toUpper_toUpper_eq_toUpper])]
        exact .none

theorem mirrors_keyword {word : String} (capital : Capital word) :
    Mirrors (Raises none) id (keyword word) (keyword word) :=
  .bind mirrors_gaps fun _ _ _ _ => .bind (mirrors_drop (dropWord_raised capital))
    fun _ _ _ _ => mirrors_wordEnd

/-! Names and numbers. -/

theorem Raises.span {test : Char → Bool} (same : ∀ c : Char, test c.toUpper = test c)
    (unquoted : ∀ c, test c = true → isQuote c = false) {s w : List Char}
    (raised : Raises none s w) :
    w.takeWhile test = (s.takeWhile test).map Char.toUpper
      ∧ Raises none (s.dropWhile test) (w.dropWhile test) := by
  induction s generalizing w with
  | nil =>
    obtain rfl := raised.nil
    exact ⟨rfl, raised⟩
  | cons c s ih =>
    cases found : test c with
    | true =>
      obtain ⟨w', rfl, later⟩ := raised.code (unquoted c found)
      simpa [same, found] using ih later
    | false =>
      obtain ⟨_, w', rfl, _⟩ := raised.cons
      simpa [same, found] using raised

theorem upperCode_code {s : List Char} (unquoted : ∀ c ∈ s, isQuote c = false) :
    upperCode (String.ofList s) = String.ofList (s.map Char.toUpper) := by
  have whole := upperFrom_code unquoted []
  rw [upperCode, String.toList_ofList]
  simpa [upperFrom] using congrArg String.ofList whole

theorem nameCharacter_unquoted {c : Char} (inside : isNameCharacter c = true) :
    isQuote c = false := by
  have other : c ∉ ['\x27', '"', '\x60'] := not_mem_of_all inside rfl
  simpa [isQuote, and_assoc] using other

theorem digit_unquoted {c : Char} (digit : c.isDigit = true) : isQuote c = false :=
  nameCharacter_unquoted (nameCharacter_of_isDigit c digit)

theorem mirrors_bareWord : Mirrors (Raises none) upperCode bareWord bareWord := by
  intro s w raised
  cases s with
  | nil =>
    obtain rfl := raised.nil
    exact .inr ⟨⟨[], rfl⟩, ⟨[], rfl⟩⟩
  | cons c s =>
    cases start : isNameStart c with
    | false =>
      obtain ⟨_, w', rfl, _⟩ := raised.cons
      exact .inr ⟨⟨c :: s, by simp [bareWord, start]⟩,
        ⟨c.toUpper :: w', by simp [bareWord, isNameStart_toUpper, start]⟩⟩
    | true =>
      have first := nameCharacter_unquoted (nameCharacter_of_nameStart c start)
      obtain ⟨w', rfl, later⟩ := raised.code first
      obtain ⟨word, rest⟩ := later.span isNameCharacter_toUpper fun _ => nameCharacter_unquoted
      have unquoted : ∀ d ∈ c :: s.takeWhile isNameCharacter, isQuote d = false := by
        intro d member
        rcases List.mem_cons.mp member with rfl | member
        · exact first
        · exact nameCharacter_unquoted (List.mem_takeWhile_imp member)
      refine .inl ⟨String.ofList (c :: s.takeWhile isNameCharacter), _, _,
        by rw [bareWord, if_pos start], ?_, rest⟩
      rw [bareWord, isNameStart_toUpper, if_pos start, word, upperCode_code unquoted]
      rfl

theorem isReserved_upperCode (word : String) : isReserved (upperCode word) = isReserved word := by
  rw [isReserved, sameIgnoringCase_upperCode, isReserved]

theorem isNiladic_upperCode (name : String) : isNiladic (upperCode name) = isNiladic name := by
  rw [isNiladic, sameIgnoringCase_upperCode, isNiladic]

theorem mirrors_plainName : Mirrors (Raises none) upperCode plainName plainName := by
  intro s w raised
  rcases mirrors_bareWord s w raised with ⟨word, rest, rest', read, read', later⟩ | ⟨failed, failed'⟩
  · cases reserved : isReserved word with
    | true =>
      exact .inr ⟨⟨s, by simp [plainName, wordWhere, read, reserved]⟩,
        ⟨w, by simp [plainName, wordWhere, read', isReserved_upperCode, reserved]⟩⟩
    | false =>
      exact .inl ⟨word, rest, rest', by simp [plainName, wordWhere, read, reserved],
        by simp [plainName, wordWhere, read', isReserved_upperCode, reserved], later⟩
  · obtain ⟨stuck, failed⟩ := failed
    obtain ⟨stuck', failed'⟩ := failed'
    exact .inr ⟨⟨stuck, by simp [plainName, wordWhere, failed]⟩,
      ⟨stuck', by simp [plainName, wordWhere, failed']⟩⟩

theorem Raises.quote {q : Char} {s w : List Char} (raised : Raises none (q :: s) w)
    (known : isQuote q = true) : ∃ w', w = q :: w' ∧ Raises (some q) s w' := by
  obtain ⟨_, w', rfl, later⟩ := raised.cons
  rw [quoteBehind, known] at later
  exact ⟨w', by rw [toUpper_of_mark (quote_mark known)], later⟩

theorem Raises.head_ne {q : Char} {s w : List Char} (raised : Raises none s w)
    (known : isQuote q = true) (other : s.head? ≠ some q) : w.head? ≠ some q := by
  cases s with
  | nil =>
    obtain rfl := raised.nil
    exact other
  | cons c s =>
    obtain ⟨_, w', rfl, _⟩ := raised.cons
    simpa [toUpper_eq_mark (quote_mark known)] using other

theorem quotedRest_fails {q c : Char} {s : List Char} (other : c ≠ q)
    (failed : Fails (quotedRest q) s) : Fails (quotedRest q) (c :: s) := by
  obtain ⟨stuck, failed⟩ := failed
  refine ⟨stuck, ?_⟩
  rw [quotedRest.eq_def]
  simp [other, failed]

theorem quotedRest_fails_doubled {q : Char} {s : List Char} (failed : Fails (quotedRest q) s) :
    Fails (quotedRest q) (q :: q :: s) := by
  obtain ⟨stuck, failed⟩ := failed
  refine ⟨stuck, ?_⟩
  rw [quotedRest.eq_def]
  simp [failed]

theorem quotedRest_raised {q : Char} (known : isQuote q = true) (s w : List Char)
    (raised : Raises (some q) s w) :
    (∃ body rest rest', quotedRest q s = .ok (body, rest) ∧ quotedRest q w = .ok (body, rest')
      ∧ Raises none rest rest') ∨ Fails (quotedRest q) s ∧ Fails (quotedRest q) w := by
  induction size : s.length using Nat.strongRecOn generalizing s w with
  | ind n ih =>
  cases s with
  | nil =>
    obtain rfl := raised.nil
    exact .inr ⟨⟨[], rfl⟩, ⟨[], rfl⟩⟩
  | cons c s =>
    obtain ⟨w, rfl, later⟩ := raised.inside
    by_cases closes : c = q
    · subst closes
      rw [if_pos rfl] at later
      by_cases doubled : s.head? = some c
      · obtain ⟨s, rfl⟩ := List.head?_eq_some_iff.mp doubled
        obtain ⟨w, rfl, inside⟩ := later.quote known
        rcases ih s.length (by simp at size; omega) s w inside rfl with
          ⟨body, rest, rest', read, read', last⟩ | ⟨failed, failed'⟩
        · exact .inl ⟨_, rest, rest', quotedRest_doubled read, quotedRest_doubled read', last⟩
        · exact .inr ⟨quotedRest_fails_doubled failed, quotedRest_fails_doubled failed'⟩
      · exact .inl ⟨[], s, w, quotedRest_closed doubled,
          quotedRest_closed (later.head_ne known doubled), later⟩
    · rw [if_neg closes] at later
      rcases ih s.length (by simp at size; omega) s w later rfl with
        ⟨body, rest, rest', read, read', last⟩ | ⟨failed, failed'⟩
      · exact .inl ⟨_, rest, rest', quotedRest_other closes read, quotedRest_other closes read', last⟩
      · exact .inr ⟨quotedRest_fails closes failed, quotedRest_fails closes failed'⟩

theorem mirrors_quoted {q : Char} (known : isQuote q = true) :
    Mirrors (Raises none) id (quoted q) (quoted q) := by
  intro s w raised
  by_cases opened : s.head? = some q
  · obtain ⟨s, rfl⟩ := List.head?_eq_some_iff.mp opened
    obtain ⟨w, rfl, later⟩ := raised.quote known
    rcases quotedRest_raised known s w later with
      ⟨body, rest, rest', read, read', last⟩ | ⟨⟨stuck, failed⟩, stuck', failed'⟩
    · exact .inl ⟨String.ofList body, rest, rest', by simp [quoted, read], by simp [quoted, read'],
        last⟩
    · exact .inr ⟨⟨stuck, by simp [quoted, failed]⟩, ⟨stuck', by simp [quoted, failed']⟩⟩
  · exact .inr ⟨quoted_fails opened, quoted_fails (raised.head_ne known opened)⟩

theorem upperCode_enclosed {q : Char} (known : isQuote q = true) (name : String) :
    upperCode (enclosed q name) = enclosed q name := by
  have whole := upperFrom_enclose known name.toList []
  simpa [upperCode, enclosed, upperFrom] using congrArg String.ofList whole

theorem mirrors_quotedNamePart :
    Mirrors (Raises none) upperCode quotedNamePart quotedNamePart := by
  have kept : ∀ name, Mirrors (Raises none) upperCode (pure (enclosed '"' name))
      (pure (enclosed '"' name)) := fun name => .fixed (upperCode_enclosed rfl name)
  refine .orElse ?_ (.orElse ?_ mirrors_plainName)
  · exact .bind (mirrors_quoted rfl) fun _ name _ _ => kept name
  · exact .bind (mirrors_quoted rfl) fun _ name _ _ => kept name

theorem mirrors_quotedPath :
    Mirrors (Raises none) (List.map upperCode) quotedPath quotedPath := by
  have behind : Mirrors (Raises none) upperCode (do exactly "."; quotedNamePart)
      (do exactly "."; quotedNamePart) :=
    .bind (mirrors_exactly rfl) fun _ _ _ _ => mirrors_quotedNamePart
  exact .bind mirrors_gaps fun _ _ _ _ => .bind mirrors_quotedNamePart fun _ first _ _ =>
    .bind (.many Raises.even behind) fun _ rest _ _ => .pure (first :: rest)

theorem upperFrom_part {name : String} {t rest : List Char} (spelled : PartText name t rest)
    (u : List Char) :
    upperFrom none (name.toList ++ u) = (upperCode name).toList ++ upperFrom none u := by
  cases spelled with
  | @quoted _ body _ known closed =>
    have same : upperCode (enclosed '"' (String.ofList body)) = enclosed '"' (String.ofList body) :=
      upperCode_enclosed rfl _
    rw [enclosed, String.toList_ofList] at same
    rw [same, String.toList_ofList]
    exact upperFrom_enclose rfl body u
  | plain shape free ended =>
    have unquoted := fun c member => nameCharacter_unquoted (shape.inside c member)
    rw [upperCode_code unquoted, String.toList_ofList, String.toList_ofList,
      upperFrom_code unquoted]

theorem upperFrom_path {parts : List String} {t rest : List Char}
    (spelled : PathText parts t rest) (u : List Char) :
    upperFrom none ((".".intercalate parts).toList ++ u)
      = (".".intercalate (parts.map upperCode)).toList ++ upperFrom none u := by
  induction spelled generalizing u with
  | one part => simpa using upperFrom_part part u
  | @more name _ names _ _ _ _ part dot tail ih =>
    obtain ⟨next, names, rfl⟩ : ∃ next others, names = next :: others := by
      cases tail with
      | one => exact ⟨_, _, rfl⟩
      | more => exact ⟨_, _, rfl⟩
    have split : ∀ (a b : String) (as : List String), (".".intercalate (a :: b :: as)).toList
        = a.toList ++ '.' :: (".".intercalate (b :: as)).toList := by
      intro a b as
      simp [String.toList_intercalate]
    rw [split, List.map_cons, List.map_cons, split, List.append_assoc, upperFrom_part part,
      List.append_assoc, List.cons_append, List.cons_append]
    have point : ∀ s, upperFrom none ('.' :: s) = '.' :: upperFrom none s := fun s => rfl
    rw [point, ih, List.map_cons]

theorem upperCode_path {parts : List String} {s rest : List Char}
    (read : quotedPath s = .ok (parts, rest)) :
    ".".intercalate (parts.map upperCode) = upperCode (".".intercalate parts) := by
  obtain ⟨_, _, _, _, _, _, spelled⟩ := sound_quotedPath s parts rest read
  have whole := upperFrom_path spelled []
  rw [← String.toList_inj, upperCode, String.toList_ofList]
  simpa only [List.append_nil, upperFrom] using whole.symm

/-! Numbers and parameters. -/

theorem Raises.digits {s w : List Char} (raised : Raises none s w) :
    w.takeWhile Char.isDigit = s.takeWhile Char.isDigit
      ∧ Raises none (s.dropWhile Char.isDigit) (w.dropWhile Char.isDigit) := by
  obtain ⟨taken, rest⟩ := raised.span isDigit_toUpper fun _ => digit_unquoted
  refine ⟨?_, rest⟩
  rw [taken]
  refine (List.map_congr_left fun c member => ?_).trans (List.map_id _)
  exact toUpper_of_mark (digit_mark (List.mem_takeWhile_imp member))

theorem mirrors_digits : Mirrors (Raises none) id digits digits := by
  intro s w raised
  obtain ⟨taken, rest⟩ := raised.digits
  cases found : s.takeWhile Char.isDigit with
  | nil =>
    rw [found] at taken
    exact .inr ⟨⟨s, by simp [digits, found]⟩, ⟨w, by simp [digits, taken]⟩⟩
  | cons d ds =>
    rw [found] at taken
    exact .inl ⟨d :: ds, _, _, by simp [digits, found], by simp [digits, taken], rest⟩

theorem mirrors_rowCount : Mirrors (Raises none) id rowCount rowCount := by
  refine .bind mirrors_gaps fun _ _ _ _ s w raised => ?_
  rcases mirrors_digits s w raised with ⟨ds, rest, rest', read, read', later⟩ | ⟨⟨x, failed⟩, x', failed'⟩
  · by_cases small : digitsValue ds < UInt64.size
    · exact .inl ⟨UInt64.ofNat (digitsValue ds), rest, rest', by simp [read, small],
        by simp [read', small], later⟩
    · exact .inr ⟨⟨s, by simp [read, small]⟩, ⟨w, by simp [read', small]⟩⟩
  · exact .inr ⟨⟨x, by simp [failed]⟩, ⟨x', by simp [failed']⟩⟩

theorem mirrors_number :
    Mirrors (Raises none) (Expr.mapWords upperCode) number number := by
  have places : Mirrors (Raises none) id
      (fun s => .ok (s.takeWhile Char.isDigit, s.dropWhile Char.isDigit))
      (fun s => .ok (s.takeWhile Char.isDigit, s.dropWhile Char.isDigit)) := by
    intro s w raised
    obtain ⟨taken, rest⟩ := raised.digits
    exact .inl ⟨_, _, _, rfl, by simp only [taken]; rfl, rest⟩
  refine .bind mirrors_digits fun _ whole _ _ => .bind (.option (.bind (mirrors_exactly rfl)
    fun _ _ _ _ => places)) fun _ fraction _ _ => ?_
  rw [Option.map_id]
  exact .pure (Expr.number _)

theorem toList_upperCode (text : String) :
    (upperCode text).toList = upperFrom none text.toList := by
  rw [upperCode, String.toList_ofList]

theorem mirrors_parameter :
    Mirrors (Raises none) (Expr.mapWords upperCode) parameter parameter := by
  refine .orElse ?_ (.orElse ?_ ?_)
  · exact .bind (mirrors_exactly rfl) fun _ _ _ _ => .pure (Expr.parameter "?")
  · refine .bind (mirrors_exactly rfl) fun _ _ _ _ => .bind mirrors_bareWord fun _ name _ _ => ?_
    have colon : upperCode (":" ++ name) = ":" ++ upperCode name := by
      rw [← String.toList_inj, toList_upperCode, String.toList_append, String.toList_append,
        toList_upperCode]
      rfl
    rw [← colon]
    exact .pure (Expr.parameter (":" ++ name))
  · refine .bind (mirrors_exactly rfl) fun _ _ _ _ => .bind mirrors_digits fun s ds rest read => ?_
    obtain ⟨_, shape, _⟩ := digits_sound read
    have unquoted := fun c member => digit_unquoted (shape.inside c member)
    have small : ds.map Char.toUpper = ds := (List.map_congr_left fun c member =>
      toUpper_of_mark (digit_mark (shape.inside c member))).trans (List.map_id _)
    have dollar : upperCode ("$" ++ String.ofList ds) = "$" ++ String.ofList ds := by
      have whole := upperFrom_code unquoted []
      rw [small] at whole
      rw [← String.toList_inj, toList_upperCode]
      simp only [String.toList_append, String.toList_ofList]
      change '$' :: upperFrom none ds = '$' :: ds
      simpa [upperFrom] using whole
    exact .fixed (by rw [Expr.mapWords, dollar])

/-! Expressions. -/

theorem mirrors_operatorOf {table : List (String × BinaryOp)}
    (marks : table.all (fun entry => entry.1.toList.all isUncased) = true) :
    Mirrors (Raises none) id (operatorOf table) (operatorOf table) := by
  induction table with
  | nil => exact .stop
  | cons entry table ih =>
    rw [List.all_cons, Bool.and_eq_true] at marks
    exact .orElse (.bind (mirrors_exactly marks.1) fun _ _ _ _ => .pure entry.2) (ih marks.2)

section Levels

variable {nested : Reader Expr}
  (inner : Mirrors (Raises none) (Expr.mapWords upperCode) nested nested)

include inner

theorem mirrors_values :
    Mirrors (Raises none) (List.map (Expr.mapWords upperCode)) (separatedBy (symbol ",") nested)
      (separatedBy (symbol ",") nested) :=
  .separatedBy Raises.even (mirrors_symbol rfl) inner

theorem mirrors_callArguments (name : String) :
    Mirrors (Raises none) (Expr.mapWords upperCode) (callArguments nested name)
      (callArguments nested (upperCode name)) := by
  refine .whenRead (mirrors_symbol rfl) (fun _ => .pure (Expr.call name [] false false)) ?_
  refine .whenRead (.bind (mirrors_symbol rfl) fun _ _ _ _ => mirrors_symbol rfl)
    (fun _ => .pure (Expr.call name [.star none] false false)) ?_
  refine .bind (.present (mirrors_keyword rfl)) fun _ distinct _ _ => .bind (mirrors_values inner)
    fun _ args _ _ => .bind (mirrors_symbol rfl) fun _ _ _ _ => ?_
  rw [← Expr.listMapWords_eq]
  exact .pure (Expr.call name args distinct false)

theorem mirrors_pathExpr :
    Mirrors (Raises none) (Expr.mapWords upperCode) (pathExpr nested) (pathExpr nested) := by
  refine .bind mirrors_quotedPath fun s parts rest read => ?_
  simp only [upperCode_path read, List.length_map, isNiladic_upperCode]
  refine .whenRead (mirrors_exactly rfl) (fun _ => .pure (Expr.star (some _))) ?_
  refine .whenRead (mirrors_symbol rfl) (fun _ => mirrors_callArguments inner _) ?_
  split
  · exact .pure (Expr.call _ [] false true)
  · exact .pure (Expr.column _)

theorem mirrors_primary :
    Mirrors (Raises none) (Expr.mapWords upperCode) (primary nested) (primary nested) := by
  refine .bind mirrors_gaps fun _ _ _ _ => .orElse ?_ (.orElse ?_ (.orElse mirrors_number
    (.orElse mirrors_parameter (.orElse ?_ (.orElse ?_ (mirrors_pathExpr inner))))))
  · exact .bind (mirrors_exactly rfl) fun _ _ _ _ => .bind inner fun _ e _ _ =>
      .bind (mirrors_symbol rfl) fun _ _ _ _ => .pure (Expr.group e)
  · exact .bind (mirrors_quoted rfl) fun _ value _ _ => .pure (Expr.string value)
  · exact .bind (mirrors_keyword rfl) fun _ _ _ _ => .pure Expr.null
  · exact .bind (mirrors_exactly rfl) fun _ _ _ _ => .pure (Expr.star none)

theorem mirrors_additive :
    Mirrors (Raises none) (Expr.mapWords upperCode) (additive nested) (additive nested) := by
  have sign : ∀ {table : List (String × BinaryOp)},
      table.all (fun entry => entry.1.toList.all isUncased) = true →
      Mirrors (Raises none) id (do gaps; operatorOf table) (do gaps; operatorOf table) :=
    fun marks => .bind mirrors_gaps fun _ _ _ _ => mirrors_operatorOf marks
  have unary : Mirrors (Raises none) (Expr.mapWords upperCode) (unary nested) (unary nested) :=
    .marked Raises.even (fun _ => rfl) (mirrors_symbol rfl) (mirrors_primary inner)
  exact .chain Raises.even (fun _ _ _ => rfl)
    (.chain Raises.even (fun _ _ _ => rfl) unary (sign rfl)) (sign rfl)

theorem mirrors_compared (left : Expr) (op : BinaryOp) :
    Mirrors (Raises none) (Expr.mapWords upperCode) (compared nested left op)
      (compared nested (left.mapWords upperCode) op) :=
  .bind (mirrors_additive inner) fun _ right _ _ => .pure (Expr.binary left op right)

theorem mirrors_valueList (subject : Expr) (negated : Bool) :
    Mirrors (Raises none) (Expr.mapWords upperCode) (valueList nested subject negated)
      (valueList nested (subject.mapWords upperCode) negated) := by
  refine .bind (mirrors_symbol rfl) fun _ _ _ _ => .bind (mirrors_values inner) fun _ values _ _ =>
    .bind (mirrors_symbol rfl) fun _ _ _ _ => ?_
  rw [← Expr.listMapWords_eq]
  exact .pure (Expr.inList subject values negated)

theorem mirrors_comparison :
    Mirrors (Raises none) (Expr.mapWords upperCode) (comparison nested) (comparison nested) := by
  have word : ∀ text, Capital text → Mirrors (Raises none) id (keyword text) (keyword text) :=
    fun _ capital => mirrors_keyword capital
  -- The texts are named because a lone `NOT` stops in front of them.
  refine .bind (mirrors_additive inner) fun _ left _ _ s w raised => ?_
  refine Mirrors.whenRead (word "IS" rfl) (fun _ => ?_) ?_ s w raised
  · exact .bind (.present (mirrors_keyword rfl)) fun _ negated _ _ => .bind (mirrors_keyword rfl)
      fun _ _ _ _ => .pure (Expr.isNull left negated)
  refine .whenRead (mirrors_keyword rfl) (fun _ => ?_) ?_
  · exact .whenRead (mirrors_keyword rfl) (fun _ => mirrors_valueList inner left true) <|
      .whenRead (mirrors_keyword rfl) (fun _ => mirrors_compared inner left .notLike)
        (.stopAt s w)
  refine .whenRead (mirrors_keyword rfl) (fun _ => mirrors_valueList inner left false) ?_
  refine .whenRead (mirrors_keyword rfl) (fun _ => mirrors_compared inner left .like) ?_
  refine .whenRead (mirrors_keyword rfl) (fun _ => mirrors_compared inner left .ilike) ?_
  exact .whenRead (.bind mirrors_gaps fun _ _ _ _ => mirrors_operatorOf rfl)
    (fun op => mirrors_compared inner left op) (.pure left)

theorem mirrors_orExpr :
    Mirrors (Raises none) (Expr.mapWords upperCode) (orExpr nested) (orExpr nested) := by
  have word : ∀ (text : String) (op : BinaryOp), Capital text →
      Mirrors (Raises none) id (do keyword text; pure op) (do keyword text; pure op) :=
    fun text op capital => .bind (mirrors_keyword capital) fun _ _ _ _ => .pure op
  have negated : Mirrors (Raises none) (Expr.mapWords upperCode) (notExpr nested) (notExpr nested) :=
    .marked Raises.even (fun _ => rfl) (mirrors_keyword rfl) (mirrors_comparison inner)
  exact .chain Raises.even (fun _ _ _ => rfl)
    (.chain Raises.even (fun _ _ _ => rfl) negated (word "AND" .and rfl)) (word "OR" .or rfl)

end Levels

theorem mirrors_exprWithin (depth : Nat) :
    Mirrors (Raises none) (Expr.mapWords upperCode) (exprWithin depth) (exprWithin depth) := by
  induction depth with
  | zero => exact .stop
  | succ depth ih => exact mirrors_orExpr ih

theorem mirrors_expr : Mirrors (Raises none) (Expr.mapWords upperCode) expr expr := by
  intro s w raised
  simp only [Fails, expr, Raises.even s w raised]
  exact mirrors_exprWithin (s.length + 1) s w raised

/-! Queries. -/

theorem mirrors_aliasName :
    Mirrors (Raises none) (Option.map upperCode) aliasName aliasName :=
  .option <| .bind (.option (mirrors_keyword rfl)) fun _ _ _ _ => .bind mirrors_gaps fun _ _ _ _ =>
    mirrors_quotedNamePart

theorem mirrors_selectItem :
    Mirrors (Raises none) (SelectItem.mapWords upperCode) selectItem selectItem :=
  .bind mirrors_expr fun _ e _ _ => .bind mirrors_aliasName fun _ name _ _ =>
    .pure (SelectItem.mk e name)

theorem mirrors_tableRef :
    Mirrors (Raises none) (TableRef.mapNames upperCode) tableRef tableRef := by
  refine .bind mirrors_quotedPath fun s parts rest read => .bind mirrors_aliasName
    fun _ name _ _ => ?_
  rw [upperCode_path read]
  exact .pure (TableRef.mk (".".intercalate parts) name)

theorem mirrors_joinKind : Mirrors (Raises none) id joinKind joinKind := by
  have outer : ∀ (side : String) (kind : JoinKind), Capital side →
      Mirrors (Raises none) id (outerJoin side kind) (outerJoin side kind) := fun side kind capital =>
    .bind (mirrors_keyword capital) fun _ _ _ _ => .bind (.option (mirrors_keyword rfl))
      fun _ _ _ _ => .bind (mirrors_keyword rfl) fun _ _ _ _ => .pure kind
  refine .orElse ?_ (.orElse (outer _ _ rfl) (.orElse (outer _ _ rfl) (.orElse (outer _ _ rfl) ?_)))
  · exact .bind (.option (mirrors_keyword rfl)) fun _ _ _ _ => .bind (mirrors_keyword rfl)
      fun _ _ _ _ => .pure JoinKind.inner
  · exact .bind (mirrors_keyword rfl) fun _ _ _ _ => .bind (mirrors_keyword rfl)
      fun _ _ _ _ => .pure JoinKind.cross

theorem mirrors_condition {word : String} (capital : Capital word) :
    Mirrors (Raises none) (Option.map (Expr.mapWords upperCode)) (conditionClause word)
      (conditionClause word) :=
  .option <| .bind (mirrors_keyword capital) fun _ _ _ _ => mirrors_expr

theorem mirrors_join : Mirrors (Raises none) (Join.mapWords upperCode) join join :=
  .bind mirrors_joinKind fun _ kind _ _ => .bind mirrors_tableRef fun _ table _ _ =>
    .bind (mirrors_condition rfl) fun _ on _ _ => .pure (Join.mk kind table on)

theorem mirrors_orderItem :
    Mirrors (Raises none) (OrderItem.mapWords upperCode) orderItem orderItem := by
  have way : ∀ (word : String) (descending : Bool), Capital word →
      Mirrors (Raises none) id (do keyword word; pure descending) (do keyword word; pure descending) :=
    fun word descending capital => .bind (mirrors_keyword capital) fun _ _ _ _ => .pure descending
  refine .bind mirrors_expr fun _ e _ _ =>
    .bind (.option (.orElse (way _ _ rfl) (way _ _ rfl))) fun _ direction _ _ => ?_
  rw [Option.map_id]
  exact .pure (OrderItem.mk e (direction.getD false))

theorem mirrors_list {α : Type} {f : α → α} {head : Reader Unit} {item : Reader α}
    (words : Mirrors (Raises none) id head head) (each : Mirrors (Raises none) f item item) :
    Mirrors (Raises none) (List.map f) (listClause head item) (listClause head item) := by
  refine .bind (.option (.bind words fun _ _ _ _ =>
    .separatedBy Raises.even (mirrors_symbol rfl) each)) fun _ items _ _ => ?_
  have same : (items.map (List.map f)).getD [] = (items.getD []).map f := by cases items <;> rfl
  rw [same]
  exact .pure (items.getD [])

theorem mirrors_rows : Mirrors (Raises none) id rowsKeyword rowsKeyword :=
  .orElse (mirrors_keyword rfl) (mirrors_keyword rfl)

theorem mirrors_fetch : Mirrors (Raises none) id fetchClause fetchClause := by
  refine .bind (mirrors_keyword rfl) fun _ _ _ _ => .bind (.orElse (mirrors_keyword rfl)
    (mirrors_keyword rfl)) fun _ _ _ _ => .bind (.option mirrors_rowCount) fun _ count _ _ =>
    .bind mirrors_rows fun _ _ _ _ => .bind (mirrors_keyword rfl) fun _ _ _ _ => ?_
  rw [Option.map_id]
  exact .pure (count.getD 1)

theorem mirrors_page : Mirrors (Raises none) id page page := by
  refine .whenRead (mirrors_keyword rfl) (fun _ => .bind mirrors_rowCount fun _ first _ _ =>
    .whenRead (mirrors_symbol rfl) (fun _ => .bind mirrors_rowCount fun _ count _ _ => .pure _) ?_) ?_
  · refine .bind (.option (.bind (mirrors_keyword rfl) fun _ _ _ _ => mirrors_rowCount))
      fun _ offset _ _ => ?_
    rw [Option.map_id]
    exact .pure _
  · refine .bind (.option (.bind (mirrors_keyword rfl) fun _ _ _ _ => .bind mirrors_rowCount
      fun _ count _ _ => .bind (.present mirrors_rows) fun _ rows _ _ => .pure (f := id) (count, rows)))
      fun _ offset _ _ => .bind (.option mirrors_fetch) fun _ fetch _ _ => ?_
    rw [Option.map_id, Option.map_id]
    exact .pure _

theorem mirrors_query :
    Mirrors (Raises none) (Select.mapWords upperCode) query query := by
  refine .bind (mirrors_keyword rfl) fun _ _ _ _ =>
    .bind (.present (mirrors_keyword rfl)) fun _ distinct _ _ =>
    .bind (.separatedBy Raises.even (mirrors_symbol rfl) mirrors_selectItem) fun _ items _ _ =>
    .bind (mirrors_list (mirrors_keyword rfl) mirrors_tableRef) fun _ tables _ _ =>
    .bind (.many Raises.even mirrors_join) fun _ joins _ _ =>
    .bind (mirrors_condition rfl) fun _ filter _ _ =>
    .bind (mirrors_list ?_ mirrors_expr) fun _ groupBy _ _ =>
    .bind (mirrors_condition rfl) fun _ having _ _ =>
    .bind (mirrors_list ?_ mirrors_orderItem) fun _ orderBy _ _ =>
    .bind mirrors_page fun _ page _ _ => .bind mirrors_gaps fun _ _ _ _ =>
    .bind (.finish Raises.even) fun _ _ _ _ =>
    .pure { distinct, items, tables, joins, filter, groupBy, having, orderBy, page : Select }
  · exact .bind (mirrors_keyword rfl) fun _ _ _ _ => mirrors_keyword rfl
  · exact .bind (mirrors_keyword rfl) fun _ _ _ _ => mirrors_keyword rfl

def IsUncommented (sql : String) : Prop :=
  commentFreeFrom none (statementBody sql.toList) = true

/-- A query without comments, with its letters outside quotes in upper case, is read as the same
query with its names, functions, aliases and parameters in upper case outside quotes. -/
theorem query_reads_in_upper_case {sql : String} {select : Select} (bare : IsUncommented sql)
    (read : SourceStatement.ofSql sql = .ok ⟨sql, .select select⟩) :
    SourceStatement.ofSql (upperCode sql)
      = .ok ⟨upperCode sql, .select (select.mapWords upperCode)⟩ := by
  rw [ofSql_select] at read ⊢
  rw [toList_upperCode, statementBody_upperFrom]
  rcases mirrors_query _ _ ⟨bare, rfl⟩ with ⟨found, rest, rest', first, second, later⟩ | ⟨failed, _⟩
  · cases first.symm.trans read
    rw [second, later.nil]
  · exact absurd failed (not_fails_of_ok read)

def unevenCase : String := "select x.\x60c d\x60, Ifnull(a, :p) from t As x limit 5, 2"

theorem unevenCase_in_upper_case :
    IsUncommented unevenCase ∧ ∃ select,
      SourceStatement.ofSql unevenCase = .ok ⟨unevenCase, .select select⟩
        ∧ select.toSql = "SELECT x.\"c d\", Ifnull(a, :p) FROM t x LIMIT 2 OFFSET 5"
        ∧ SourceStatement.ofSql (upperCode unevenCase)
          = .ok ⟨upperCode unevenCase, .select (select.mapWords upperCode)⟩ := by
  have bare : IsUncommented unevenCase := by
    unfold IsUncommented
    decide +kernel
  have canonical : canonicalOf? unevenCase
      = some "SELECT x.\"c d\", Ifnull(a, :p) FROM t x LIMIT 2 OFFSET 5" := by
    decide +kernel
  obtain ⟨select, read, text⟩ := read_of_canonicalOf? canonical
  exact ⟨bare, select, read, text, query_reads_in_upper_case bare read⟩

end SqlDialects
