import SqlDialects.Proofs.Conversion.Accounting
import SqlDialects.Proofs.Grammar.TrailingComments

/-
The head of a table definition, without what follows it. Of what stands behind a keyword or a name,
only the first character matters to reading it, and the head ends with a parenthesis. So a head is the
same in front of any text.
-/
namespace SqlDialects

open Reader Spelling Nesting

/-! Gaps in front of a character that belongs to none. -/

section Gaps

variable {c : Char} (solid : c ∉ gapMarks)
include solid

theorem afterLineComment_local {s m x : List Char} (passed : afterLineComment s = some (m ++ c :: x)) :
    ∃ h, s = h ++ (m ++ c :: x) ∧ ∀ y, afterLineComment (h ++ (m ++ c :: y)) = some (m ++ c :: y) := by
  obtain ⟨h, rfl, inside, ends⟩ := afterLineComment_iff.mp passed
  refine ⟨h, rfl, fun y => afterLineComment_iff.mpr ⟨h, rfl, inside, .inr ?_⟩⟩
  -- the line end stands in front of the character, not in its place
  have apart : c ≠ '\r' ∧ c ≠ '\n' := by constructor <;> (rintro rfl; exact solid (by decide))
  rcases ends with empty | feed | ⟨t, split⟩
  · simp at empty
  · cases m with
    | nil => exact absurd (Option.some.inj feed) apart.2
    | cons d m => exact .inl feed
  · rcases m with _ | ⟨d, _ | ⟨e, m⟩⟩
    · exact absurd (List.cons.inj split).1 apart.1
    · exact absurd (List.cons.inj (List.cons.inj split).2).1 apart.2
    · cases split
      exact .inr ⟨m ++ c :: y, rfl⟩

theorem afterGap_local {s m x : List Char} (passed : afterGap s = some (m ++ c :: x)) :
    ∃ h, h ≠ [] ∧ s = h ++ (m ++ c :: x) ∧ ∀ y, afterGap (h ++ (m ++ c :: y)) = some (m ++ c :: y) := by
  rcases afterGap_cases passed with ⟨b, blank, rfl⟩ | ⟨t, rfl, ended⟩ | ⟨t, rfl, closed⟩
  · refine ⟨[b], by simp, rfl, fun y => ?_⟩
    simp only [gapBlanks, List.mem_cons, List.not_mem_nil, or_false] at blank
    rcases blank with rfl | rfl | rfl | rfl <;> rfl
  · obtain ⟨h, rfl, again⟩ := afterLineComment_local solid ended
    exact ⟨'-' :: '-' :: h, by simp, rfl, again⟩
  · obtain ⟨g, rfl, again⟩ := afterBlockComment_split closed
    refine ⟨'/' :: '*' :: (g ++ ['*', '/']), by simp, by simp, fun y => ?_⟩
    have whole : '/' :: '*' :: (g ++ ['*', '/']) ++ (m ++ c :: y)
        = '/' :: '*' :: (g ++ '*' :: '/' :: (m ++ c :: y)) := by simp
    rw [whole]
    exact again _

theorem gap_local {g x : List Char} (gap : Gap g (c :: x)) (y : List Char) : Gap g (c :: y) := by
  induction length : g.length using Nat.strong_induction_on generalizing g with
  | _ n ih =>
    cases passed : afterGap (g ++ c :: x) with
    | none =>
      have same : g ++ c :: x = c :: x := (skipGaps_of_none _ passed).symm.trans gap
      have empty : g = [] := by simpa using same
      subst empty
      exact gap_none (solid_of_head y solid)
    | some r =>
      have later : skipGaps r = c :: x := (skipGaps_of_some _ _ passed).symm.trans gap
      obtain ⟨m, split, behind⟩ := skipGaps_split r
      rw [later] at split behind
      subst split
      obtain ⟨h, nonempty, whole, again⟩ := afterGap_local solid passed
      obtain rfl : g = h ++ m := List.append_cancel_right (whole.trans (List.append_assoc ..).symm)
      have shorter : m.length < n := by
        have long := List.length_pos_iff.mpr nonempty
        rw [List.length_append] at length
        omega
      rw [Gap, List.append_assoc, skipGaps_of_some _ _ (again y)]
      exact ih m.length shorter behind rfl

theorem gap_front {k : List Char} (first : k.head? = some c) {g x : List Char} (gap : Gap g (k ++ x))
    (y : List Char) : Gap g (k ++ y) := by
  obtain ⟨k, rfl⟩ := List.head?_eq_some_iff.mp first
  exact gap_local solid gap (k ++ y)

end Gaps

/-! Spellings to which the first character behind them matters, and no other. -/

def Local {α : Type} (spelling : Spelling α) : Prop :=
  ∀ a t x y, x.head? = y.head? → spelling a t x → spelling a t y

theorem head_behind {x y : List Char} (same : x.head? = y.head?) (t : List Char) :
    (t ++ x).head? = (t ++ y).head? := by
  rw [List.head?_append, List.head?_append, same]

theorem head_before (p : List Char) (c : Char) (x y : List Char) :
    (p ++ c :: x).head? = (p ++ c :: y).head? := by
  cases p <;> rfl

theorem endsWord_local {x y : List Char} (same : x.head? = y.head?) (ended : EndsWord x) : EndsWord y :=
  fun c first => ended c (same.trans first)

theorem letter_apart {c : Char} (letter : c.isAlpha = true) : c ∉ gapMarks :=
  Text.not_mem_of_all letter rfl

theorem local_keyword {word : String} (capital : Capital word) (nonempty : word.toList ≠ []) :
    Local (KeywordText word) := by
  intro a t x y same spelled
  cases spelled with
  | @mk g k _ gap upper ended =>
    cases k with
    | nil => exact absurd upper.symm nonempty
    | cons c k =>
      have letter := capital_letters capital upper c List.mem_cons_self
      exact .mk (gap_front (letter_apart letter) rfl gap y) upper (endsWord_local same ended)

theorem local_behind {α β : Type} {first : Spelling β} {second : Spelling α} (one : Local first)
    (other : Local second) : Local (Behind first second) := by
  rintro a t x y same ⟨b, m, v, rfl, before, behind⟩
  exact ⟨b, m, v, rfl, one _ _ _ _ (head_behind same v) before, other _ _ _ _ same behind⟩

theorem local_maybe {α : Type} {part : Spelling α} (each : Local part) : Local (Maybe part) := by
  intro a t x y same spelled
  cases spelled with
  | missing => exact .missing y
  | there h => exact .there (each _ _ _ _ same h)

theorem local_separated {α β : Type} {mark : Spelling β} {item : Spelling α} (between : Local mark)
    (each : Local item) : Local (Separated mark item) := by
  intro as t x y same spelled
  induction spelled with
  | one h => exact .one (each _ _ _ _ same h)
  | more head mark _ ih =>
    exact .more (each _ _ _ _ (head_behind (head_behind same _) _) head)
      (between _ _ _ _ (head_behind same _) mark) (ih same)

theorem local_name : Local NameText := by
  intro name t x y same spelled
  cases spelled with
  | quoted known closed => exact .quoted known (same ▸ closed)
  | plain shape free ended => exact .plain shape free (endsWord_local same ended)

theorem local_head : Local HeadText := by
  intro modifiers t x y same spelled
  have word : ∀ word : String, Capital word → word.toList ≠ [] → Local (KeywordText word) :=
    fun word => local_keyword
  have temporary := local_maybe (local_behind (word "GLOBAL" rfl (by decide))
    (word "TEMPORARY" rfl (by decide)))
  have conditional := local_maybe (local_behind (word "IF" rfl (by decide))
    (local_behind (word "NOT" rfl (by decide)) (word "EXISTS" rfl (by decide))))
  cases spelled with
  | mk create global table condition =>
    have behind := head_behind same
    have behindTable := fun t u => head_behind (behind u) t
    exact .mk (word "CREATE" rfl (by decide) _ _ _ _ (head_behind (behindTable _ _) _) create)
      (temporary _ _ _ _ (behindTable _ _) global)
      (word "TABLE" rfl (by decide) _ _ _ _ (behind _) table) (conditional _ _ _ _ same condition)

/-! The head of a definition. -/

theorem name_first {name : String} {t rest : List Char} (spelled : NameText name t rest) :
    ∃ c, t.head? = some c ∧ c ∉ gapMarks := by
  cases spelled with
  | quoted known _ => exact ⟨_, rfl, by rcases known with rfl | rfl <;> decide⟩
  | plain shape _ _ =>
    obtain ⟨c, first, start⟩ := shape.start
    exact ⟨c, first, Text.not_mem_of_all start rfl⟩

theorem names_first {names : List String} {t rest : List Char}
    (spelled : Separated (ExactText ".") NameText names t rest) :
    ∃ c, t.head? = some c ∧ c ∉ gapMarks := by
  cases spelled with
  | one named => exact name_first named
  | more named _ _ =>
    obtain ⟨c, first, solid⟩ := name_first named
    exact ⟨c, by rw [List.head?_append, first]; rfl, solid⟩

theorem sound_name : Sound namePart NameText := by
  intro s name rest read
  rcases orElse_ok read with found | ⟨_, read⟩
  · obtain ⟨body, rfl, rfl, closed⟩ := quoted_sound _ s rest name found
    exact ⟨_, rfl, .quoted (.inl rfl) closed⟩
  · rcases orElse_ok read with found | ⟨_, found⟩
    · obtain ⟨body, rfl, rfl, closed⟩ := quoted_sound _ s rest name found
      exact ⟨_, rfl, .quoted (.inr rfl) closed⟩
    · obtain ⟨word, rfl, rfl, shape, free, ended⟩ := plainName_sound found
      exact ⟨word, rfl, .plain shape free ended⟩

theorem sound_path : Sound path (BehindGap (Separated (ExactText ".") NameText)) :=
  sound_behindGap (fun _ => rfl) (sound_separatedBy (sound_exactly ".") sound_name)

/-- The name of a table ends with the opening parenthesis, and what follows makes no difference. -/
theorem tableName_local {s rest : List Char} {name : String} (read : tableName s = .ok (name, rest)) :
    ∃ p, s = p ++ '(' :: rest ∧ ∀ other, tableName (p ++ '(' :: other) = .ok (name, other) := by
  obtain ⟨names, middle, named, read⟩ := bind_ok read
  obtain ⟨_, behind, opened, last⟩ := bind_ok read
  cases last
  obtain ⟨_, rfl, g, t, rfl, gap, spelled⟩ := sound_path _ _ _ named
  obtain ⟨_, rfl, opening⟩ := sound_symbol "(" _ _ _ opened
  cases opening with
  | @mk h _ space =>
    have space : Gap h ('(' :: rest) := space
    refine ⟨g ++ (t ++ h), by simp, fun other => ?_⟩
    have space' : Gap h ('(' :: other) := gap_local (by decide) space other
    have undotted : (h ++ '(' :: other).head? ≠ some '.' := by
      intro dot
      obtain ⟨u, split⟩ := List.head?_eq_some_iff.mp dot
      rw [Gap, split, skipGaps_of_none _ (solid_of_head u (by decide))] at space'
      cases space'
    have spelled' := local_separated (fun _ _ _ _ _ dot => dot) local_name _ _ _ _
      (head_before h '(' rest other) (by simpa using spelled)
    obtain ⟨c, first, solid⟩ := names_first spelled
    have named' := path_dotted (gap_front solid first gap (h ++ '(' :: other)) spelled' undotted
    have opened' : symbol "(" (h ++ '(' :: other) = .ok ((), other) := by
      rw [symbol_apply, space']
      exact exactly_append "(" other
    have text : g ++ (t ++ h) ++ '(' :: other = g ++ (t ++ (h ++ '(' :: other)) := by simp
    rw [text, tableName, bind_of_ok named', bind_of_ok opened']
    rfl

/-- The head of a definition ends with the opening parenthesis, and what follows makes no
difference. -/
theorem tableHead_local {s rest : List Char} {name : String} (read : tableHead s = .ok (name, rest)) :
    ∃ p, s = p ++ '(' :: rest ∧ ∀ other, tableHead (p ++ '(' :: other) = .ok (name, other) := by
  obtain ⟨modifiers, t, u, rfl, spelled, named⟩ := tableHead_sound read
  obtain ⟨p, rfl, again⟩ := tableName_local named
  refine ⟨t ++ p, by simp, fun other => ?_⟩
  rw [List.append_assoc]
  exact tableHead_complete (local_head _ _ _ _ (head_before p '(' rest other) spelled) (again other)

end SqlDialects
