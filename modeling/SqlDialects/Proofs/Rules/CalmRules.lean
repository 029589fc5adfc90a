import SqlDialects.Proofs.Grammar.RewordedText
import SqlDialects.Proofs.Pattern.Absence
import SqlDialects.Proofs.Pattern.Remembered
import SqlDialects.Proofs.Rules.Stepping

/-
The text rules with patterns put other words in a text. All that they take and put are words, numbers,
blanks and parentheses.
-/
namespace SqlDialects

open Text Nesting

/-! Patterns that take quiet texts. -/

namespace Pattern

def takesQuiet (p : Pattern) : Bool := loudCharacters.all p.avoids

theorem takesQuiet_sequence {parts : List Pattern} (each : parts.all takesQuiet = true) :
    (sequence parts).takesQuiet = true := by
  induction parts with
  | nil => decide
  | cons p parts ih =>
    obtain ⟨first, later⟩ := (Bool.and_eq_true ..).mp each
    refine List.all_eq_true.mpr fun c loud => (Bool.and_eq_true ..).mpr ⟨?_, ?_⟩
    · exact List.all_eq_true.mp first c loud
    · exact List.all_eq_true.mp (ih later) c loud

theorem takesQuiet_text {p : Pattern} (takes : p.takesQuiet = true) {before : Option Char}
    {s : List Char} {found : Match} (matched : p.matchAt? before s = some found) :
    ∀ c ∈ found.text, isQuiet c = true := by
  intro c member
  obtain ⟨x, inside, split⟩ := matchAt_split matched
  refine quiet_of_not_loud fun loud => ?_
  obtain ⟨k, taken, absent⟩ := ends_over (List.all_eq_true.mp takes c loud) inside
  have same : found.text = k := List.append_cancel_right (split.symm.trans taken)
  exact absent (same ▸ member)

theorem replaceFrom_reworded {p : Pattern} (takes : p.takesQuiet = true) {write : Match → List Char}
    (puts : ∀ before s found, p.matchAt? before s = some found → Quiet (write found))
    (before : Option Char) (skip : Nat) (closed : Bool) (s : List Char) :
    Reworded (s.drop skip) (replaceFrom p write before skip closed s) := by
  induction s generalizing before skip closed with
  | nil =>
    rw [List.drop_nil, replaceFrom]
    split
    · next found matched =>
      split
      · exact .nil
      · simpa using Reworded.other (by simp) (puts _ _ _ matched) .nil
    · exact .nil
  | cons c s ih =>
    cases skip with
    | succ skip => exact ih (some c) skip true
    | zero =>
      have copied := Reworded.same c (ih (some c) 0 false)
      rw [replaceFrom]
      split
      · exact copied
      · next found matched =>
        have put := puts _ _ _ matched
        have taken := takesQuiet_text takes matched
        obtain ⟨x, _, split⟩ := matchAt_split matched
        cases text : found.text with
        | nil =>
          cases closed with
          | true => exact copied
          | false => exact Reworded.other (u := []) (by simp) put copied
        | cons d tail =>
          rw [text] at split taken
          obtain ⟨rfl, rfl⟩ := List.cons.inj split
          have later := ih (some c) tail.length true
          rw [show List.drop tail.length (tail.append x.rest) = x.rest from List.drop_left] at later
          exact Reworded.other taken put later

end Pattern

theorem outsideLiterals_reworded {f : List Char → List Char} (each : ∀ u, Reworded u (f u))
    (s : List Char) : Reworded s (outsideLiterals f s) := by
  refine (@literal_induction (fun s => Reworded s (outsideLiterals f s))
    (fun t => Reworded t (fromLiteral f t)) ?_ ?_ ?_ ?_ ?_ s).1
  · intro u code
    rw [outsideLiterals_code f code]
    exact each u
  · intro u t code later
    rw [outsideLiterals_opened f code]
    exact (each u).append (.same _ later)
  · exact .nil
  · intro t later
    rw [fromLiteral_closed]
    exact .same _ later
  · intro c t plain later
    rw [fromLiteral_inside f plain]
    exact .same c later

/-! What the rules put there. -/

theorem quiet_append {v w : List Char} (begins : ∃ c, v.head? = some c ∧ isBlank c = false)
    (front : ∀ c ∈ v, isQuiet c = true) (ends : ∃ c, w.getLast? = some c ∧ isBlank c = false)
    (back : ∀ c ∈ w, isQuiet c = true) : Quiet (v ++ w) where
  begins := by
    obtain ⟨c, first, solid⟩ := begins
    exact ⟨c, by rw [List.head?_append, first]; rfl, solid⟩
  ends := by
    obtain ⟨c, last, solid⟩ := ends
    exact ⟨c, by rw [List.getLast?_append, last]; rfl, solid⟩
  inside c member := (List.mem_append.mp member).elim (front c) (back c)

theorem Quiet.append {v w : List Char} (first : Quiet v) (second : Quiet w) : Quiet (v ++ w) :=
  quiet_append first.begins first.inside second.ends second.inside

theorem quiet_digits {t : List Char} (run : Pattern.DigitRun t) : Quiet t := by
  have solid : ∀ c ∈ t, isBlank c = false := fun c member => solid_of_digit (run.2 c member)
  refine ⟨⟨?_, ?_⟩, fun c member => ?_⟩
  · exact ⟨_, List.head?_eq_some_head run.1, solid _ (List.head_mem run.1)⟩
  · exact ⟨_, List.getLast?_eq_some_getLast run.1, solid _ (List.getLast_mem run.1)⟩
  · have outside : loudCharacters.all (fun d => !isPatternDigit d) = true := by
      decide
    exact quiet_of_not_loud (not_mem_of_all (run.2 c member) outside)

def isQuietText (w : List Char) : Bool :=
  w.head?.any (!isBlank ·) && w.getLast?.any (!isBlank ·) && w.all isQuiet

theorem quiet_text {w : List Char} (check : isQuietText w = true) : Quiet w := by
  simp only [isQuietText, Bool.and_eq_true, Option.any_eq_true, Bool.not_eq_true',
    List.all_eq_true] at check
  obtain ⟨⟨begins, ends⟩, inside⟩ := check
  exact ⟨⟨begins, ends⟩, inside⟩

theorem quiet_front {front w : List Char} (begins : ∃ c, front.head? = some c ∧ isBlank c = false)
    (inside : front.all isQuiet = true) (quiet : Quiet w) : Quiet (front ++ w) :=
  quiet_append begins (List.all_eq_true.mp inside) quiet.ends quiet.inside

theorem quiet_back {v back : List Char} (quiet : Quiet v)
    (ends : ∃ c, back.getLast? = some c ∧ isBlank c = false) (inside : back.all isQuiet = true) :
    Quiet (v ++ back) :=
  quiet_append quiet.begins quiet.inside ends (List.all_eq_true.mp inside)

theorem quiet_join {v middle w : List Char} (first : Quiet v) (inside : middle.all isQuiet = true)
    (second : Quiet w) : Quiet (v ++ middle ++ w) :=
  quiet_append (by
    obtain ⟨c, begins, solid⟩ := first.begins
    exact ⟨c, by rw [List.head?_append, begins]; rfl, solid⟩)
    (fun c member => (List.mem_append.mp member).elim (first.inside c) (List.all_eq_true.mp inside c))
    second.ends second.inside

namespace TextRule

theorem quiet_limitText {count offset : List Char} (rows : Quiet count) (start : Quiet offset) :
    Quiet (limitText count offset) :=
  quiet_join (quiet_front ⟨'L', rfl, rfl⟩ (by decide) rows) (by decide) start

theorem quiet_fetchText {count : List Char} (rows : Quiet count) : Quiet (fetchText count) :=
  quiet_back (quiet_front ⟨'F', rfl, rfl⟩ (by decide) rows) ⟨'Y', rfl, rfl⟩ (by decide)

theorem quiet_offsetFetchText {offset count : List Char} (start : Quiet offset)
    (rows : Quiet count) : Quiet (offsetFetchText offset count) :=
  quiet_join (quiet_front ⟨'O', rfl, rfl⟩ (by decide) start) (by decide) (quiet_fetchText rows)

/-! The rules. -/

def PutsQuiet (rule : TextRule) : Prop :=
  match rule.action with
  | .replace pattern text => pattern.takesQuiet = true ∧ Quiet text
  | .compose pattern write => pattern.takesQuiet = true
    ∧ ∀ before s found, pattern.matchAt? before s = some found → Quiet (write found)
  | .edit _ => False

theorem PutsQuiet.reworded {rule : TextRule} (quiet : PutsQuiet rule) (s : List Char) :
    Reworded s (rule.run s) := by
  obtain ⟨label, action⟩ := rule
  cases action with
  | replace pattern text =>
    exact outsideLiterals_reworded
      (Pattern.replaceFrom_reworded quiet.1 (fun _ _ _ _ => quiet.2) none 0 false) s
  | compose pattern write =>
    exact outsideLiterals_reworded (Pattern.replaceFrom_reworded quiet.1 quiet.2 none 0 false) s
  | edit change => cases quiet

theorem runAll_reworded {P : List Char → Prop} (keeps : ∀ {s t}, Reworded s t → P s → P t)
    {rules : List TextRule} (quiet : ∀ rule ∈ rules, PutsQuiet rule) {s : List Char} (before : P s) :
    P (runAll rules s) := by
  induction rules generalizing s with
  | nil => exact before
  | cons rule rules ih =>
    rw [runAll_cons]
    exact ih (fun other listed => quiet other (.tail rule listed))
      (keeps ((quiet rule List.mem_cons_self).reworded s) before)

theorem renameRule_quiet {source target : String} (takes : (Pattern.anyCase source).takesQuiet = true)
    (quiet : Quiet target.toList) : PutsQuiet (renameRule source target) := by
  have call : ∀ parts : List Pattern, parts.all Pattern.takesQuiet = true →
      (Pattern.sequence (.boundary :: Pattern.anyCase source :: parts)).takesQuiet = true := by
    intro parts each
    refine Pattern.takesQuiet_sequence ?_
    rw [List.all_cons, List.all_cons, takes, each]
    decide
  rw [renameRule, PutsQuiet]
  cases isNiladic target with
  | true => exact ⟨call _ (by decide), quiet⟩
  | false => exact ⟨call _ (by decide), quiet.append (quiet_text (by decide))⟩

theorem renames_quiet (pair : Pair) : ∀ rule ∈ renames pair, PutsQuiet rule := by
  intro rule listed
  obtain ⟨mapping, member, named⟩ := List.mem_filterMap.mp listed
  obtain ⟨target, found, rfl⟩ := Option.map_eq_some_iff.mp named
  have checked : allMappings.all (fun mapping => (Pattern.anyCase mapping.source).takesQuiet
      && mapping.action.target?.all fun target => isQuietText target.toList) = true := by
    decide
  have both := List.all_eq_true.mp checked mapping (table_listed member)
  rw [found, Bool.and_eq_true] at both
  exact renameRule_quiet both.1 (quiet_text both.2)

theorem limitCommaRule_quiet (form : RowLimit) : PutsQuiet (limitCommaRule form) := by
  have parts : ∀ before s found, limitComma.matchAt? before s = some found →
      Quiet (found.group 1) ∧ Quiet (found.group 2) := fun before s found matched =>
    ⟨quiet_digits (Pattern.group_present matched (by decide) (by decide)),
      quiet_digits (Pattern.group_present matched (by decide) (by decide))⟩
  cases form with
  | limit =>
    refine ⟨by decide, fun before s found matched => ?_⟩
    obtain ⟨start, rows⟩ := parts before s found matched
    exact quiet_limitText rows start
  | fetchFirst =>
    refine ⟨by decide, fun before s found matched => ?_⟩
    obtain ⟨start, rows⟩ := parts before s found matched
    exact quiet_offsetFetchText start rows

theorem limitOffsetRule_quiet : PutsQuiet limitOffsetRule :=
  ⟨by decide, fun _ _ _ matched => quiet_offsetFetchText
    (quiet_digits (Pattern.group_present matched (by decide) (by decide)))
    (quiet_digits (Pattern.group_present matched (by decide) (by decide)))⟩

theorem limitAloneRule_quiet : PutsQuiet limitAloneRule :=
  ⟨by decide, fun _ _ _ matched => quiet_fetchText
    (quiet_digits (Pattern.group_present matched (by decide) (by decide)))⟩

theorem fetchFirstRule_quiet : PutsQuiet fetchFirstRule := by
  refine ⟨by decide, fun before s found matched => ?_⟩
  have rows : Quiet (found.group 2) :=
    quiet_digits (Pattern.group_present matched (by decide) (by decide))
  rw [fetchAsLimit]
  split
  · next offset part =>
    exact quiet_limitText rows (quiet_digits (Pattern.group_digits matched (by decide) part))
  · exact quiet_front ⟨'L', rfl, rfl⟩ (by decide) rows

theorem rowLimits_quiet (pair : Pair) : ∀ rule ∈ rowLimits pair, PutsQuiet rule := by
  have later : ∀ rule ∈ [limitOffsetRule, limitAloneRule], PutsQuiet rule := by
    intro rule listed
    simp only [List.mem_cons, List.not_mem_nil, or_false] at listed
    rcases listed with rfl | rfl
    · exact limitOffsetRule_quiet
    · exact limitAloneRule_quiet
  intro rule listed
  rcases List.mem_append.mp listed with listed | listed
  · split at listed
    · obtain rfl := List.mem_singleton.mp listed
      exact limitCommaRule_quiet _
    · cases listed
  · split at listed
    · exact later rule listed
    · split at listed
      · obtain rfl := List.mem_singleton.mp listed
        exact fetchFirstRule_quiet
      · cases listed
    · cases listed

theorem operators_quiet (pair : Pair) : ∀ rule ∈ operators pair, PutsQuiet rule := by
  intro rule listed
  rw [operators] at listed
  split at listed
  · obtain rfl := List.mem_singleton.mp listed
    exact ⟨by decide, quiet_text (by decide)⟩
  · cases listed

end TextRule

end SqlDialects
