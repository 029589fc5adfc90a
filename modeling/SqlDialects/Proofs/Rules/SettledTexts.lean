import SqlDialects.Proofs.Rules.CalmRules
import SqlDialects.Proofs.Rules.SparedPatterns

/-
Texts to which the rules of a pair have been applied. Nothing that the rules write completes a match of one
of them, so they find nothing more in such a text and leave it as it is.
-/
namespace SqlDialects

open Text Pattern

namespace TextRule

/-! All rules of a pair. -/

theorem limits_operators_settled {pair : Pair}
    (source : pair.source = .mysql ∨ pair.source = .postgresql) (different : pair.target ≠ pair.source) :
    ∀ rule ∈ rowLimits pair ++ operators pair, Settled (seekers pair) rule := by
  -- the last rule for row limits clears the patterns of those before it as well
  have limits : ∀ {front : List TextRule}, rowLimits pair ++ operators pair
        = front ++ [limitOffsetRule, limitAloneRule] →
      (∀ rule ∈ front, rule = limitCommaRule .fetchFirst) →
      ∀ rule ∈ rowLimits pair ++ operators pair, Settled (seekers pair) rule := by
    intro front split commas rule listed
    obtain ⟨comma, offset, alone⟩ := @limits_settled (seekers pair)
      (renames pair ++ (front ++ [limitOffsetRule])) (by rw [seekers, split]; simp)
    rw [split] at listed
    simp only [List.mem_append, List.mem_cons, List.not_mem_nil, or_false] at listed
    rcases listed with known | rfl | rfl
    · rw [commas rule known]
      exact comma
    · exact offset
    · exact alone
  obtain ⟨first, second⟩ := pair
  rcases source with rfl | rfl
  · cases second with
    | tibero | oracle => exact @limits [limitCommaRule .fetchFirst] rfl (by simp)
    | mysql => exact absurd rfl different
    | postgresql =>
      intro rule listed
      obtain rfl := List.mem_singleton.mp listed
      exact limitComma_settled rfl
  · cases second with
    | tibero | oracle => exact @limits [] rfl (by simp)
    | mysql =>
      intro rule listed
      have both := @fetch_operators_settled (seekers ⟨.postgresql, .mysql⟩) (renames _) _
        ⟨.postgresql, .mysql⟩ List.mem_cons_self rfl
      rcases List.mem_pair.mp listed with rfl | rfl
      · exact both.1
      · exact both.2
    | postgresql => exact absurd rfl different

theorem seekers_settled {pair : Pair} (source : pair.source = .mysql ∨ pair.source = .postgresql)
    (different : pair.target ≠ pair.source) : ∀ rule ∈ seekers pair, Settled (seekers pair) rule :=
  fun rule listed => (List.mem_append.mp listed).elim (renames_settled source rule)
    (limits_operators_settled source different rule)

/-! Quotes. -/

theorem seekers_quiet (pair : Pair) : ∀ rule ∈ seekers pair, PutsQuiet rule := by
  intro rule listed
  simp only [seekers, List.mem_append] at listed
  rcases listed with listed | listed | listed
  · exact renames_quiet pair rule listed
  · exact rowLimits_quiet pair rule listed
  · exact operators_quiet pair rule listed

theorem PutsQuiet.putsCode {rule : TextRule} (quiet : PutsQuiet rule) : rule.PutsCode := by
  obtain ⟨label, action⟩ := rule
  cases action with
  | replace pattern text => exact fun member => quiet_ne_apostrophe (quiet.2.inside _ member) rfl
  | compose pattern write =>
    exact fun u v found _ matched member =>
      quiet_ne_apostrophe ((quiet.2 _ v found matched).inside _ member) rfl
  | edit change => cases quiet

theorem quotes_unquoted {pair : Pair} {s : List Char} (unquoted : pair.source.quote ∉ s) :
    ∀ rule ∈ quotes pair, rule.run s = s := by
  intro rule listed
  rw [quotes] at listed
  split at listed
  · cases listed
  · obtain rfl := List.mem_singleton.mp listed
    exact congrArg Prod.fst (requoteFrom_absent unquoted).1

theorem runAll_unquoted {rules : List TextRule} (quiet : ∀ rule ∈ rules, PutsQuiet rule) {q : Char}
    (quote : Nesting.isQuote q = true) {s : List Char} (unquoted : q ∉ s) : q ∉ runAll rules s :=
  runAll_reworded (P := fun s => q ∉ s)
    (fun reworded absent member => absent (reworded.quote quote member)) quiet unquoted

end TextRule

theorem pipeline_unquoted {pair : Pair} (source : pair.source = .mysql ∨ pair.source = .postgresql)
    (different : pair.target ≠ pair.source) {s : List Char} (unquoted : pair.source.quote ∉ s) :
    TextRule.runAll (TextRule.pipeline pair) s = TextRule.runAll (TextRule.seekers pair) s := by
  have kept : pair.source.quote
      ∉ TextRule.runAll (TextRule.renames pair ++ TextRule.rowLimits pair) s := by
    refine TextRule.runAll_unquoted (fun rule listed => TextRule.seekers_quiet pair rule ?_)
      (nameQuote_quote (quote_nameQuote pair.source)) unquoted
    simp only [TextRule.seekers, List.mem_append] at listed ⊢
    tauto
  have same := TextRule.runAll_unchanged (TextRule.quotes_unquoted kept)
  rw [pipeline_rules source different, TextRule.seekers, ← List.append_assoc, ← List.append_assoc,
    ← List.append_assoc]
  simp only [TextRule.runAll_append _ (TextRule.operators pair),
    TextRule.runAll_append _ (TextRule.quotes pair), same]

/-- The text rules of a pair have nothing more to do in a text to which they have been applied, if it had
none of the source's quotes: they leave it as it is and record nothing. -/
theorem converted_text_settled {pair : Pair}
    (source : pair.source = .mysql ∨ pair.source = .postgresql) (different : pair.target ≠ pair.source)
    {s : List Char} (unquoted : pair.source.quote ∉ s) :
    TextRule.applyAll (TextRule.pipeline pair) (TextRule.applyAll (TextRule.pipeline pair) s).1
      = ((TextRule.applyAll (TextRule.pipeline pair) s).1, []) := by
  have quiet := TextRule.seekers_quiet pair
  have code : ∀ rule ∈ TextRule.seekers pair, rule.PutsCode := fun rule listed =>
    (quiet rule listed).putsCode
  rw [TextRule.applyAll_text (TextRule.pipeline_steady pair), pipeline_unquoted source different unquoted]
  refine TextRule.applyAll_unchanged fun rule listed => ?_
  have either : rule ∈ TextRule.seekers pair ∨ rule ∈ TextRule.quotes pair := by
    rw [pipeline_rules source different] at listed
    simp only [TextRule.seekers, List.mem_append] at listed ⊢
    tauto
  rcases either with member | member
  · rw [(code rule member).run, TextRule.runAll_onCode code,
      outsideLiterals_comp _ (TextRule.onCodeAll_writesCode code)]
    exact congrArg (outsideLiterals · s)
      (funext (TextRule.seekers_settled source different rule member))
  · exact TextRule.quotes_unquoted (TextRule.runAll_unquoted quiet
      (nameQuote_quote (quote_nameQuote pair.source)) unquoted) rule member

/-- What is put for the second limit makes an offset for the first one, which only the last rule for limits
clears away. -/
theorem doubled_limit_settled :
    (TextRule.applyAll (TextRule.pipeline ⟨.mysql, .oracle⟩)
        "SELECT NOW( )'NOW()' LIMIT 7 LIMIT 1 OFFSET 2".toList).1
        = ("SELECT SYSDATE'NOW()' FETCH FIRST 7 ROWS ONLY "
          ++ "OFFSET 2 ROWS FETCH FIRST 1 ROWS ONLY").toList
      ∧ TextRule.applyAll (TextRule.pipeline ⟨.mysql, .oracle⟩)
          ("SELECT SYSDATE'NOW()' FETCH FIRST 7 ROWS ONLY "
            ++ "OFFSET 2 ROWS FETCH FIRST 1 ROWS ONLY").toList
        = (("SELECT SYSDATE'NOW()' FETCH FIRST 7 ROWS ONLY "
          ++ "OFFSET 2 ROWS FETCH FIRST 1 ROWS ONLY").toList, []) := by
  have once : (TextRule.applyAll (TextRule.pipeline ⟨.mysql, .oracle⟩)
      "SELECT NOW( )'NOW()' LIMIT 7 LIMIT 1 OFFSET 2".toList).1
      = ("SELECT SYSDATE'NOW()' FETCH FIRST 7 ROWS ONLY "
        ++ "OFFSET 2 ROWS FETCH FIRST 1 ROWS ONLY").toList := by
    decide +kernel
  have again := @converted_text_settled ⟨.mysql, .oracle⟩ (.inl rfl) (by decide)
    "SELECT NOW( )'NOW()' LIMIT 7 LIMIT 1 OFFSET 2".toList (by decide)
  rw [once] at again
  exact ⟨once, again⟩

end SqlDialects
