import SqlDialects.Rules.RuleBook
import SqlDialects.Rules.TextPipeline

/-
Rule books and the log of their pipelines. However the registrations for several pairs are mixed, a pair
has the rules that were registered for it, in that order. They are applied one after the other to a text
with its log: a rule that changes the text adds its own entries and its label, and a rule that changes
nothing could as well be missing.
-/
namespace SqlDialects

/-! Registering. -/

inductive Registration (ρ : Type) where
  | one (pair : Pair) (rule : ρ)
  | several (pair : Pair) (rules : List ρ)

def Registration.rulesFor {ρ : Type} (pair : Pair) : Registration ρ → List ρ
  | .one known rule => if known = pair then [rule] else []
  | .several known rules => if known = pair then rules else []

namespace RuleBook

section Registered

variable {ρ : Type}

def enter (book : RuleBook ρ) : Registration ρ → RuleBook ρ
  | .one pair rule => book.register pair rule
  | .several pair rules => book.registerAll pair rules

def ofCalls (calls : List (Registration ρ)) : RuleBook ρ := calls.foldl enter {}

def only (pair : Pair) (rules : List ρ) : RuleBook ρ := ofCalls [.several pair rules]

def registered (pair : Pair) (calls : List (Registration ρ)) : List ρ :=
  calls.flatMap (Registration.rulesFor pair)

theorem listed_registerAll (book : RuleBook ρ) (known pair : Pair) (rules : List ρ) :
    (book.registerAll known rules).listed pair
      = book.listed pair ++ if known = pair then rules else [] := by
  obtain ⟨entries⟩ := book
  induction entries with
  | nil =>
    by_cases same : known = pair
    · simp [registerAll, extend, listed, same]
    · simp [registerAll, extend, listed, same]
  | cons entry entries ih =>
    obtain ⟨other, others⟩ := entry
    simp only [registerAll, listed, extend] at ih ⊢
    by_cases first : other = known
    · subst first
      by_cases same : other = pair
      · simp [same]
      · simp [same]
    · rw [if_neg first]
      by_cases same : other = pair
      · have apart : known ≠ pair := fun equal => first (same.trans equal.symm)
        simp [same, apart]
      · simpa [List.find?_cons, same] using ih

theorem listed_enter (book : RuleBook ρ) (call : Registration ρ) (pair : Pair) :
    (book.enter call).listed pair = book.listed pair ++ call.rulesFor pair := by
  cases call with
  | one known rule => exact listed_registerAll book known pair [rule]
  | several known rules => exact listed_registerAll book known pair rules

theorem listed_calls (book : RuleBook ρ) (calls : List (Registration ρ)) (pair : Pair) :
    (calls.foldl enter book).listed pair = book.listed pair ++ registered pair calls := by
  induction calls generalizing book with
  | nil => simp [registered]
  | cons call calls ih => rw [List.foldl_cons, ih, listed_enter, List.append_assoc]; rfl

theorem rules_ofCalls {pair : Pair} (distinct : pair.isIdentity = false)
    (calls : List (Registration ρ)) : (ofCalls calls).rules pair = registered pair calls := by
  rw [rules, distinct, ofCalls, listed_calls]
  rfl

theorem rules_only {pair : Pair} (distinct : pair.isIdentity = false) (rules : List ρ) :
    (only pair rules).rules pair = rules := by
  rw [only, rules_ofCalls distinct]
  simp [registered, Registration.rulesFor]

end Registered

end RuleBook

/-! Applying. -/

namespace TextRule

/-- A rule that leaves the log as it finds it, but for entries of its own at the end. -/
def Appends (rule : TextRule) : Prop := ∀ s log, log <+: (rule.rewrite s log).2

theorem pass_eq (rule : TextRule) (s : List Char) (log : List String) :
    pass (s, log) rule
      = if (rule.rewrite s log).1 = s then (s, (rule.rewrite s log).2.take log.length)
        else ((rule.rewrite s log).1, (rule.rewrite s log).2 ++ [rule.label]) := rfl

theorem pass_unchanged {rule : TextRule} (appends : rule.Appends) {s : List Char} {log : List String}
    (same : (rule.rewrite s log).1 = s) : pass (s, log) rule = (s, log) := by
  have taken : (rule.rewrite s log).2.take log.length = log :=
    (List.prefix_iff_eq_take.mp (appends s log)).symm
  rw [pass_eq, if_pos same, taken]

theorem pass_changed {rule : TextRule} {s : List Char} {log : List String}
    (other : (rule.rewrite s log).1 ≠ s) :
    pass (s, log) rule = ((rule.rewrite s log).1, (rule.rewrite s log).2 ++ [rule.label]) := by
  rw [pass_eq, if_neg other]

theorem pass_log {rule : TextRule} (appends : rule.Appends) (s : List Char) (log : List String) :
    log <+: (pass (s, log) rule).2 := by
  by_cases same : (rule.rewrite s log).1 = s
  · simpa only [pass_unchanged appends same] using List.prefix_refl log
  · rw [pass_changed same]
    exact (appends s log).trans (List.prefix_append _ _)

theorem passes_log {rules : List TextRule} (appends : ∀ rule ∈ rules, rule.Appends) (s : List Char)
    (log : List String) : log <+: (rules.foldl pass (s, log)).2 := by
  induction rules generalizing s log with
  | nil => exact List.prefix_refl _
  | cons rule rules ih =>
    exact (pass_log (appends rule List.mem_cons_self) s log).trans
      (ih (fun other listed => appends other (.tail rule listed)) _ _)

end TextRule

namespace RuleBook

open TextRule (pass)

theorem apply_calls {pair : Pair} (distinct : pair.isIdentity = false)
    (calls : List (Registration TextRule)) (s : List Char) (log : List String) :
    (ofCalls calls).apply pair s log = (registered pair calls).foldl pass (s, log) := by
  rw [apply, rules_ofCalls distinct]

theorem apply_only {pair : Pair} (distinct : pair.isIdentity = false) (rules : List TextRule)
    (s : List Char) (log : List String) :
    (only pair rules).apply pair s log = rules.foldl pass (s, log) := by
  rw [apply, rules_only distinct]

/-- Between a dialect and itself nothing is applied. For other pairs, only the rules that were registered
for the pair matter, in the order of their registration: the first of them are applied, and the others to
the text and the log that these leave. If every rule only adds to the log that it finds, the log at the
start stays in front, a rule that finds nothing to change could be taken out, and one that changes the
text adds its own entries and then its label. -/
theorem registered_rules_applied (calls : List (Registration TextRule)) (pair : Pair) (s : List Char)
    (log : List String) :
    (pair.isIdentity = true → (ofCalls calls).apply pair s log = (s, log))
      ∧ (pair.isIdentity = false →
        (∀ others, registered pair others = registered pair calls →
          (ofCalls others).apply pair s log = (ofCalls calls).apply pair s log)
        ∧ (∀ first second, registered pair calls = first ++ second →
          ∀ t entries, (only pair first).apply pair s log = (t, entries) →
            (ofCalls calls).apply pair s log = (only pair second).apply pair t entries)
        ∧ ((∀ rule ∈ registered pair calls, rule.Appends) →
          log <+: ((ofCalls calls).apply pair s log).2
          ∧ ∀ first rule second, registered pair calls = first ++ rule :: second →
            ∀ t entries, (only pair first).apply pair s log = (t, entries) →
              ((rule.rewrite t entries).1 = t → (ofCalls calls).apply pair s log
                = (only pair (first ++ second)).apply pair s log)
              ∧ ((rule.rewrite t entries).1 ≠ t →
                ∃ own, (rule.rewrite t entries).2 = entries ++ own
                  ∧ (ofCalls calls).apply pair s log
                    = (only pair second).apply pair (rule.rewrite t entries).1
                      (entries ++ (own ++ [rule.label]))))) := by
  refine ⟨fun same => ?_, fun distinct => ⟨?_, ?_, fun appends => ⟨?_, ?_⟩⟩⟩
  · rw [apply, rules, same]
    rfl
  · intro others equal
    rw [apply_calls distinct, apply_calls distinct, equal]
  · intro first second split t entries reached
    rw [apply_only distinct] at reached ⊢
    rw [apply_calls distinct, split, List.foldl_append, reached]
  · rw [apply_calls distinct]
    exact TextRule.passes_log appends s log
  · intro first rule second split t entries reached
    have own : rule.Appends := appends rule (by simp [split])
    rw [apply_only distinct] at reached
    rw [apply_calls distinct, split, List.foldl_append, List.foldl_cons, reached]
    constructor
    · intro same
      rw [TextRule.pass_unchanged own same, apply_only distinct, List.foldl_append, reached]
    · intro other
      obtain ⟨added, grown⟩ := own t entries
      refine ⟨added, grown.symm, ?_⟩
      rw [TextRule.pass_changed other, apply_only distinct, ← grown, List.append_assoc]

/-- Puts a text in capital letters and says so. -/
def shout : TextRule where
  label := "shout"
  action := .transform fun s => (s.map Char.toUpper, ["shouted"])

/-- Puts the last entry of the log in front of a text. -/
def sign : TextRule where
  label := "sign"
  action := .edit fun s log => ((log.getLastD "").toList ++ s, log ++ ["signed"])

def mixedCalls : List (Registration TextRule) :=
  [.one ⟨.mysql, .postgresql⟩ shout, .one ⟨.mysql, .mysql⟩ shout,
    .several ⟨.mysql, .oracle⟩ [sign], .several ⟨.mysql, .postgresql⟩ [shout, sign]]

/-- The second rule of the pair finds nothing to change, and the third reads what the first one has
entered. -/
theorem mixedCalls_applied :
    (ofCalls mixedCalls).apply ⟨.mysql, .mysql⟩ "a".toList ["start"] = ("a".toList, ["start"])
      ∧ (ofCalls mixedCalls).apply ⟨.mysql, .postgresql⟩ "a".toList ["start"]
        = (only ⟨.mysql, .postgresql⟩ [shout, sign]).apply ⟨.mysql, .postgresql⟩ "a".toList ["start"]
      ∧ (ofCalls mixedCalls).apply ⟨.mysql, .postgresql⟩ "a".toList ["start"]
        = ("shoutA".toList, ["start", "shouted", "shout", "signed", "sign"]) := by
  have appends : ∀ rule ∈ registered ⟨.mysql, .postgresql⟩ mixedCalls, rule.Appends := by
    intro rule listed s log
    have known : rule = shout ∨ rule = sign := by
      simpa [registered, mixedCalls, Registration.rulesFor] using listed
    rcases known with rfl | rfl <;> exact List.prefix_append _ _
  obtain ⟨_, distinct⟩ := registered_rules_applied mixedCalls ⟨.mysql, .postgresql⟩ "a".toList ["start"]
  obtain ⟨_, _, steps⟩ := distinct rfl
  obtain ⟨_, each⟩ := steps appends
  refine ⟨(registered_rules_applied mixedCalls _ _ _).1 rfl, ?_, ?_⟩
  · exact (each [shout] shout [sign] rfl "A".toList ["start", "shouted", "shout"] (by decide)).1
      (by decide)
  · obtain ⟨own, grown, applied⟩ := (each [shout, shout] sign [] rfl "A".toList
      ["start", "shouted", "shout"] (by decide)).2 (by decide)
    have same : own = ["signed"] := List.append_cancel_left grown.symm
    rw [applied, same]
    decide

end RuleBook

/-! Rules that pay no attention to the log. -/

namespace TextRule

def run (rule : TextRule) (s : List Char) : List Char := (rule.rewrite s []).1

def runAll (rules : List TextRule) (s : List Char) : List Char :=
  rules.foldl (fun s rule => rule.run s) s

structure Steady (rule : TextRule) : Prop where
  text : ∀ s log, (rule.rewrite s log).1 = rule.run s
  appends : rule.Appends

theorem steady_replace (label : String) (p : Pattern) (replacement : List Char) :
    Steady ⟨label, .replace p replacement⟩ := ⟨fun _ _ => rfl, fun _ log => List.prefix_refl log⟩

theorem steady_compose (label : String) (p : Pattern) (write : Pattern.Match → List Char) :
    Steady ⟨label, .compose p write⟩ := ⟨fun _ _ => rfl, fun _ log => List.prefix_refl log⟩

theorem steady_transform (label : String) (change : List Char → List Char × List String) :
    Steady ⟨label, .transform change⟩ := ⟨fun _ _ => rfl, fun _ log => List.prefix_append log _⟩

theorem runAll_nil (s : List Char) : runAll [] s = s := rfl

theorem runAll_cons (rule : TextRule) (rules : List TextRule) (s : List Char) :
    runAll (rule :: rules) s = runAll rules (rule.run s) := rfl

theorem runAll_one (rule : TextRule) (s : List Char) : runAll [rule] s = rule.run s := rfl

theorem runAll_append (first second : List TextRule) (s : List Char) :
    runAll (first ++ second) s = runAll second (runAll first s) := List.foldl_append

theorem pass_text {rule : TextRule} (steady : rule.Steady) (s : List Char) (log : List String) :
    (pass (s, log) rule).1 = rule.run s := by
  by_cases same : (rule.rewrite s log).1 = s
  · rw [pass_unchanged steady.appends same, ← steady.text s log, same]
  · rw [pass_changed same, steady.text]

theorem applyAll_text {rules : List TextRule} (steady : ∀ rule ∈ rules, rule.Steady) (s : List Char) :
    (applyAll rules s).1 = runAll rules s := by
  have passes : ∀ s log, (rules.foldl pass (s, log)).1 = runAll rules s := by
    induction rules with
    | nil => exact fun s log => rfl
    | cons rule rules ih =>
      intro s log
      obtain ⟨first, later⟩ := List.forall_mem_cons.mp steady
      refine (ih later (pass (s, log) rule).1 (pass (s, log) rule).2).trans ?_
      rw [pass_text first, runAll_cons]
  exact passes s []

theorem applyAll_unchanged {rules : List TextRule} {s : List Char}
    (same : ∀ rule ∈ rules, rule.run s = s) : applyAll rules s = (s, []) := by
  induction rules with
  | nil => rfl
  | cons rule rules ih =>
    obtain ⟨first, later⟩ := List.forall_mem_cons.mp same
    have passed : pass (s, []) rule = (s, []) := if_pos first
    rw [applyAll, List.foldl_cons, passed]
    exact ih later

theorem runAll_unchanged {rules : List TextRule} {s : List Char}
    (same : ∀ rule ∈ rules, rule.run s = s) : runAll rules s = s := by
  induction rules with
  | nil => rfl
  | cons rule rules ih =>
    obtain ⟨first, later⟩ := List.forall_mem_cons.mp same
    rw [runAll_cons, first, ih later]

theorem applyAll_silent {rules : List TextRule} (steady : ∀ rule ∈ rules, rule.Steady) {s : List Char}
    (silent : (applyAll rules s).2 = []) : (applyAll rules s).1 = s := by
  induction rules with
  | nil => rfl
  | cons rule rules ih =>
    obtain ⟨first, later⟩ := List.forall_mem_cons.mp steady
    have grows := passes_log (fun other listed => (later other listed).appends)
      (pass (s, []) rule).1 (pass (s, []) rule).2
    rw [show (rules.foldl pass (pass (s, []) rule)).2 = [] from silent, List.prefix_nil] at grows
    by_cases same : (rule.rewrite s []).1 = s
    · have passed := pass_unchanged first.appends same
      rw [applyAll, List.foldl_cons, passed] at silent ⊢
      exact ih later silent
    · rw [pass_changed same] at grows
      exact absurd grows (by simp)

theorem limitCommaRule_steady (form : RowLimit) : (limitCommaRule form).Steady := by
  cases form <;> exact steady_compose _ _ _

theorem renames_steady (pair : Pair) : ∀ rule ∈ renames pair, rule.Steady := by
  intro rule listed
  obtain ⟨mapping, _, made⟩ := List.mem_filterMap.mp listed
  obtain ⟨target, _, rfl⟩ := Option.map_eq_some_iff.mp made
  rw [renameRule]
  split <;> exact steady_replace _ _ _

theorem rowLimits_steady (pair : Pair) : ∀ rule ∈ rowLimits pair, rule.Steady := by
  have comma : ∀ rule ∈ if pair.source = .mysql then [limitCommaRule pair.target.rowLimit] else [],
      rule.Steady := by
    intro rule listed
    obtain rfl : rule = limitCommaRule pair.target.rowLimit := by
      split at listed
      · exact List.mem_singleton.mp listed
      · cases listed
    exact limitCommaRule_steady _
  intro rule listed
  rcases List.mem_append.mp listed with listed | listed
  · exact comma rule listed
  · split at listed
    · rcases List.mem_cons.mp listed with rfl | listed
      · exact steady_compose _ _ _
      · obtain rfl := List.mem_singleton.mp listed
        exact steady_compose _ _ _
    · split at listed
      · obtain rfl := List.mem_singleton.mp listed
        exact steady_compose _ _ _
      · cases listed
    · cases listed

theorem quotes_steady (pair : Pair) : ∀ rule ∈ quotes pair, rule.Steady := by
  intro rule listed
  rw [quotes] at listed
  split at listed
  · cases listed
  · obtain rfl := List.mem_singleton.mp listed
    exact steady_transform _ _

theorem operators_steady (pair : Pair) : ∀ rule ∈ operators pair, rule.Steady := by
  intro rule listed
  rw [operators] at listed
  split at listed
  · obtain rfl := List.mem_singleton.mp listed
    exact steady_replace _ _ _
  · cases listed

theorem pipeline_steady (pair : Pair) : ∀ rule ∈ pipeline pair, rule.Steady := by
  intro rule listed
  rw [pipeline] at listed
  split at listed
  · cases listed
  · simp only [List.mem_append] at listed
    rcases listed with ((listed | listed) | listed) | listed
    · exact renames_steady pair rule listed
    · exact rowLimits_steady pair rule listed
    · exact quotes_steady pair rule listed
    · exact operators_steady pair rule listed

end TextRule

end SqlDialects
