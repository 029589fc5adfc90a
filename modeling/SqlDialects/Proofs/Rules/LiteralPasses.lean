import SqlDialects.Proofs.Rules.Pipeline

/-
Changes outside literals, one after the other. A change that writes no apostrophe for code leaves every
literal where it is, and the next change finds the same literals with the changed code between them. So
two passes are one pass with both changes, and all rules of a pipeline that put no apostrophe there see
the text cut at the same places.
-/
namespace SqlDialects

open Text

/-! What is written for a match. -/

namespace Pattern

/-- Where a character of a changed text comes from: the text that was there, or what is written for a
match in it. -/
def Stems (p : Pattern) (write : Match → List Char) (before : Option Char) (s : List Char) (c : Char) :
    Prop :=
  c ∈ s ∨ ∃ u v found, s = u ++ v ∧ p.matchAt? (u.getLast?.or before) v = some found ∧ c ∈ write found

theorem Stems.behind {p : Pattern} {write : Match → List Char} {d : Char} {s : List Char} {c : Char}
    (stems : Stems p write (some d) s c) (before : Option Char) : Stems p write before (d :: s) c := by
  rcases stems with old | ⟨u, v, found, split, matched, new⟩
  · exact .inl (.tail d old)
  · exact .inr ⟨d :: u, v, found, by rw [split]; rfl, by rwa [getLast_cons_or], new⟩

theorem mem_replaceFrom {p : Pattern} {write : Match → List Char} {before : Option Char} {skip : Nat}
    {closed : Bool} {s : List Char} {c : Char}
    (member : c ∈ replaceFrom p write before skip closed s) : Stems p write before s c := by
  induction s generalizing before skip closed with
  | nil =>
    rw [replaceFrom_nil] at member
    split at member
    · next found matched =>
      split at member
      · cases member
      · exact .inr ⟨[], [], found, rfl, matched, member⟩
    · cases member
  | cons d s ih =>
    have copied : c ∈ d :: replaceFrom p write (some d) 0 false s → Stems p write before (d :: s) c := by
      intro member
      rcases List.mem_cons.mp member with rfl | member
      · exact .inl List.mem_cons_self
      · exact (ih member).behind before
    cases skip with
    | succ skip => exact (ih member).behind before
    | zero =>
      rw [replaceFrom_cons] at member
      split at member
      · exact copied member
      · next found matched =>
        have new : c ∈ write found → Stems p write before (d :: s) c :=
          fun member => .inr ⟨[], d :: s, found, rfl, matched, member⟩
        split at member
        · rcases List.mem_append.mp member with member | member
          · split at member
            · cases member
            · exact new member
          · exact copied member
        · exact (List.mem_append.mp member).elim new fun member => (ih member).behind before

theorem mem_replaceAll {p : Pattern} {write : Match → List Char} {s : List Char} {c : Char}
    (member : c ∈ p.replaceAll write s) : Stems p write none s c :=
  mem_replaceFrom member

end Pattern

/-! Two passes. -/

namespace Text

/-- A change that makes code of code: it writes no apostrophe where it finds none. -/
def WritesCode (f : List Char → List Char) : Prop := ∀ u, '\x27' ∉ u → '\x27' ∉ f u

def Segment.mapCode (f : List Char → List Char) : Segment → Segment
  | .code text => .code (f text)
  | .literal text => .literal text

section Passes

variable (f g : List Char → List Char)

theorem changed_mapCode (segment : Segment) :
    (segment.mapCode f).changed g = segment.changed (g ∘ f) := by
  cases segment <;> rfl

theorem mapCode_prepend (c : Char) (t : List Char) :
    (Segment.prepend c (Segment.scan true t)).map (Segment.mapCode f)
      = Segment.prepend c ((Segment.scan true t).map (Segment.mapCode f)) := by
  obtain ⟨text, more, split⟩ := scan_literal t
  rw [split]
  rfl

theorem outsideLiterals_id (s : List Char) : outsideLiterals id s = s := by
  refine (@literal_induction (fun s => outsideLiterals id s = s) (fun t => fromLiteral id t = t)
    ?_ ?_ ?_ ?_ ?_ s).1
  · intro u code
    rw [outsideLiterals_code id code]
    rfl
  · intro u t code later
    rw [outsideLiterals_opened id code, later]
    rfl
  · rfl
  · intro t later
    rw [fromLiteral_closed, later]
  · intro c t plain later
    rw [fromLiteral_inside id plain, later]

variable {f}

variable (writes : WritesCode f)
include writes

theorem segments_outsideLiterals (s : List Char) :
    segments (outsideLiterals f s) = (segments s).map (Segment.mapCode f) := by
  refine (@literal_induction
    (fun s => Segment.scan false (outsideLiterals f s) = (Segment.scan false s).map (Segment.mapCode f))
    (fun t => Segment.scan true (fromLiteral f t) = (Segment.scan true t).map (Segment.mapCode f))
    ?_ ?_ ?_ ?_ ?_ s).1
  · intro u code
    rw [outsideLiterals_code f code, scan_unquoted code, scan_unquoted (writes u code)]
    rfl
  · intro u t code later
    rw [outsideLiterals_opened f code, scan_opened code, scan_opened (writes u code), later,
      List.map_cons, mapCode_prepend]
    rfl
  · rfl
  · intro t later
    rw [fromLiteral_closed, Segment.scan, Segment.scan, if_pos rfl, if_pos rfl, later, List.map_cons]
    rfl
  · intro c t plain later
    rw [fromLiteral_inside f plain, Segment.scan, Segment.scan, if_neg plain, if_neg plain, later,
      mapCode_prepend]

theorem outsideLiterals_comp (s : List Char) :
    outsideLiterals g (outsideLiterals f s) = outsideLiterals (g ∘ f) s := by
  rw [outsideLiterals, segments_outsideLiterals writes, List.flatMap_map, outsideLiterals]
  exact congrArg (List.flatMap · _) (funext fun segment => changed_mapCode f g segment)

end Passes

end Text

/-! Rules that put code for code. -/

namespace TextRule

def onCode (rule : TextRule) : List Char → List Char :=
  match rule.action with
  | .replace pattern replacement => pattern.replaceAll fun _ => replacement
  | .compose pattern write => pattern.replaceAll write
  | .edit _ => id

def onCodeAll (rules : List TextRule) (u : List Char) : List Char :=
  rules.foldl (fun u rule => rule.onCode u) u

def PutsCode (rule : TextRule) : Prop :=
  match rule.action with
  | .replace _ text => '\x27' ∉ text
  | .compose pattern write => ∀ u v found, '\x27' ∉ u ++ v →
    pattern.matchAt? u.getLast? v = some found → '\x27' ∉ write found
  | .edit _ => False

section Rules

variable {rule : TextRule} (puts : rule.PutsCode)
include puts

theorem PutsCode.run (s : List Char) : rule.run s = outsideLiterals rule.onCode s := by
  obtain ⟨label, action⟩ := rule
  cases action with
  | replace pattern text => rfl
  | compose pattern write => rfl
  | edit change => cases puts

theorem PutsCode.steady : rule.Steady := by
  obtain ⟨label, action⟩ := rule
  cases action with
  | replace pattern text => exact steady_replace label pattern text
  | compose pattern write => exact steady_compose label pattern write
  | edit change => cases puts

theorem PutsCode.writesCode : WritesCode rule.onCode := by
  obtain ⟨label, action⟩ := rule
  intro u code member
  cases action with
  | replace pattern text =>
    rcases Pattern.mem_replaceAll member with old | ⟨_, _, _, _, _, new⟩
    · exact code old
    · exact puts new
  | compose pattern write =>
    rcases Pattern.mem_replaceAll member with old | ⟨v, w, found, split, matched, new⟩
    · exact code old
    · exact puts v w found (split ▸ code) (by simpa using matched) new
  | edit change => cases puts

end Rules

section Pipelines

variable {rules : List TextRule} (puts : ∀ rule ∈ rules, rule.PutsCode)
include puts

theorem onCodeAll_writesCode : WritesCode (onCodeAll rules) := by
  induction rules with
  | nil => exact fun _ code => code
  | cons rule rules ih =>
    have later := ih fun other listed => puts other (.tail rule listed)
    exact fun u code => later _ ((puts rule List.mem_cons_self).writesCode u code)

theorem runAll_onCode (s : List Char) : runAll rules s = outsideLiterals (onCodeAll rules) s := by
  induction rules generalizing s with
  | nil => exact (outsideLiterals_id s).symm
  | cons rule rules ih =>
    have first := puts rule List.mem_cons_self
    rw [runAll_cons, ih fun other listed => puts other (.tail rule listed), first.run,
      outsideLiterals_comp _ first.writesCode]
    rfl

end Pipelines

end TextRule

/-- A pass that changes nothing gives the text back, and two passes are one pass with both changes where
the first makes code of code. So every rule of a pipeline that puts no apostrophe for code, whatever rules
have been applied before it, sees the literals of the first text and the changed code between them. -/
theorem literal_passes_fused (s : List Char) :
    outsideLiterals id s = s
      ∧ (∀ f g, WritesCode f → outsideLiterals g (outsideLiterals f s) = outsideLiterals (g ∘ f) s)
      ∧ ∀ rules : List TextRule, (∀ rule ∈ rules, rule.PutsCode) → ∀ done, done <+: rules →
        segments (TextRule.applyAll done s).1
          = (segments s).map (Segment.mapCode (TextRule.onCodeAll done)) := by
  refine ⟨outsideLiterals_id s, fun f g writes => outsideLiterals_comp g writes s, ?_⟩
  intro rules puts done begun
  have each : ∀ rule ∈ done, rule.PutsCode := fun rule listed => puts rule (begun.subset listed)
  rw [TextRule.applyAll_text fun rule listed => (each rule listed).steady, TextRule.runAll_onCode each,
    segments_outsideLiterals (TextRule.onCodeAll_writesCode each)]

/-- Doubled code has no apostrophe that was not there, and a call is renamed between the same literals. -/
theorem doubled_code_fused :
    WritesCode (fun u => u ++ u)
      ∧ outsideLiterals List.reverse (outsideLiterals (fun u => u ++ u) "ab'c''d' e'f".toList)
        = "baba'c''d'e e 'f".toList
      ∧ TextRule.PutsCode (TextRule.renameRule "NOW" "SYSDATE")
      ∧ segments (TextRule.applyAll [TextRule.renameRule "NOW" "SYSDATE"] "NOW( )'NOW()'".toList).1
        = [.code "SYSDATE".toList, .literal "'NOW()'".toList, .code []] := by
  have doubles : WritesCode (fun u => u ++ u) := fun u code => by simpa using code
  have puts : TextRule.PutsCode (TextRule.renameRule "NOW" "SYSDATE") := by
    change '\x27' ∉ "SYSDATE".toList
    decide
  refine ⟨doubles, ?_, puts, ?_⟩
  · rw [(literal_passes_fused _).2.1 _ _ doubles]
    decide
  · rw [(literal_passes_fused _).2.2 _ (by simpa using puts) _ (List.prefix_refl _)]
    decide +kernel

end SqlDialects
