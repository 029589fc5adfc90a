import SqlDialects.Pattern.Basic
import SqlDialects.Text.Literal

/-
Rules that change SQL text, and running them one after the other on a text with its log. A rule that
changes the text is recorded by its label, behind any entries of its own; what a rule that changes
nothing has put at the end of the log is taken off again.
-/
namespace SqlDialects

/-- What a rule does. Patterns match outside string literals only. -/
inductive TextRule.Action where
  /-- Puts a fixed text for each match. -/
  | replace (pattern : Pattern) (replacement : List Char)
  /-- Puts a text made of the matched parts for each match. -/
  | compose (pattern : Pattern) (write : Pattern.Match → List Char)
  /-- Any change to the whole text and the log. -/
  | edit (change : List Char → List String → List Char × List String)

/-- A change to the whole text that does not look at the log and only adds entries to it. -/
def TextRule.Action.transform (change : List Char → List Char × List String) : TextRule.Action :=
  .edit fun s log => ((change s).1, log ++ (change s).2)

structure TextRule where
  label : String
  action : TextRule.Action

namespace TextRule

def rewrite (rule : TextRule) (s : List Char) (log : List String) : List Char × List String :=
  match rule.action with
  | .replace pattern replacement =>
    (Text.outsideLiterals (pattern.replaceAll fun _ => replacement) s, log)
  | .compose pattern write => (Text.outsideLiterals (pattern.replaceAll write) s, log)
  | .edit change => change s log

def pass (state : List Char × List String) (rule : TextRule) : List Char × List String :=
  let (changed, grown) := rule.rewrite state.1 state.2
  if changed = state.1 then (state.1, grown.take state.2.length)
  else (changed, grown ++ [rule.label])

/-- Applies rules in order, each to the text and the log that the one before it left. The log is empty at
the start. -/
def applyAll (rules : List TextRule) (s : List Char) : List Char × List String :=
  rules.foldl pass (s, [])

end TextRule

end SqlDialects
