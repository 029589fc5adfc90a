import SqlDialects.Dialect
import SqlDialects.Rules.TextRule

/-
Rule books: rules listed for each direction of conversion, in the order in which they were
registered.
-/
namespace SqlDialects

structure RuleBook (ρ : Type) where
  entries : List (Pair × List ρ) := []

namespace RuleBook

variable {ρ : Type}

/-- Appends rules to the list of a pair, which is created if it is not there. -/
def extend (pair : Pair) (rules : List ρ) : List (Pair × List ρ) → List (Pair × List ρ)
  | [] => [(pair, rules)]
  | (known, listed) :: rest =>
    if known = pair then (known, listed ++ rules) :: rest
    else (known, listed) :: extend pair rules rest

def registerAll (book : RuleBook ρ) (pair : Pair) (rules : List ρ) : RuleBook ρ :=
  ⟨extend pair rules book.entries⟩

def register (book : RuleBook ρ) (pair : Pair) (rule : ρ) : RuleBook ρ :=
  book.registerAll pair [rule]

def listed (book : RuleBook ρ) (pair : Pair) : List ρ :=
  ((book.entries.find? fun entry => entry.1 == pair).map (·.2)).getD []

/-- The rules that apply to a pair. There are none between a dialect and itself. -/
def rules (book : RuleBook ρ) (pair : Pair) : List ρ :=
  if pair.isIdentity then [] else book.listed pair

def find? (book : RuleBook ρ) (pair : Pair) (test : ρ → Bool) : Option ρ :=
  (book.rules pair).find? test

def isEmpty (book : RuleBook ρ) : Bool := book.entries.all fun entry => entry.2.isEmpty

def pairNames (book : RuleBook ρ) : List String :=
  (book.entries.map fun entry => entry.1.name).mergeSort fun a b => !decide (b < a)

def apply (book : RuleBook TextRule) (pair : Pair) (s : List Char) (log : List String) :
    List Char × List String :=
  (book.rules pair).foldl TextRule.pass (s, log)

end RuleBook

end SqlDialects
