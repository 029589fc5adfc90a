import SqlDialects.Conversion.Note
import SqlDialects.Dialect
import SqlDialects.Toml.Reader

/-
Settings: the dialects to use when none are named, and the options. They are kept in a TOML
document with the tables `defaults` and `options`. Keys that have no meaning are passed over.
-/
namespace SqlDialects

structure Settings where
  source : Option Dialect := none
  target : Option Dialect := none
  options : Options := {}
  deriving DecidableEq, Repr

namespace Settings

open Toml (Value)

/-- The values of named fields, from a table by name or from an array by position. A date has none
of them. -/
def fields? (names : List String) : Value → Option (List (Option Value))
  | .table entries => some (names.map fun name => entries.lookup name)
  | .array items => some ((List.range names.length).map fun i => items[i]?)
  | .dateTime _ => some (names.map fun _ => none)
  | _ => none

/-- A dialect by its exact name, which may also be the only key of a table with nothing under it. -/
def dialect? : Value → Option Dialect
  | .string text => Dialect.ofKey? text
  | .table [(key, .table [])] => Dialect.ofKey? key
  | .table [(key, .array [])] => Dialect.ofKey? key
  | _ => none

def boolean? : Value → Option Bool
  | .boolean value => some value
  | _ => none

def count? : Value → Option Nat
  | .integer value => if 0 ≤ value then some value.toNat else none
  | _ => none

/-- A field that may be missing, but has to be understood where it is there. -/
def field? {α : Type} (read : Value → Option α) (missing : α) : Option Value → Option α
  | some value => read value
  | none => some missing

def defaults? (value : Value) : Option (Option Dialect × Option Dialect) := do
  match ← fields? ["source", "target"] value with
  | [source, target] =>
    let dialect := field? (fun value => (dialect? value).map some) none
    pure (← dialect source, ← dialect target)
  | _ => none

def options? (value : Value) : Option Options := do
  let standard : Options := {}
  match ← fields? ["include_info", "record_unchanged", "ddl_indent"] value with
  | [includeInfo, recordUnchanged, ddlIndent] =>
    pure
      { includeInfo := ← field? boolean? standard.includeInfo includeInfo
        recordUnchanged := ← field? boolean? standard.recordUnchanged recordUnchanged
        ddlIndent := ← field? count? standard.ddlIndent ddlIndent }
  | _ => none

def ofValue? (value : Value) : Option Settings := do
  match ← fields? ["defaults", "options"] value with
  | [defaults, options] =>
    let (source, target) ← field? defaults? (none, none) defaults
    pure { source, target, options := ← field? options? {} options }
  | _ => none

def ofText (text : String) : Except Failure Settings :=
  match (Toml.ofText? text).bind ofValue? with
  | some settings => .ok settings
  | none => .error (.settings "the settings are not understood")

end Settings

end SqlDialects
