import ModuleGraph.Manifest
import ModuleGraph.Toml.Document

/-! # Reading manifests

The entries stand in the list `module`. An entry is a table, or an array that gives the same
fields by position; keys that are no fields do not count. A manifest that is read has an entry
with a descriptor at every place.
-/

namespace ModuleGraph

open Toml

namespace Toml.Value

def text? : Value → Option String
  | text s => some s
  | _ => none

def texts? : Value → Option (List String)
  | array items => items.mapM text?
  | _ => none

def textTable? : Value → Option (NameMap (List String))
  | table _ entries => do
    return .ofList (← entries.mapM fun (k, v) => do return (k, ← v.texts?))
  | _ => none

end Toml.Value

namespace Entry

/-- The fields of an entry, in the order they have in an array. -/
inductive Field where
  | name
  | requires
  | exports
  | conceals
  | exportsTo

def Field.key : Field → String
  | name => "name"
  | requires => "requires"
  | exports => "exports"
  | conceals => "conceals"
  | exportsTo => "exports-to"

def Field.index : Field → Nat
  | name => 0
  | requires => 1
  | exports => 2
  | conceals => 3
  | exportsTo => 4

/-- A field that is a list of strings, empty if left out. -/
def textsOf? : Option Value → Option (List String)
  | none => some []
  | some v => v.texts?

/-- The entry with given fields. Only the name may not be left out. -/
def ofFields? (field : Field → Option Value) : Option Entry := do
  return {
    name := ← (← field .name).text?
    requires := ← textsOf? (field .requires)
    exports := ← textsOf? (field .exports)
    conceals := ← textsOf? (field .conceals)
    exportsTo := ← match field .exportsTo with
      | none => some ∅
      | some v => v.textTable? }

def ofTable? (entries : Entries) : Option Entry := ofFields? fun f => entries.get? f.key

def ofValue? : Value → Option Entry
  | .table _ entries => ofTable? entries
  | .array items => ofFields? fun f => items[f.index]?
  | _ => none

end Entry

namespace Manifest

def ofTable? (entries : Entries) : Option Manifest :=
  match entries.get? "module" with
  | none => some ⟨[]⟩
  | some (.array items) => (items.mapM Entry.ofValue?).map .mk
  | some (.tables items) => (items.mapM Entry.ofTable?).map .mk
  | some _ => none

/-- Reads a manifest without looking at its declarations. -/
def parse? (text : String) : Option Manifest := do ofTable? (← Toml.read? text)

/-- Reads a manifest whose entries all have descriptors. -/
def ofText (text : String) : Except ManifestError Manifest :=
  match parse? text with
  | none => .error .unreadable
  | some m => m.descriptors.map fun _ => m

def ofFile (file : FileBytes) : Except ManifestError Manifest :=
  match file >>= textOf with
  | .error e => .error (.file e)
  | .ok s => ofText s

end Manifest
end ModuleGraph
