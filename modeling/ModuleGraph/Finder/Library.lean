import ModuleGraph.Module.Descriptor

/-! # Libraries

A library holds descriptors by their own names.
-/

namespace ModuleGraph

inductive FinderError where
  | duplicateModule (name : String)
  deriving DecidableEq

def FinderError.message : FinderError → String
  | duplicateModule n => "Duplicate module in finder: " ++ n

/-- Descriptors by their own names. -/
abbrev Library := NameMap Descriptor

namespace Library

def add (l : Library) (d : Descriptor) : Except FinderError Library :=
  if d.name ∈ l then .error (.duplicateModule d.name) else .ok (l.insert d.name d)

def of (ds : List Descriptor) : Except FinderError Library := ds.foldlM add ∅

/-- Adds a descriptor unless its name is taken. -/
def offer (l : Library) (d : Descriptor) : Library :=
  if d.name ∈ l then l else l.insert d.name d

end Library

end ModuleGraph
