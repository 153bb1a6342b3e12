import ModuleGraph.Finder.Library

/-! # What modules read

A module reads what it requires and what those modules read. In the order of their dependencies,
each module finds what the modules before it read; all others are looked up in the parent
configurations.
-/

namespace ModuleGraph

/-- What a module reads, given what the modules before it and those of parents read. A module does
not read itself. -/
def readsAfter (parentReads? : String → Option NameSet) (before : NameMap NameSet)
    (d : Descriptor) : NameSet :=
  let reads := d.requires.toList.foldl
    (fun reads n => reads.insert n ∪ ((before.get? n).or (parentReads? n)).getD ∅)
    (∅ : NameSet)
  reads.erase d.name

def readsInOrder (parentReads? : String → Option NameSet) (modules : Library)
    (order : List String) : NameMap NameSet :=
  order.foldl
    (fun before name => match modules.get? name with
      | some d => before.insert name (readsAfter parentReads? before d)
      | none => before)
    ∅

end ModuleGraph
