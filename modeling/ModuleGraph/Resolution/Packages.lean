import ModuleGraph.Resolution.Error

/-! # Owners of packages

No two modules of one configuration own a package together. A module may own a package that one of
a parent configuration owns; such overlaps are reported.
-/

namespace ModuleGraph

structure Overlap where
  package : String
  owner : String
  parentOwner : String
  deriving DecidableEq

/-- The packages of modules with their owners: modules by name, packages in order. -/
def ownerships (modules : Library) : List (String × String) :=
  modules.values.flatMap fun d => d.packages.toList.map fun p => (d.name, p)

/-- Goes through ownerships, given the owners so far, up to the first package with two owners. -/
def checkOwnerships (parentOwner? : String → Option String) :
    (owners : NameMap String) → List (String × String) → List Overlap × Option ResolutionError
  | _, [] => ([], none)
  | owners, (owner, package) :: rest =>
    match owners.get? package with
    | some first => ([], some (.namespaceConflict package first owner))
    | none =>
      let (overlaps, conflict) := checkOwnerships parentOwner? (owners.insert package owner) rest
      match parentOwner? package with
      | some parentOwner => (⟨package, owner, parentOwner⟩ :: overlaps, conflict)
      | none => (overlaps, conflict)

/-- The overlaps of modules with parent configurations, and the conflict among the modules that
ends the search for overlaps. -/
def checkPackages (parentOwner? : String → Option String) (modules : Library) :
    List Overlap × Option ResolutionError :=
  checkOwnerships parentOwner? ∅ (ownerships modules)

end ModuleGraph
