import ModuleGraph.Configuration
import ModuleGraph.Resolution.Walk
import ModuleGraph.Resolution.Packages
import ModuleGraph.Resolution.Order
import ModuleGraph.Resolution.Reads

/-! # Resolution

A resolver makes a configuration of the modules that its roots reach. Its finder comes before the
parent configurations, its second finder after them. Every module reads what it requires, directly
and through other modules.
-/

namespace ModuleGraph

structure Resolver where
  finder : Finder
  /-- Answers the names that neither the finder nor a parent has. -/
  afterFinder : Finder := .empty
  parents : List Configuration := []

/-- What resolving gives: a configuration or an error, and the overlaps found on the way. -/
structure Resolution where
  overlaps : List Overlap
  outcome : Except ResolutionError Configuration

namespace Resolver

/-- The answer of a finder to a name, if it carries that name. -/
def answer? (f : Finder) (name : String) : Option Descriptor :=
  (f.find name).filter fun d => d.name = name

def look (r : Resolver) (name : String) : Lookup :=
  let isInherited := r.parents.any (·.isVisible name)
  match answer? r.finder name with
  | some d => .found d isInherited
  | none =>
    if isInherited then .inherited
    else match answer? r.afterFinder name with
      | some d => .found d false
      | none => .missing

/-- How many names a walk can take off its queue: the roots, and what each module on offer requires
once. -/
def walkBound (r : Resolver) (roots : NameSet) : Nat :=
  roots.size + r.finder.load + r.afterFinder.load

def walk (r : Resolver) (roots : NameSet) : Walk :=
  (Walk.start roots).run r.look (r.walkBound roots)

/-- The modules that the roots reach. The least missing name comes before the least shadowed
one. -/
def select (r : Resolver) (roots : NameSet) : Except ResolutionError Library :=
  let w := r.walk roots
  match w.missing.entries, w.shadowed.toList with
  | (name, requiredBy) :: _, _ => .error (.moduleNotFound name requiredBy)
  | [], name :: _ => .error (.duplicateModule name)
  | [], [] => .ok w.selected

def parentOwner? (r : Resolver) (package : String) : Option String :=
  (r.parents.findSome? (·.packageOwner? package)).map (·.name)

def parentReads? (r : Resolver) (name : String) : Option NameSet :=
  r.parents.findSome? (·.readsOf? name)

def configure (r : Resolver) (stamp : Nat) (modules : Library) (order : List String) :
    Configuration where
  stamp := stamp
  parents := r.parents
  modules := modules
  reads := readsInOrder r.parentReads? modules order
  packages := Configuration.indexPackages modules

/-- Resolves roots to a configuration with a stamp. Of several errors, one in the walk comes before
one in the packages, and that before a cycle. -/
def resolve (r : Resolver) (stamp : Nat) (roots : List String) : Resolution :=
  match r.select (.ofList roots) with
  | .error e => ⟨[], .error e⟩
  | .ok modules =>
    match checkPackages r.parentOwner? modules with
    | (overlaps, some e) => ⟨overlaps, .error e⟩
    | (overlaps, none) => ⟨overlaps, (dependencyOrder modules).map (r.configure stamp modules)⟩

end Resolver

end ModuleGraph
