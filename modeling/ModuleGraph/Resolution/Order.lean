import ModuleGraph.Resolution.Error

/-! # Dependencies before dependents

A depth-first search over the requires among modules lists each module after those it requires, or
finds a cycle. What the modules require beyond themselves does not count.
-/

namespace ModuleGraph

namespace Order

structure Search where
  /-- Modules come to, finished or not. -/
  visited : NameSet := ∅
  /-- Modules come to and not finished. -/
  pending : NameSet := ∅
  /-- The way to the module at hand, each module on it requiring the next. -/
  path : List String := []
  /-- Modules finished, each after all that it requires. -/
  order : List String := []

def Search.enter (s : Search) (name : String) : Search :=
  { s with
    visited := s.visited.insert name
    pending := s.pending.insert name
    path := s.path ++ [name] }

def Search.leave (s : Search) (name : String) : Search :=
  { s with
    pending := s.pending.erase name
    path := s.path.dropLast
    order := s.order ++ [name] }

/-- The path from a module on, with the module again at its end. A module that is not on the path
counts as one at the position `absent`. -/
def Search.cycle (absent : Nat) (s : Search) (name : String) : List String :=
  s.path.drop ((s.path.idxOf? name).getD absent) ++ [name]

/-- Lists a module after all it requires. Paths do not repeat modules, so a depth of as many
modules as there are is never used up. -/
def visit (absent : Nat) (modules : Library) :
    (depth : Nat) → Search → String → Except ResolutionError Search
  | 0, s, _ => .ok s
  | depth + 1, s, name => do
    let required := ((modules.get? name).map (·.requires.toList)).getD []
    let s ← required.foldlM
      (fun s n =>
        if n ∉ modules then .ok s
        else if n ∈ s.pending then .error (.cycleDetected (s.cycle absent n))
        else if n ∈ s.visited then .ok s
        else visit absent modules depth s n)
      (s.enter name)
    return s.leave name

def search (absent : Nat) (modules : Library) : Except ResolutionError Search :=
  modules.keys.foldlM
    (fun s n => if n ∈ s.visited then .ok s else visit absent modules modules.size s n) {}

end Order

/-- The names of modules, dependencies before dependents. -/
def dependencyOrder (modules : Library) : Except ResolutionError (List String) :=
  (Order.search 0 modules).map (·.order)

end ModuleGraph
