import ModuleGraph.Configuration
import ModuleGraph.Resolution.Error

/-! # Further reads

A configuration can be derived that reads more than the requires of its modules tell. What the
modules read through others stays as it was.
-/

namespace ModuleGraph

namespace Configuration

/-- Adds a pair of a module and one it reads; a module does not come to read itself. -/
def addEdge (reads : NameMap NameSet) (source target : String) : NameMap NameSet :=
  if source = target then reads
  else reads.insert source (((reads.get? source).getD ∅).insert target)

/-- A configuration that reads more. Each edge starts in a module of the configuration itself and
ends in one visible from it. -/
def withEdges (c : Configuration) (stamp : Nat) (edges : List (String × String)) :
    Except ResolutionError Configuration := do
  let reads ← edges.foldlM
    (fun reads (source, target) =>
      if c.isLocal source ∧ c.isVisible target then .ok (addEdge reads source target)
      else .error (.unknownReadsEdge source target))
    c.reads
  return { c with stamp, reads }

end Configuration

end ModuleGraph
