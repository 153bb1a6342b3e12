import ModuleGraph.Finder.Library

/-! # Faults in module graphs -/

namespace ModuleGraph

inductive ResolutionError where
  | moduleNotFound (name : String) (requiredBy : Option String)
  | duplicateModule (name : String)
  | namespaceConflict (package first second : String)
  /-- The modules of a cycle, the first one again at the end. -/
  | cycleDetected (path : List String)
  | unknownReadsEdge (source target : String)
  deriving DecidableEq

namespace ResolutionError

def message : ResolutionError → String
  | moduleNotFound n none => "Module " ++ n ++ " not found"
  | moduleNotFound n (some m) => "Module " ++ n ++ " not found, required by " ++ m
  | duplicateModule n => "Duplicate module: " ++ n
  | namespaceConflict p a b => "Package " ++ p ++ " is owned by both " ++ a ++ " and " ++ b
  | cycleDetected path => "Cycle detected: " ++ " -> ".intercalate path
  | unknownReadsEdge a b => "Cannot add reads edge " ++ a ++ " -> " ++ b ++ ": unknown module"

def ofFinder : FinderError → ResolutionError
  | .duplicateModule n => duplicateModule n

end ResolutionError
end ModuleGraph
