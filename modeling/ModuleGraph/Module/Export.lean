import ModuleGraph.NameMap

/-! # Exports

An exported package is open to every reader of its module, or only to the modules it names.
-/

namespace ModuleGraph

inductive Export where
  /-- To every module. -/
  | unqualified
  /-- To the modules named. -/
  | qualified (targets : NameSet)
  deriving DecidableEq

namespace Export

def admits : Export → String → Bool
  | unqualified, _ => true
  | qualified targets, name => targets.contains name

def targets? : Export → Option NameSet
  | unqualified => none
  | qualified targets => some targets

def isQualified (e : Export) : Bool := e.targets?.isSome

end Export
end ModuleGraph
