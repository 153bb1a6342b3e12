import ModuleGraph.Access
import ModuleGraph.Module.Name

/-! # Checkers

A checker keeps the verdicts on packages that their target owns, so the verdicts kept are bounded
by the modules and packages of its configuration and the requesters.
-/

namespace ModuleGraph

structure AccessQuery where
  requester : ModuleRef
  target : ModuleRef
  package : String
  deriving DecidableEq

/-- A configuration with the verdicts given before. -/
structure Checker where
  configuration : Configuration
  verdicts : List (AccessQuery × Access) := []

namespace Checker

/-- Whether the target of a query owns its package. -/
def isOwned (c : Configuration) (q : AccessQuery) : Bool :=
  (q.target.name?.bind c.find?).any fun d => d.owns q.package

/-- Decides a query, from a verdict kept if there is one. -/
def check (k : Checker) (q : AccessQuery) : Access × Checker :=
  match k.verdicts.lookup q with
  | some a => (a, k)
  | none =>
    let a := Access.check k.configuration q.requester q.target q.package
    (a, if isOwned k.configuration q then { k with verdicts := (q, a) :: k.verdicts } else k)

/-- Decides whether a requester may access a type, by the package of its name. -/
def checkType (k : Checker) (requester target : ModuleRef) (typeName : String) :
    Access × Checker :=
  k.check ⟨requester, target, packageOf typeName⟩

def size (k : Checker) : Nat := k.verdicts.length

end Checker
end ModuleGraph
