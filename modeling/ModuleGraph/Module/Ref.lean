/-! # References to modules

A module is referred to by its name or, if it has none, by its number.
-/

namespace ModuleGraph

inductive ModuleRef where
  | named (name : String)
  | unnamed (number : Nat)
  deriving DecidableEq

structure UnnamedModule where
  number : Nat
  loader : Option String
  deriving DecidableEq

def UnnamedModule.ref (m : UnnamedModule) : ModuleRef := .unnamed m.number

namespace ModuleRef

def name? : ModuleRef → Option String
  | named n => some n
  | unnamed _ => none

def isUnnamed (r : ModuleRef) : Bool := r.name?.isNone

def text : ModuleRef → String
  | named n => "module " ++ n
  | unnamed k => "unnamed module #" ++ toString k

/-- Names come before numbers; names go by code points and numbers by size. -/
def precedes : ModuleRef → ModuleRef → Bool
  | named a, named b => a < b
  | named _, unnamed _ => true
  | unnamed _, named _ => false
  | unnamed i, unnamed j => i < j

/-- Places a reference in an ascending list that may have it. -/
def place (r : ModuleRef) : List ModuleRef → List ModuleRef
  | [] => [r]
  | s :: rest =>
    if r = s then s :: rest
    else if r.precedes s then r :: s :: rest
    else s :: place r rest

def sortUnique (refs : List ModuleRef) : List ModuleRef := refs.foldr place []

end ModuleRef
end ModuleGraph
