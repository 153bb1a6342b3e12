import ModuleGraph.Configuration

/-! # Layers

A layer binds the modules of a configuration to loaders. It may stand on a parent layer, where it
looks up what it does not have itself.
-/

namespace ModuleGraph

inductive LayerError where
  | parentMismatch
  | bootAlreadyInitialized
  deriving DecidableEq

def LayerError.message : LayerError → String
  | parentMismatch => "Parent layer configuration is not a parent of the layer configuration"
  | bootAlreadyInitialized => "Boot layer is already initialized"

/-- A configuration with loaders of its own modules. A module may have none. -/
structure Frame where
  configuration : Configuration
  loaders : NameMap String
  deriving DecidableEq

/-- A layer: its own frame, and those of its parents from the nearest on. -/
structure Layer where
  top : Frame
  below : List Frame
  deriving DecidableEq

namespace Layer

def empty (stamp : Nat) : Layer := ⟨⟨.empty stamp, ∅⟩, []⟩

def configuration (l : Layer) : Configuration := l.top.configuration

def parent? (l : Layer) : Option Layer :=
  match l.below with
  | [] => none
  | f :: fs => some ⟨f, fs⟩

def frames (l : Layer) : List Frame := l.top :: l.below

/-- Whether a configuration may have a layer on top of another: it stands on the configuration of
that layer, or that layer has no modules of its own. -/
def fits (c : Configuration) (parent : Layer) : Bool :=
  parent.configuration ∈ c.parents || parent.configuration.modules.isEmpty

/-- Asks for the loader of each name, in order. -/
def bindAll {σ : Type} (bind : String → StateM σ (Option String)) :
    List String → StateM σ (List (String × Option String))
  | [] => return []
  | name :: names => do
    let answer ← bind name
    return (name, answer) :: (← bindAll bind names)

def loadersOf (answers : List (String × Option String)) : NameMap String :=
  .ofList (answers.filterMap fun (name, answer) => answer.map fun loader => (name, loader))

/-- Makes a layer for a configuration. Unless the parent does not fit, `bind` is asked once for
each module of the configuration itself, in the order of names. -/
def create {σ : Type} (c : Configuration) (parent : Option Layer)
    (bind : String → StateM σ (Option String)) : StateM σ (Except LayerError Layer) := do
  if parent.all (fits c) then
    let answers ← bindAll bind c.modules.keys
    return .ok ⟨⟨c, loadersOf answers⟩, (parent.map frames).getD []⟩
  else return .error .parentMismatch

/-- The loader of a module, from the nearest layer where it has one. -/
def findLoader? (name : String) (l : Layer) : Option String :=
  l.frames.findSome? fun f => f.loaders.get? name

def find? (name : String) (l : Layer) : Option Descriptor :=
  l.frames.findSome? fun f => f.configuration.modules.get? name

end Layer
end ModuleGraph
