import ModuleGraph.Layer
import ModuleGraph.Module.Ref

/-! # Boot

One boot layer is published at most once. Whoever asks for it before finds the empty layer, and
from then on that is the boot layer. Modules without a name are numbered from one on as they are
made, with numbers of 64 bits; the one of the boot loader is made when it is first asked for.
-/

namespace ModuleGraph

structure Boot where
  /-- The number of the next unnamed module. -/
  next : UInt64 := 1
  /-- The unnamed module of the boot loader. -/
  unnamed? : Option UnnamedModule := none
  /-- The boot layer. -/
  layer? : Option Layer := none
  deriving DecidableEq

namespace Boot

def newUnnamed (b : Boot) (loader : Option String) : UnnamedModule × Boot :=
  (⟨b.next.toNat, loader⟩, { b with next := b.next + 1 })

def unnamed (b : Boot) : UnnamedModule × Boot :=
  match b.unnamed? with
  | some m => (m, b)
  | none =>
    let (m, b) := b.newUnnamed none
    (m, { b with unnamed? := some m })

def publish (b : Boot) (l : Layer) : Except LayerError Layer × Boot :=
  match b.layer? with
  | some _ => (.error .bootAlreadyInitialized, b)
  | none => (.ok l, { b with layer? := some l })

/-- The boot layer, given the empty layer to settle on if none is published. -/
def layer (b : Boot) (emptyLayer : Layer) : Layer × Boot :=
  match b.layer? with
  | some l => (l, b)
  | none => (emptyLayer, { b with layer? := some emptyLayer })

def isInitialized (b : Boot) : Bool := b.layer?.isSome

end Boot
end ModuleGraph
