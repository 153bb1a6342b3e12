import ModuleGraph.Finder

/-! # Walking the requires

The walk looks up the roots and, breadth first, all that the modules it selects require. It goes on
past names that are missing or that a parent configuration has as well, so what it finds depends on
the set of roots only.
-/

namespace ModuleGraph

inductive Lookup where
  /-- A new module; `shadows` holds if a parent configuration has one of the same name. -/
  | found (d : Descriptor) (shadows : Bool)
  /-- A module of a parent configuration. -/
  | inherited
  | missing
  deriving DecidableEq

structure Walk where
  /-- Names to look up, each with the module that requires it. Roots have none. -/
  queue : List (String × Option String)
  /-- Names looked up, in this order. -/
  seen : List String
  selected : Library
  /-- Missing names with the module that required them first. -/
  missing : NameMap (Option String)
  /-- Selected names that a parent configuration has as well. -/
  shadowed : NameSet
  deriving DecidableEq

namespace Walk

def start (roots : NameSet) : Walk where
  queue := roots.toList.map fun r => (r, none)
  seen := []
  selected := ∅
  missing := ∅
  shadowed := ∅

/-- Looks up a name that was not seen before. -/
def visit (look : String → Lookup) (w : Walk) (name : String) (requiredBy : Option String) :
    Walk :=
  let w := { w with seen := w.seen ++ [name] }
  match look name with
  | .missing => { w with missing := w.missing.insert name requiredBy }
  | .inherited => w
  | .found d shadows =>
    { w with
      queue := w.queue ++
        (d.requires.toList.filter fun n => n ∉ w.seen).map fun n => (n, some name)
      selected := w.selected.insert name d
      shadowed := if shadows then w.shadowed.insert name else w.shadowed }

/-- Takes the first name off the queue. -/
def step (look : String → Lookup) (w : Walk) : Walk :=
  match w.queue with
  | [] => w
  | (name, requiredBy) :: queue =>
    let w := { w with queue }
    if name ∈ w.seen then w else visit look w name requiredBy

def run (look : String → Lookup) : Nat → Walk → Walk
  | 0, w => w
  | n + 1, w => if w.queue.isEmpty then w else run look n (step look w)

end Walk
end ModuleGraph
