import ModuleGraph.Finder.Library

/-! # Configurations

A configuration holds the modules of one resolution with the modules that each of them reads. It
stands on parent configurations; what is not found in it is looked for in its parents, in order and
to their depths. A stamp tells apart configurations with the same content.
-/

namespace ModuleGraph

structure Configuration where
  stamp : Nat
  parents : List Configuration
  modules : Library
  /-- The modules that each module reads. -/
  reads : NameMap NameSet
  /-- The module that owns each package. -/
  packages : NameMap String

namespace Configuration

mutual

def decEq : (a b : Configuration) → Decidable (a = b)
  | ⟨s, ps, ms, rs, pks⟩, ⟨s', ps', ms', rs', pks'⟩ =>
    if h : s = s' ∧ ms = ms' ∧ rs = rs' ∧ pks = pks' then
      match decEqAll ps ps' with
      | isTrue hp => isTrue (by obtain ⟨rfl, rfl, rfl, rfl⟩ := h; rw [hp])
      | isFalse hp => isFalse (by rintro ⟨⟩; exact hp rfl)
    else isFalse (by rintro ⟨⟩; exact h ⟨rfl, rfl, rfl, rfl⟩)

def decEqAll : (as bs : List Configuration) → Decidable (as = bs)
  | [], [] => isTrue rfl
  | [], _ :: _ => isFalse nofun
  | _ :: _, [] => isFalse nofun
  | a :: as, b :: bs =>
    match withPtrEqDecEq a b (fun _ => decEq a b), decEqAll as bs with
    | isTrue h, isTrue hs => isTrue (by rw [h, hs])
    | isFalse h, _ => isFalse (by rintro ⟨⟩; exact h rfl)
    | _, isFalse hs => isFalse (by rintro ⟨⟩; exact hs rfl)

end

/-- One object is equal to itself without a look inside, since parents that many configurations
share would be compared once for every path that leads to them. -/
instance : DecidableEq Configuration := fun a b => withPtrEqDecEq a b fun _ => decEq a b

def empty (stamp : Nat) : Configuration := ⟨stamp, [], ∅, ∅, ∅⟩

instance : Inhabited Configuration := ⟨empty 0⟩

mutual

/-- The first answer to a question about single configurations, from this one on. -/
def search {α : Type} (f : Configuration → Option α) : Configuration → Option α
  | ⟨stamp, parents, modules, reads, packages⟩ =>
    (f ⟨stamp, parents, modules, reads, packages⟩).or (searchAll f parents)

def searchAll {α : Type} (f : Configuration → Option α) : List Configuration → Option α
  | [] => none
  | c :: cs => (search f c).or (searchAll f cs)

end

theorem search_eq {α : Type} (f : Configuration → Option α) (c : Configuration) :
    c.search f = (f c).or (searchAll f c.parents) := by
  cases c; rfl

theorem searchAll_eq_findSome? {α : Type} (f : Configuration → Option α) :
    ∀ cs : List Configuration, searchAll f cs = cs.findSome? (search f)
  | [] => rfl
  | c :: cs => by
    rw [searchAll, searchAll_eq_findSome? f cs, List.findSome?_cons]
    cases search f c <;> rfl

/-- What holds of a configuration if it holds of its parents holds of all configurations. -/
theorem induction {p : Configuration → Prop}
    (step : ∀ c : Configuration, (∀ q ∈ c.parents, p q) → p c) (c : Configuration) : p c :=
  step c fun q _ => induction step q
termination_by sizeOf c
decreasing_by
  have := List.sizeOf_lt_of_mem ‹q ∈ c.parents›
  cases c
  simp only [mk.sizeOf_spec] at this ⊢
  omega

def size (c : Configuration) : Nat := c.modules.size

def isLocal (c : Configuration) (name : String) : Bool := c.modules.contains name

/-- The configuration that resolved a module. -/
def ownerOf? (name : String) (c : Configuration) : Option Configuration :=
  c.search fun c => if c.isLocal name then some c else none

def find? (name : String) (c : Configuration) : Option Descriptor :=
  c.search fun c => c.modules.get? name

/-- Whether a name has a module here or in a parent. -/
def isVisible (c : Configuration) (name : String) : Bool := (c.find? name).isSome

/-- The modules that a module reads, in the configuration that resolved it. -/
def readsOf? (name : String) (c : Configuration) : Option NameSet :=
  (c.ownerOf? name).map fun owner => (owner.reads.get? name).getD ∅

def doesRead (c : Configuration) (source target : String) : Bool :=
  (c.readsOf? source).any fun reads => reads.contains target

/-- The module that owns a package. The first configuration with an owner on record decides, also
one that is a parent and does not have the module. No configuration that was resolved has such a
record, so it makes no difference that the search could go on to the next parent there. -/
def packageOwner? (package : String) (c : Configuration) : Option Descriptor :=
  (c.search fun c => (c.packages.get? package).map fun owner => c.modules.get? owner).join

/-- The number of pairs of a module and one it reads. -/
def edgeCount (c : Configuration) : Nat := c.reads.values.foldr (fun reads n => reads.size + n) 0

def indexPackages (modules : Library) : NameMap String :=
  modules.values.foldl
    (fun index d => d.packages.toList.foldl (fun index p => index.insert p d.name) index) ∅

def line (c : Configuration) (name : String) : String :=
  let reads := (c.reads.get? name).getD ∅
  if reads.isEmpty then name ++ "\n"
  else name ++ " -> " ++ ", ".intercalate reads.toList ++ "\n"

def text (c : Configuration) : String := String.join (c.modules.keys.map c.line)

end Configuration
end ModuleGraph
