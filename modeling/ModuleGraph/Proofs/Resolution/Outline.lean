import ModuleGraph.Proofs.Resolution.Outcome

/-! # Outlines

The outline of a descriptor keeps its name, its requires and the packages it owns, all of them
concealed. Every phase of resolving comes to the same for modules and for their outlines: walking
commutes with taking them, and owners, order and reads are found from them alone.
-/

namespace ModuleGraph

namespace Descriptor

/-- The descriptor with all its packages concealed. -/
def outline (d : Descriptor) : Descriptor :=
  { d with exports := ∅, concealed := d.packages }

/-- Descriptors that differ at most in how they export the packages they own. -/
structure Alike (d e : Descriptor) : Prop where
  name : d.name = e.name
  requires : d.requires = e.requires
  owns : ∀ p, d.owns p = e.owns p

variable {d e : Descriptor}

@[simp] theorem name_outline (d : Descriptor) : d.outline.name = d.name := rfl

@[simp] theorem requires_outline (d : Descriptor) : d.outline.requires = d.requires := rfl

@[simp] theorem packages_outline (d : Descriptor) : d.outline.packages = d.packages := by
  apply NameSet.ext
  intro p
  simp [packages, outline, NameMap.mem_union]

theorem Alike.outline_eq (h : d.Alike e) : d.outline = e.outline := by
  have hp : d.packages = e.packages := by
    apply NameSet.ext
    intro p
    rw [mem_packages, mem_packages, h.owns p]
  rw [outline, outline, h.name, h.requires, hp]

theorem alike_outline (d : Descriptor) : d.Alike d.outline where
  name := rfl
  requires := rfl
  owns := by
    intro p
    rw [Bool.eq_iff_iff, ← mem_packages, ← mem_packages, packages_outline]

end Descriptor

/-- Finders that answer the same names, with descriptors that differ at most in their exports. -/
def Finder.Alike (f g : Finder) : Prop := ∀ n, Option.Rel Descriptor.Alike (f.find n) (g.find n)

def Library.outline (modules : Library) : Library := modules.mapValues fun _ d => d.outline

def Lookup.outline : Lookup → Lookup
  | found d shadows => found d.outline shadows
  | inherited => inherited
  | missing => missing

def Walk.outline (w : Walk) : Walk := { w with selected := w.selected.outline }

namespace Library

variable {modules : Library} {n : String}

@[simp] theorem get?_outline (modules : Library) (n : String) :
    modules.outline.get? n = (modules.get? n).map Descriptor.outline :=
  NameMap.get?_mapValues ..

@[simp] theorem keys_outline (modules : Library) : modules.outline.keys = modules.keys :=
  NameMap.keys_mapValues ..

@[simp] theorem mem_outline : n ∈ modules.outline ↔ n ∈ modules := by
  rw [← NameMap.mem_keys, keys_outline, NameMap.mem_keys]

@[simp] theorem values_outline (modules : Library) :
    modules.outline.values = modules.values.map Descriptor.outline :=
  NameMap.values_mapValues ..

theorem outline_insert (modules : Library) (n : String) (d : Descriptor) :
    outline (modules.insert n d) = modules.outline.insert n d.outline :=
  NameMap.mapValues_insert ..

end Library

theorem Finder.alike_outline (modules : Library) :
    (library modules).Alike (library modules.outline) := by
  intro n
  rw [find, find, Library.get?_outline]
  cases modules.get? n with
  | none => exact .none
  | some d => exact .some d.alike_outline

namespace Walk

variable {look look' : String → Lookup} {w : Walk} {n : String} {r? : Option String}

theorem outline_visit : (visit look w n r?).outline =
    visit (fun n => (look n).outline) w.outline n r? := by
  unfold visit
  cases hl : look n with
  | missing => simp only [hl, Lookup.outline]; rfl
  | inherited => simp only [hl, Lookup.outline]; rfl
  | found d shadows => simp only [hl, outline, Lookup.outline, Library.outline_insert]; rfl

theorem outline_step : (step look w).outline = step (fun n => (look n).outline) w.outline := by
  cases hq : w.queue with
  | nil => simp [step, outline, hq]
  | cons e q =>
    by_cases hn : e.1 ∈ w.seen
    · rw [step_of_seen hq hn, step_of_seen (w := w.outline) hq hn]
      rfl
    · rw [step_of_unseen hq hn, step_of_unseen (w := w.outline) hq hn, outline_visit]
      rfl

theorem outline_run (l : Nat) :
    (run look l w).outline = run (fun n => (look n).outline) l w.outline := by
  induction l generalizing w with
  | zero => rfl
  | succ l ih =>
    rw [run, run, apply_ite outline, ih, outline_step]
    rfl

theorem outline_selection (w : Walk) : w.selection.map Library.outline = w.outline.selection := by
  unfold selection
  dsimp only [outline]
  split <;> rfl

end Walk

theorem ownerships_outline (modules : Library) :
    ownerships modules.outline = ownerships modules := by
  simp [ownerships, List.flatMap_map]

theorem indexPackages_outline (modules : Library) :
    Configuration.indexPackages modules.outline = Configuration.indexPackages modules := by
  simp [Configuration.indexPackages, List.foldl_map]

theorem readsInOrder_outline (parentReads? : String → Option NameSet) (modules : Library)
    (order : List String) :
    readsInOrder parentReads? modules.outline order = readsInOrder parentReads? modules order := by
  unfold readsInOrder
  congr 1
  funext before n
  rw [Library.get?_outline]
  cases modules.get? n <;> rfl

theorem Order.visit_outline (absent : Nat) (modules : Library) (depth : Nat) (s : Search)
    (n : String) :
    visit absent modules.outline depth s n = visit absent modules depth s n := by
  induction depth generalizing s n with
  | zero => rfl
  | succ depth ih =>
    have hr : (modules.outline.get? n).map (·.requires.toList) =
        (modules.get? n).map (·.requires.toList) := by
      rw [Library.get?_outline, Option.map_map]
      rfl
    simp only [visit, hr, Library.mem_outline, ih]

theorem dependencyOrder_outline (modules : Library) :
    dependencyOrder modules.outline = dependencyOrder modules := by
  simp only [dependencyOrder, Order.search, Order.visit_outline, Library.keys_outline,
    ← NameMap.length_keys]

theorem checkPackages_outline (parentOwner? : String → Option String) (modules : Library) :
    checkPackages parentOwner? modules.outline = checkPackages parentOwner? modules := by
  rw [checkPackages, ownerships_outline, checkPackages]

def Configuration.outline (c : Configuration) : Configuration :=
  { c with stamp := 0, modules := c.modules.outline }

def Resolution.outline (r : Resolution) : Resolution :=
  { r with outcome := r.outcome.map Configuration.outline }

namespace Resolver

theorem outline_configure (r : Resolver) (stamp : Nat) (modules : Library)
    (order : List String) :
    (r.configure stamp modules order).outline = r.configure 0 modules.outline order := by
  unfold configure Configuration.outline
  rw [readsInOrder_outline, indexPackages_outline]

theorem outline_settle (parents : List Configuration) (stamp : Nat)
    (selection : Except ResolutionError Library) :
    (settle parents stamp selection).outline =
      settle parents 0 (selection.map Library.outline) := by
  cases selection with
  | error e => rfl
  | ok modules =>
    dsimp only [settle, Except.map]
    rw [checkPackages_outline, dependencyOrder_outline]
    split
    · rfl
    · unfold Resolution.outline
      dsimp only
      cases dependencyOrder modules with
      | error e => rfl
      | ok order =>
        dsimp only [Except.map]
        rw [outline_configure]

end Resolver
end ModuleGraph
