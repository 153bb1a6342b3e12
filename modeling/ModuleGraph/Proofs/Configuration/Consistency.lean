import Mathlib.Algebra.GroupWithZero.Nat
import ModuleGraph.Proofs.Configuration.Requires

/-! # Consistency of configurations

The maps of a configuration fit each other: each module stands under its own name and has its
reads on record, the reads end in visible modules, and a package is on record for the one module
that owns it. Resolving makes all maps so, and deriving with further edges keeps them.
-/

namespace ModuleGraph.Configuration

variable {c c' o : Configuration} {a b n m p : String} {stamp : Nat}
  {edges : List (String × String)}

def Owns (c : Configuration) (n p : String) : Prop :=
  ∃ d, c.modules.get? n = some d ∧ d.owns p = true

structure Consistent (c : Configuration) : Prop where
  name : ∀ n d, c.modules.get? n = some d → d.name = n
  mem_reads : ∀ n, n ∈ c.reads ↔ n ∈ c.modules
  visible : ∀ a b, c.doesRead a b = true → c.isVisible b = true
  irreflexive : ∀ a, ¬ c.doesRead a a = true
  apart : ∀ n ∈ c.modules, ∀ q ∈ c.parents, ¬ q.isVisible n = true
  packages : ∀ p n, c.packages.get? p = some n ↔ c.Owns n p ∧ ∀ m, c.Owns m p → m = n
  packageOwner : ∀ p, (c.packageOwner? p).isSome = true ↔ ∃ o, c.StandsOn o ∧ p ∈ o.packages
  edgeCount : c.edgeCount = (c.modules.keys.map fun n => ((c.readsOf? n).getD ∅).size).sum

theorem Reachable.mem_reads (h : c.Reachable) (n : String) : n ∈ c.reads ↔ n ∈ c.modules := by
  induction h with
  | empty stamp => exact iff_of_false (NameMap.not_mem_empty n) (NameMap.not_mem_empty n)
  | resolve _ hc _ => exact (Resolver.resolves_of_outcome hc).mem_reads n
  | withEdges _ hc ih =>
    obtain ⟨he, rfl⟩ := withEdges_eq_ok_iff.1 hc
    rw [mem_foldl_addEdge_keys, ih]
    refine or_iff_left_of_imp ?_
    rintro ⟨e, hm, rfl, -⟩
    exact (he e hm).1

theorem Reachable.isVisible_of_doesRead (hc : c.Reachable) (h : c.doesRead a b = true) :
    c.isVisible b = true := by
  induction hc generalizing a b with
  | empty stamp => exact (not_isVisible_empty stamp (Configuration.isVisible_of_doesRead h)).elim
  | @resolve r stamp roots c _ ho ih =>
    have hs := Resolver.resolves_of_outcome ho
    induction a using hs.coherent.induction generalizing b with
    | inherited a ha =>
      obtain ⟨p, hp, -, he⟩ := exists_parent ha (Configuration.isVisible_of_doesRead h)
      rw [doesRead_congr he] at h
      exact isVisible_of_parent hp (ih p (hs.parents ▸ hp) h)
    | required a d hd ihr =>
      obtain ⟨-, k, hk, rfl | hb⟩ := (hs.doesRead_iff hd).1 h
      · exact hs.coherent.closed a d hd b hk
      · exact ihr k hk hb
  | withEdges _ hw ih =>
    rw [isVisible_withEdges hw]
    rcases (doesRead_withEdges hw).1 h with h | ⟨h, -⟩
    · exact ih h
    · exact ((withEdges_eq_ok_iff.1 hw).1 (a, b) h).2

theorem Reachable.not_doesRead_self (hc : c.Reachable) : ¬ c.doesRead a a = true := by
  induction hc generalizing a with
  | empty stamp => exact fun h => not_isVisible_empty stamp (Configuration.isVisible_of_doesRead h)
  | @resolve r stamp roots c _ ho ih =>
    intro h
    have hs := Resolver.resolves_of_outcome ho
    by_cases ha : a ∈ c.modules
    · obtain ⟨d, hd⟩ := NameMap.mem_iff_exists.1 ha
      exact ((hs.doesRead_iff hd).1 h).1 rfl
    · obtain ⟨p, hp, -, he⟩ := exists_parent ha (Configuration.isVisible_of_doesRead h)
      rw [doesRead_congr he] at h
      exact ih p (hs.parents ▸ hp) h
  | withEdges _ hw ih =>
    intro h
    rcases (doesRead_withEdges hw).1 h with h | ⟨-, hne⟩
    · exact ih h
    · exact hne rfl

theorem Reachable.not_conflict (h : c.Reachable) (p n m : String) :
    ¬ c.modules.Conflict p n m := by
  induction h with
  | empty stamp =>
    rintro ⟨-, d, -, hd, -⟩
    exact NameMap.not_mem_empty n (NameMap.mem_of_get? hd)
  | resolve _ ho _ => exact (Resolver.resolves_of_outcome ho).not_conflict p n m
  | withEdges _ hw ih => rwa [modules_of_withEdges hw]

theorem Reachable.packages_eq (h : c.Reachable) : c.packages = indexPackages c.modules := by
  induction h with
  | empty stamp => rfl
  | resolve _ ho _ => exact Resolver.packages_of_outcome ho
  | withEdges _ hw ih =>
    obtain ⟨-, rfl⟩ := withEdges_eq_ok_iff.1 hw
    exact ih

theorem Reachable.get?_packages_iff (h : c.Reachable) :
    c.packages.get? p = some n ↔ c.Owns n p := by
  rw [h.packages_eq, get?_indexPackages_iff h.coherent.name h.not_conflict, Owns]

theorem Reachable.eq_of_owns (h : c.Reachable) (hn : c.Owns n p) (hm : c.Owns m p) : m = n := by
  by_contra hne
  obtain ⟨d, hd, hdp⟩ := hn
  obtain ⟨e, he, hep⟩ := hm
  exact h.not_conflict p m n ⟨hne, e, d, he, hd, hep, hdp⟩

/-- A search for the owner of a package ends at a module, since every owner on record is one. -/
theorem Reachable.isSome_packageOwner?_iff (h : c.Reachable) (p : String) :
    (c.packageOwner? p).isSome = true ↔ ∃ o, c.StandsOn o ∧ p ∈ o.packages := by
  -- The search stops at the first record of the package; it must not lack its module there.
  have hs : (c.search fun c => (c.packages.get? p).map fun n => c.modules.get? n).isSome = true ↔
      ∃ o, c.StandsOn o ∧ p ∈ o.packages := by
    simp only [isSome_search_iff, Option.isSome_map, NameMap.mem_iff]
  rw [← hs, packageOwner?]
  cases hf : c.search fun c => (c.packages.get? p).map fun n => c.modules.get? n with
  | none => rfl
  | some x =>
    obtain ⟨o, ho, hx⟩ := exists_of_search hf
    obtain ⟨n, hn, rfl⟩ := Option.map_eq_some_iff.1 hx
    obtain ⟨d, hd, -⟩ := (h.standsOn ho).get?_packages_iff.1 hn
    simp [hd]

theorem Reachable.edgeCount_eq (h : c.Reachable) :
    c.edgeCount = (c.modules.keys.map fun n => ((c.readsOf? n).getD ∅).size).sum := by
  have hv : c.reads.values.map NameMap.size =
      c.reads.keys.map fun n => ((c.readsOf? n).getD ∅).size := by
    refine NameMap.map_values _ _ c.reads fun n s hs => ?_
    have hn := (h.mem_reads n).1 (NameMap.mem_of_get? hs)
    rw [readsOf?, ownerOf?_local hn, Option.map_some, hs, Option.getD_some, Option.getD_some]
  rw [edgeCount, ← NameMap.keys_congr h.mem_reads, ← hv, List.sum, List.foldr_map]

/-- Every configuration that can be made is consistent. -/
theorem consistent_of_reachable (h : c.Reachable) : c.Consistent where
  name := h.coherent.name
  mem_reads := h.mem_reads
  visible := fun _ _ => h.isVisible_of_doesRead
  irreflexive := fun _ => h.not_doesRead_self
  apart := h.coherent.apart
  packages := by
    intro p n
    rw [h.get?_packages_iff]
    exact ⟨fun hn => ⟨hn, fun m hm => h.eq_of_owns hn hm⟩, And.left⟩
  packageOwner := h.isSome_packageOwner?_iff
  edgeCount := h.edgeCount_eq

theorem consistent_app : app.Reachable ∧ app.Consistent ∧
    app.packages.get? "app.main" = some "app" ∧ app.edgeCount = 1 := by
  have hr := stacked_app.reachable
  exact ⟨hr, consistent_of_reachable hr, by decide, by decide⟩

end ModuleGraph.Configuration
