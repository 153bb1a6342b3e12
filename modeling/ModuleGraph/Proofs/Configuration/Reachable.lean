import ModuleGraph.Proofs.Configuration.Edges
import ModuleGraph.Proofs.Configuration.Lookup
import ModuleGraph.Proofs.Resolution.Outcome

/-! # Configurations that can be made

Configurations are made from empty ones by resolving on parents made before and by deriving with
further edges. All that are made so are coherent: their modules carry their names, take none from
a parent, require only visible modules and have an order.
-/

namespace ModuleGraph

open Relation

namespace Configuration

/-- Made by resolving, step by step from empty configurations on. -/
inductive Resolved : Configuration → Prop
  | empty (stamp : Nat) : Resolved (empty stamp)
  | resolve {r : Resolver} {stamp : Nat} {roots : List String} {c : Configuration} :
      (∀ p ∈ r.parents, Resolved p) → (r.resolve stamp roots).outcome = .ok c → Resolved c

/-- Made by resolving and by deriving with further edges, in any order. -/
inductive Reachable : Configuration → Prop
  | empty (stamp : Nat) : Reachable (empty stamp)
  | resolve {r : Resolver} {stamp : Nat} {roots : List String} {c : Configuration} :
      (∀ p ∈ r.parents, Reachable p) → (r.resolve stamp roots).outcome = .ok c → Reachable c
  | withEdges {stamp : Nat} {edges : List (String × String)} {c c' : Configuration} :
      Reachable c → c.withEdges stamp edges = .ok c' → Reachable c'

/-- Made by resolving on one parent at most each time. -/
inductive Stacked : Configuration → Prop
  | empty (stamp : Nat) : Stacked (empty stamp)
  | resolve {r : Resolver} {stamp : Nat} {roots : List String} {c : Configuration} :
      r.parents.length ≤ 1 → (∀ p ∈ r.parents, Stacked p) →
      (r.resolve stamp roots).outcome = .ok c → Stacked c

structure Coherent (c : Configuration) : Prop where
  name : ∀ n d, c.modules.get? n = some d → d.name = n
  apart : ∀ n ∈ c.modules, ∀ p ∈ c.parents, ¬ p.isVisible n = true
  closed : ∀ n d, c.modules.get? n = some d → ∀ m ∈ d.requires, c.isVisible m = true
  ordered : ∃ order, Order.Legal c.modules order ∧ ∀ n, n ∈ order ↔ n ∈ c.modules

variable {c o p q : Configuration} {n m : String} {stamp : Nat}

theorem Stacked.resolved (h : c.Stacked) : c.Resolved := by
  induction h with
  | empty stamp => exact .empty stamp
  | resolve _ _ hc ih => exact .resolve ih hc

theorem Resolved.reachable (h : c.Resolved) : c.Reachable := by
  induction h with
  | empty stamp => exact .empty stamp
  | resolve _ hc ih => exact .resolve ih hc

theorem not_isVisible_empty (stamp : Nat) : ¬ (empty stamp).isVisible n = true := by
  intro h
  obtain ⟨p, hp, -⟩ := exists_parent (NameMap.not_mem_empty n) h
  cases hp

theorem Stacked.reachable (h : c.Stacked) : c.Reachable := h.resolved.reachable

theorem coherent_empty (stamp : Nat) : (empty stamp).Coherent where
  name := fun _ _ h => absurd (NameMap.mem_of_get? h) (NameMap.not_mem_empty _)
  apart := fun _ h => absurd h (NameMap.not_mem_empty _)
  closed := fun _ _ h => absurd (NameMap.mem_of_get? h) (NameMap.not_mem_empty _)
  ordered := ⟨[], .nil, fun n => iff_of_false List.not_mem_nil (NameMap.not_mem_empty n)⟩

/-- The modules and parents of a configuration decide whether it is coherent. -/
theorem Coherent.congr (h : c.Coherent) (hp : q.parents = c.parents)
    (hm : q.modules = c.modules) : q.Coherent where
  name := hm ▸ h.name
  apart := by rw [hm, hp]; exact h.apart
  closed := by
    intro n d hd m hr
    rw [hm] at hd
    by_cases hl : m ∈ q.modules
    · exact isVisible_of_mem hl
    · obtain ⟨p, hpc, hv, -⟩ := exists_parent (hm ▸ hl) (h.closed n d hd m hr)
      exact isVisible_of_parent (hp ▸ hpc) hv
  ordered := hm ▸ h.ordered

/-- What holds of all names without a module and of a module if it holds of all that it requires
holds of every name. -/
theorem Coherent.induction {P : String → Prop} (h : c.Coherent)
    (inherited : ∀ n, n ∉ c.modules → P n)
    (required : ∀ n d, c.modules.get? n = some d → (∀ k ∈ d.requires, P k) → P n)
    (n : String) : P n := by
  obtain ⟨order, hl, hm⟩ := h.ordered
  by_cases hn : n ∈ c.modules
  · refine hl.induction (fun n hn ih => ?_) n ((hm n).2 hn)
    obtain ⟨d, hd⟩ := NameMap.mem_iff_exists.1 hn
    refine required n d hd fun k hk => ?_
    by_cases hkm : k ∈ c.modules
    · exact ih k ⟨d, hd, hk, hkm⟩
    · exact inherited k hkm
  · exact inherited n hn

theorem Coherent.acyclic (h : c.Coherent) (n : String) : ¬ TransGen c.modules.Requires n n := by
  obtain ⟨order, hl, hm⟩ := h.ordered
  exact hl.not_cycle hm n

end Configuration

namespace Resolver

variable {r : Resolver} {roots : List String} {c : Configuration} {n m : String} {d : Descriptor}

theorem Resolves.not_isInherited (h : r.Resolves roots c) (hn : n ∈ c.modules) :
    ¬ r.IsInherited n := by
  obtain ⟨d, hd⟩ := NameMap.mem_iff_exists.1 hn
  obtain ⟨hr, hd⟩ := (h.get?_modules n d).1 hd
  intro hi
  cases hd with
  | first hf hd => exact h.not_shadows n ⟨hr, hi, d, hf, hd⟩
  | second _ hn _ _ => exact hn hi

/-- Every name that the roots reach is a new module or one of a parent. -/
theorem Resolves.isVisible (h : r.Resolves roots c) (hn : r.Reaches roots n) :
    c.isVisible n = true := by
  by_cases hi : r.IsInherited n
  · obtain ⟨p, hp, hv⟩ := hi
    exact Configuration.isVisible_of_parent (h.parents ▸ hp) hv
  · have hd : ∃ d, r.IsNew n d := by
      by_contra hd
      exact h.not_lacks n ⟨hn, hi, not_exists.1 hd⟩
    obtain ⟨d, hd⟩ := hd
    exact Configuration.isVisible_of_mem
      (NameMap.mem_of_get? ((h.get?_modules n d).2 ⟨hn, hd⟩))

theorem Resolves.coherent (h : r.Resolves roots c) : c.Coherent where
  name := fun n d hd => ((h.get?_modules n d).1 hd).2.name
  apart := by
    intro n hn p hp hv
    exact h.not_isInherited hn ⟨p, h.parents ▸ hp, hv⟩
  closed := by
    intro n d hd m hm
    obtain ⟨hr, hd⟩ := (h.get?_modules n d).1 hd
    exact h.isVisible (.required hr hd hm)
  ordered := by
    obtain ⟨order, hl, hm, -⟩ := h.ordered
    exact ⟨order, hl, hm⟩

end Resolver

namespace Configuration

variable {c o p : Configuration} {n m : String}

theorem Reachable.coherent (h : c.Reachable) : c.Coherent := by
  induction h with
  | empty stamp => exact coherent_empty stamp
  | resolve _ hc _ => exact (Resolver.resolves_of_outcome hc).coherent
  | withEdges _ hc ih => exact ih.congr (parents_of_withEdges hc) (modules_of_withEdges hc)

theorem Reachable.parent (h : c.Reachable) (hp : p ∈ c.parents) : p.Reachable := by
  induction h with
  | empty stamp => cases hp
  | resolve hr hc _ => exact hr p ((Resolver.resolves_of_outcome hc).parents ▸ hp)
  | withEdges _ hc ih => exact ih (parents_of_withEdges hc ▸ hp)

theorem Reachable.standsOn (h : c.Reachable) (ho : c.StandsOn o) : o.Reachable := by
  induction ho with
  | refl => exact h
  | tail _ hp ih => exact ih.parent hp

theorem Reachable.isVisible_of_requires {d : Descriptor} (h : c.Reachable)
    (ho : c.ownerOf? n = some o) (hd : o.modules.get? n = some d) (hm : m ∈ d.requires) :
    o.isVisible m = true :=
  (h.standsOn (standsOn_of_ownerOf? ho).1).coherent.closed n d hd m hm

theorem Coherent.not_mem_of_parent (h : c.Coherent) (hp : p ∈ c.parents)
    (hv : p.isVisible n = true) : n ∉ c.modules :=
  fun hn => h.apart n hn p hp hv

/-! ### A stack of two

One module with another above it that requires it, as resolving makes them.
-/

def coreModule : Descriptor where
  name := "core"
  requires := ∅
  exports := .ofList [("core.api", .unqualified), ("core.spi", .qualified (.ofList ["app"]))]
  concealed := ∅

def appModule : Descriptor where
  name := "app"
  requires := .ofList ["core"]
  exports := ∅
  concealed := .ofList ["app.main"]

def core : Configuration :=
  Resolver.configure ⟨.empty, .empty, []⟩ 0 (.ofList [("core", coreModule)]) ["core"]

def app : Configuration :=
  Resolver.configure ⟨.empty, .empty, [core]⟩ 1 (.ofList [("app", appModule)]) ["app"]

theorem stacked_core : core.Stacked := by
  have ho : (Resolver.resolve ⟨.library core.modules, .empty, []⟩ 0 ["core"]).outcome =
      .ok core := by rfl
  refine .resolve ?_ ?_ ho
  · exact Nat.zero_le 1
  · simp

theorem stacked_app : app.Stacked := by
  have ho : (Resolver.resolve ⟨.library app.modules, .empty, [core]⟩ 1 ["app"]).outcome =
      .ok app := by rfl
  refine .resolve ?_ ?_ ho
  · exact Nat.le_refl 1
  · simpa using stacked_core

end Configuration
end ModuleGraph
