import ModuleGraph.Proofs.Configuration.Consistency

/-! # The order of lookups

A lookup goes through a configuration itself and then through its parents in order, each of them
to its depth before the next. The owner of a package is the module of the first configuration in
this order that has one.
-/

namespace ModuleGraph

namespace Configuration

mutual

/-- A configuration and all that it stands on, in the order of lookups. -/
def lineage : Configuration → List Configuration
  | ⟨stamp, parents, modules, reads, packages⟩ =>
    ⟨stamp, parents, modules, reads, packages⟩ :: lineageAll parents

def lineageAll : List Configuration → List Configuration
  | [] => []
  | c :: cs => lineage c ++ lineageAll cs

end

/-- A module of the first configuration of a list in which one owns the package. -/
def FirstOwner (cs : List Configuration) (p n : String) : Prop :=
  ∃ before o after, cs = before ++ o :: after ∧ o.Owns n p ∧ ∀ q ∈ before, ∀ m, ¬ q.Owns m p

variable {α : Type} {c o : Configuration} {cs : List Configuration} {n p : String}

mutual

theorem mem_lineage_iff : ∀ c : Configuration, o ∈ c.lineage ↔ c.StandsOn o
  | ⟨stamp, parents, modules, reads, packages⟩ => by
    rw [lineage, List.mem_cons, mem_lineageAll_iff parents, StandsOn,
      Relation.ReflTransGen.cases_head_iff, eq_comm]

theorem mem_lineageAll_iff : ∀ cs : List Configuration,
    o ∈ lineageAll cs ↔ ∃ c ∈ cs, c.StandsOn o
  | [] => by simp [lineageAll]
  | c :: cs => by
    rw [lineageAll, List.mem_append, mem_lineage_iff c, mem_lineageAll_iff cs,
      List.exists_mem_cons_iff]

end

mutual

theorem search_eq_findSome? (f : Configuration → Option α) :
    ∀ c : Configuration, c.search f = c.lineage.findSome? f
  | ⟨stamp, parents, modules, reads, packages⟩ => by
    rw [search, lineage, searchAll_eq_findSome?_lineageAll f parents, List.findSome?_cons]
    cases f ⟨stamp, parents, modules, reads, packages⟩ <;> rfl

theorem searchAll_eq_findSome?_lineageAll (f : Configuration → Option α) :
    ∀ cs : List Configuration, searchAll f cs = (lineageAll cs).findSome? f
  | [] => rfl
  | c :: cs => by
    rw [searchAll, lineageAll, search_eq_findSome? f c, searchAll_eq_findSome?_lineageAll f cs,
      List.findSome?_append]

end

theorem findSome?_congr {β : Type} {f g : β → Option α} {l : List β} (h : ∀ b ∈ l, f b = g b) :
    l.findSome? f = l.findSome? g := by
  induction l with
  | nil => rfl
  | cons b l ih =>
    rw [List.forall_mem_cons] at h
    rw [List.findSome?_cons, List.findSome?_cons, h.1, ih h.2]

/-- An owner on record is a module of its configuration, under its own name. -/
theorem Reachable.exists_owner (h : c.Reachable) (hn : c.packages.get? p = some n) :
    ∃ d, c.modules.get? n = some d ∧ d.name = n := by
  obtain ⟨d, hd, -⟩ := h.get?_packages_iff.1 hn
  exact ⟨d, hd, h.coherent.name n d hd⟩

/-- The first record of a package tells its owner, since it never lacks the module it names. -/
theorem Reachable.name_packageOwner? (h : c.Reachable) (p : String) :
    (c.packageOwner? p).map (·.name) = c.search fun o => o.packages.get? p := by
  rw [packageOwner?, search_eq_findSome?, search_eq_findSome?]
  cases hn : c.lineage.findSome? fun o => o.packages.get? p with
  | none =>
    have hr : (c.lineage.findSome? fun o => (o.packages.get? p).map fun n => o.modules.get? n) =
        none := by
      rw [List.findSome?_eq_none_iff] at hn ⊢
      intro o ho
      rw [hn o ho, Option.map_none]
    rw [hr]
    rfl
  | some n =>
    obtain ⟨before, o, after, hl, ho, hb⟩ := List.findSome?_eq_some_iff.1 hn
    have hs : c.StandsOn o := (mem_lineage_iff c).1 (by simp [hl])
    obtain ⟨d, hd, hdn⟩ := (h.standsOn hs).exists_owner ho
    have hr : (c.lineage.findSome? fun o => (o.packages.get? p).map fun n => o.modules.get? n) =
        some (some d) := by
      refine List.findSome?_eq_some_iff.2 ⟨before, o, after, hl, ?_, fun q hq => ?_⟩
      · rw [ho, Option.map_some, hd]
      · rw [hb q hq, Option.map_none]
    rw [hr]
    exact congrArg some hdn

theorem Reachable.get?_packages_eq_none_iff (h : c.Reachable) :
    c.packages.get? p = none ↔ ∀ m, ¬ c.Owns m p := by
  simp only [← h.get?_packages_iff, Option.eq_none_iff_forall_ne_some]

end Configuration

namespace Resolver

open ModuleGraph.Configuration

variable {r : Resolver} {n p : String}

theorem parentOwner?_eq (hr : ∀ q ∈ r.parents, q.Reachable) (p : String) :
    r.parentOwner? p = (lineageAll r.parents).findSome? fun o => o.packages.get? p := by
  rw [parentOwner?, List.map_findSome?, ← searchAll_eq_findSome?_lineageAll,
    searchAll_eq_findSome?]
  exact findSome?_congr fun q hq => (hr q hq).name_packageOwner? p

/-- The owner of a package in the parents is the one that the first configuration with any has. -/
theorem parentOwner?_eq_some_iff (hr : ∀ q ∈ r.parents, q.Reachable) :
    r.parentOwner? p = some n ↔ FirstOwner (lineageAll r.parents) p n := by
  have ho : ∀ o ∈ lineageAll r.parents, o.Reachable := by
    intro o ho
    obtain ⟨q, hq, hs⟩ := (mem_lineageAll_iff r.parents).1 ho
    exact (hr q hq).standsOn hs
  rw [parentOwner?_eq hr, List.findSome?_eq_some_iff]
  refine exists_congr fun before => exists_congr fun o => exists_congr fun after => ?_
  refine and_congr_right fun hl => and_congr ?_ (forall₂_congr fun q hq => ?_)
  · exact (ho o (by simp [hl])).get?_packages_iff
  · exact (ho q (by simp [hl, hq])).get?_packages_eq_none_iff

end Resolver
end ModuleGraph
