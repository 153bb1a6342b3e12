import ModuleGraph.Proofs.Configuration.Reachable

/-! # Reads and requires

A module reads what it reaches along requires, each of them looked up in the configuration that
resolved the module requiring it. Resolving alone makes it read nothing else, and further edges
take none of these reads away.
-/

namespace ModuleGraph

open Relation

namespace Configuration

/-- Names reached by one requires or more, each from where the module requiring it was resolved. -/
inductive Reaches : Configuration → String → String → Prop
  | direct {c o : Configuration} {a b : String} {d : Descriptor} :
      c.ownerOf? a = some o → o.modules.get? a = some d → b ∈ d.requires → Reaches c a b
  | further {c o : Configuration} {a k b : String} {d : Descriptor} :
      c.ownerOf? a = some o → o.modules.get? a = some d → k ∈ d.requires →
      Reaches o k b → Reaches c a b

variable {c c' o p q : Configuration} {a b n m : String} {d : Descriptor} {stamp : Nat}
  {edges : List (String × String)}

theorem reaches_local_iff (hd : c.modules.get? a = some d) :
    c.Reaches a b ↔ ∃ k ∈ d.requires, b = k ∨ c.Reaches k b := by
  have ha := NameMap.mem_of_get? hd
  constructor
  · intro h
    cases h with
    | direct ho he hb =>
      obtain rfl := eq_of_ownerOf?_local ha ho
      obtain rfl := Option.some.inj (hd.symm.trans he)
      exact ⟨b, hb, .inl rfl⟩
    | further ho he hk hr =>
      obtain rfl := eq_of_ownerOf?_local ha ho
      obtain rfl := Option.some.inj (hd.symm.trans he)
      exact ⟨_, hk, .inr hr⟩
  · rintro ⟨k, hk, rfl | hr⟩
    · exact .direct (ownerOf?_local ha) hd hk
    · exact .further (ownerOf?_local ha) hd hk hr

theorem Reaches.congr (h : c.Reaches a b) (ho : c.ownerOf? a = q.ownerOf? a) :
    q.Reaches a b := by
  cases h with
  | direct hc hd hb => exact .direct (ho ▸ hc) hd hb
  | further hc hd hk hr => exact .further (ho ▸ hc) hd hk hr

theorem Reaches.isVisible_left (h : c.Reaches a b) : c.isVisible a = true := by
  cases h with
  | direct ho _ _ => exact isVisible_iff.2 ⟨_, ho⟩
  | further ho _ _ _ => exact isVisible_iff.2 ⟨_, ho⟩

/-- What is reached depends on modules and parents alone. -/
theorem Reaches.of_modules (h : c.Reaches a b) (hp : q.parents = c.parents)
    (hm : q.modules = c.modules) : q.Reaches a b := by
  induction h with
  | @direct c o a b d ho hd hb =>
    by_cases ha : a ∈ c.modules
    · obtain rfl := eq_of_ownerOf?_local ha ho
      exact .direct (ownerOf?_local (hm ▸ ha)) (hm ▸ hd) hb
    · exact .direct ((ownerOf?_congr hp (hm ▸ ha) ha).trans ho) hd hb
  | @further c o a k b d ho hd hk hr ih =>
    by_cases ha : a ∈ c.modules
    · obtain rfl := eq_of_ownerOf?_local ha ho
      exact .further (ownerOf?_local (hm ▸ ha)) (hm ▸ hd) hk (ih hp hm)
    · exact .further ((ownerOf?_congr hp (hm ▸ ha) ha).trans ho) hd hk hr

theorem Reaches.isVisible (h : c.Reaches a b) (hc : c.Reachable) : c.isVisible b = true := by
  induction h with
  | direct ho hd hb =>
    obtain ⟨hs, -⟩ := standsOn_of_ownerOf? ho
    exact hs.isVisible (hc.isVisible_of_requires ho hd hb)
  | further ho _ _ _ ih =>
    obtain ⟨hs, -⟩ := standsOn_of_ownerOf? ho
    exact hs.isVisible (ih (hc.standsOn hs))

/-- A way between two modules of a configuration does not leave it, since nothing reached from a
parent is a module of its own. -/
theorem Reaches.transGen (h : c.Reaches a b) (hc : c.Reachable) (ha : a ∈ c.modules)
    (hb : b ∈ c.modules) : TransGen c.modules.Requires a b := by
  induction h with
  | direct ho hd hr =>
    obtain rfl := eq_of_ownerOf?_local ha ho
    exact .single ⟨_, hd, hr, hb⟩
  | @further c o a k b d ho hd hk hr ih =>
    obtain rfl := eq_of_ownerOf?_local ha ho
    by_cases hkm : k ∈ c.modules
    · exact .head ⟨d, hd, hk, hkm⟩ (ih hc hkm hb)
    · obtain ⟨p, hp, -, he⟩ := exists_parent hkm (hc.coherent.closed a d hd k hk)
      have hv := (hr.congr he).isVisible (hc.parent hp)
      exact (hc.coherent.apart b hb p hp hv).elim

theorem not_reaches_self (hc : c.Reachable) : ¬ c.Reaches a a := by
  induction c using Configuration.induction with
  | step c ih =>
    intro h
    by_cases ha : a ∈ c.modules
    · exact hc.coherent.acyclic a (h.transGen hc ha ha)
    · obtain ⟨p, hp, -, he⟩ := exists_parent ha h.isVisible_left
      exact ih p hp (hc.parent hp) (h.congr he)

end Configuration

namespace Resolver

open ModuleGraph.Configuration

variable {r : Resolver} {roots : List String} {c : Configuration} {n m : String} {d : Descriptor}

theorem Resolves.mem_reads (h : r.Resolves roots c) (n : String) :
    n ∈ c.reads ↔ n ∈ c.modules := by
  obtain ⟨order, hl, hm, hr⟩ := h.ordered
  rw [hr, mem_readsInOrder hl, hm]

theorem Resolves.get?_reads (h : r.Resolves roots c) (hn : n ∈ c.modules) :
    c.reads.get? n = c.readsOf? n := by
  obtain ⟨s, hs⟩ := NameMap.mem_iff_exists.1 ((h.mem_reads n).2 hn)
  rw [readsOf?, ownerOf?_local hn, Option.map_some, hs, Option.getD_some]

/-- Where the reads of a new module and those of parents were taken from is where they are looked
up later. -/
theorem Resolves.get?_reads_or (h : r.Resolves roots c) (n : String) :
    (c.reads.get? n).or (r.parentReads? n) = c.readsOf? n := by
  by_cases hn : n ∈ c.modules
  · obtain ⟨s, hs⟩ := NameMap.mem_iff_exists.1 ((h.mem_reads n).2 hn)
    rw [← h.get?_reads hn, hs, Option.some_or]
  · rw [NameMap.not_mem_iff.1 (mt (h.mem_reads n).1 hn), Option.none_or, readsOf?_inherited hn,
      h.parents, parentReads?]

/-- The reads of a new module in terms of the reads of what it requires. -/
theorem Resolves.doesRead_iff (h : r.Resolves roots c) (hd : c.modules.get? n = some d) :
    c.doesRead n m = true ↔ m ≠ n ∧ ∃ k ∈ d.requires, m = k ∨ c.doesRead k m = true := by
  obtain ⟨order, hl, hm, hr⟩ := h.ordered
  have hn := NameMap.mem_of_get? hd
  have hg : c.reads.get? n = some (readsAfter r.parentReads? c.reads d) :=
    hr ▸ get?_readsInOrder hl ((hm n).2 hn) hd
  rw [doesRead_local hn, hg, Option.getD_some, mem_readsAfter, h.coherent.name n d hd]
  simp only [h.get?_reads_or, mem_getD_readsOf?]

end Resolver

namespace Configuration

variable {c : Configuration} {a b : String}

theorem doesRead_of_reaches (hc : c.Reachable) (h : c.Reaches a b) : c.doesRead a b = true := by
  induction hc generalizing a b with
  | empty stamp => exact (not_isVisible_empty stamp h.isVisible_left).elim
  | @resolve r stamp roots c hr ho ihp =>
    have hs := Resolver.resolves_of_outcome ho
    have hc : c.Reachable := .resolve hr ho
    induction a using hs.coherent.induction generalizing b with
    | inherited a ha =>
      obtain ⟨p, hp, -, he⟩ := exists_parent ha h.isVisible_left
      rw [doesRead_congr he]
      exact ihp p (hs.parents ▸ hp) (h.congr he)
    | required a d hd ih =>
      rw [hs.doesRead_iff hd]
      constructor
      · rintro rfl
        exact not_reaches_self hc h
      · obtain ⟨k, hk, hb⟩ := (reaches_local_iff hd).1 h
        exact ⟨k, hk, hb.imp id (ih k hk)⟩
  | withEdges _ hw ih =>
    refine (doesRead_withEdges hw).2 (.inl (ih ?_))
    exact h.of_modules (parents_of_withEdges hw).symm (modules_of_withEdges hw).symm

theorem reaches_of_doesRead (hc : c.Resolved) (h : c.doesRead a b = true) : c.Reaches a b := by
  induction hc generalizing a b with
  | empty stamp => exact (not_isVisible_empty stamp (isVisible_of_doesRead h)).elim
  | @resolve r stamp roots c hr ho ihp =>
    have hs := Resolver.resolves_of_outcome ho
    induction a using hs.coherent.induction generalizing b with
    | inherited a ha =>
      obtain ⟨p, hp, -, he⟩ := exists_parent ha (isVisible_of_doesRead h)
      rw [doesRead_congr he] at h
      exact (ihp p (hs.parents ▸ hp) h).congr he.symm
    | required a d hd ih =>
      obtain ⟨-, k, hk, hb⟩ := (hs.doesRead_iff hd).1 h
      exact (reaches_local_iff hd).2 ⟨k, hk, hb.imp id (ih k hk)⟩

/-- After resolving alone, a module reads exactly what it reaches. After deriving with further
edges too, all that it reaches is visible and read. -/
theorem doesRead_iff_reaches (c : Configuration) :
    (c.Resolved → ∀ a b, c.doesRead a b = true ↔ c.Reaches a b) ∧
      (c.Reachable → ∀ a b, c.Reaches a b → c.isVisible b = true ∧ c.doesRead a b = true) := by
  constructor
  · intro hc a b
    exact ⟨reaches_of_doesRead hc, doesRead_of_reaches hc.reachable⟩
  · intro hc a b h
    exact ⟨h.isVisible hc, doesRead_of_reaches hc h⟩

theorem app_reads_what_it_reaches :
    app.Resolved ∧ app.Reachable ∧ app.Reaches "app" "core" ∧ ¬ app.Reaches "core" "app" ∧
      app.isVisible "core" = true ∧ app.doesRead "app" "core" = true := by
  have hr := stacked_app.resolved
  obtain ⟨h, h'⟩ := doesRead_iff_reaches app
  have hc : app.Reaches "app" "core" := (h hr "app" "core").1 (by decide)
  have ha : ¬ app.Reaches "core" "app" := (h hr "core" "app").not.1 (by decide)
  obtain ⟨hv, hd⟩ := h' hr.reachable "app" "core" hc
  exact ⟨hr, hr.reachable, hc, ha, hv, hd⟩

end Configuration
end ModuleGraph
