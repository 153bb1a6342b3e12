import ModuleGraph.Proofs.Configuration.Extension
import ModuleGraph.Proofs.Configuration.Requires

/-! # Stacks

On one parent at most each time, a configuration hides nothing of those it stands on. What a
module reaches is then told by the visible modules alone, without asking where they were resolved.
-/

namespace ModuleGraph.Configuration

open Relation

def Requires (c : Configuration) (a b : String) : Prop :=
  ∃ d, c.find? a = some d ∧ b ∈ d.requires ∧ c.isVisible b = true

variable {c o p q : Configuration} {a b n : String}

theorem Stacked.parent (h : c.Stacked) (hp : p ∈ c.parents) : p.Stacked := by
  cases h with
  | empty stamp => cases hp
  | resolve _ hr hc => exact hr p ((Resolver.resolves_of_outcome hc).parents ▸ hp)

theorem Stacked.standsOn (h : c.Stacked) (ho : c.StandsOn o) : o.Stacked := by
  induction ho with
  | refl => exact h
  | tail _ hp ih => exact ih.parent hp

theorem Stacked.parents_eq (h : c.Stacked) (hp : p ∈ c.parents) : c.parents = [p] := by
  have hl : c.parents.length ≤ 1 := by
    cases h with
    | empty stamp => exact Nat.zero_le 1
    | resolve hl _ hc => exact (Resolver.resolves_of_outcome hc).parents ▸ hl
  obtain ⟨q, hq⟩ := List.length_eq_one_iff.1 (Nat.le_antisymm hl (List.length_pos_of_mem hp))
  rw [hq, List.mem_singleton] at hp
  rw [hq, hp]

theorem Stacked.extends_parent (h : c.Stacked) (hp : p ∈ c.parents) : c.Extends p :=
  h.reachable.extends_head (h.parents_eq hp)

theorem Stacked.extends_of_standsOn (h : c.Stacked) (ho : c.StandsOn o) : c.Extends o := by
  induction ho using ReflTransGen.head_induction_on with
  | refl => exact .refl _
  | head hp _ ih => exact (h.extends_parent hp).trans (ih (h.parent hp))

theorem Stacked.requires (h : c.Stacked) (ho : c.StandsOn o) (hr : o.Requires a b) :
    c.Requires a b := by
  obtain ⟨d, hd, hb, hv⟩ := hr
  have he := (h.extends_of_standsOn ho).find?_eq (isVisible_of_find? hd)
  exact ⟨d, he.trans hd, hb, ho.isVisible hv⟩

theorem Reaches.transGen_requires (h : c.Reaches a b) (hc : c.Stacked) :
    TransGen c.Requires a b := by
  induction h with
  | direct ho hd hb =>
    obtain ⟨hs, -⟩ := standsOn_of_ownerOf? ho
    have hv := hc.reachable.isVisible_of_requires ho hd hb
    exact .single ⟨_, (find?_of_ownerOf? ho).trans hd, hb, hs.isVisible hv⟩
  | @further c o a k b d ho hd hk hr ih =>
    obtain ⟨hs, -⟩ := standsOn_of_ownerOf? ho
    have hv := hs.isVisible hr.isVisible_left
    have hak : c.Requires a k := ⟨d, (find?_of_ownerOf? ho).trans hd, hk, hv⟩
    have hkb := ih (hc.standsOn hs)
    exact .head hak (TransGen.mono (fun _ _ => hc.requires hs) k b hkb)

theorem reaches_of_transGen (hc : c.Stacked) (h : TransGen c.Requires a b) : c.Reaches a b := by
  induction h using TransGen.head_induction_on with
  | single h =>
    obtain ⟨d, hd, hb, -⟩ := h
    obtain ⟨o, ho, hd⟩ := find?_eq_some_iff.1 hd
    exact .direct ho hd hb
  | @head a k h _ ih =>
    obtain ⟨d, hd, hk, -⟩ := h
    obtain ⟨o, ho, hd⟩ := find?_eq_some_iff.1 hd
    obtain ⟨hs, -⟩ := standsOn_of_ownerOf? ho
    have hv := hc.reachable.isVisible_of_requires ho hd hk
    exact .further ho hd hk (ih.congr (hc.extends_of_standsOn hs k hv))

/-- A module of a stack reads exactly what it comes to along requires of visible modules. -/
theorem Stacked.doesRead_iff_transGen (hc : c.Stacked) :
    c.doesRead a b = true ↔ TransGen c.Requires a b := by
  constructor
  · intro h
    exact (reaches_of_doesRead hc.resolved h).transGen_requires hc
  · intro h
    exact doesRead_of_reaches hc.reachable (reaches_of_transGen hc h)

theorem readsOf?_congr (hv : c.isVisible a = q.isVisible a)
    (hr : ∀ b, c.doesRead a b = q.doesRead a b) : c.readsOf? a = q.readsOf? a := by
  rw [← isSome_readsOf?, ← isSome_readsOf?] at hv
  have hb : ∀ b, b ∈ (c.readsOf? a).getD ∅ ↔ b ∈ (q.readsOf? a).getD ∅ := by
    intro b
    rw [mem_getD_readsOf?, mem_getD_readsOf?, hr b]
  cases hc : c.readsOf? a with
  | none =>
    cases hq : q.readsOf? a with
    | none => rfl
    | some t => rw [hc, hq] at hv; cases hv
  | some s =>
    cases hq : q.readsOf? a with
    | none => rw [hc, hq] at hv; cases hv
    | some t =>
      rw [hc, hq] at hb
      exact congrArg some (NameSet.ext hb)

/-- Two stacks in which the same modules are looked up read the same. -/
theorem Stacked.doesRead_congr (hc : c.Stacked) (hq : q.Stacked)
    (h : ∀ n, c.find? n = q.find? n) (a b : String) : c.doesRead a b = q.doesRead a b := by
  have hr : c.Requires = q.Requires := by
    funext a b
    simp only [Requires, isVisible, h]
  rw [Bool.eq_iff_iff, hc.doesRead_iff_transGen, hq.doesRead_iff_transGen, hr]

end ModuleGraph.Configuration
