import ModuleGraph.Proofs.Configuration.Reachable

/-! # Modules of one name in a stack

A configuration takes no name that one it stands on has taken, so along parents each name has one
module. Parents of one configuration are not compared with each other: what they hold for a name
is the same module exactly if no two of them, at any height, are seen to differ over it.
-/

namespace ModuleGraph.Configuration

open Relation

/-- All configurations stood on that resolved a name hold the same module for it. -/
def IsUnanimous (c : Configuration) (n : String) : Prop :=
  ∀ o q d e, c.StandsOn o → c.StandsOn q →
    o.modules.get? n = some d → q.modules.get? n = some e → d = e

/-- No two parents have different modules for a name. -/
def ParentsAgree (c : Configuration) (n : String) : Prop :=
  ∀ p ∈ c.parents, ∀ q ∈ c.parents, ∀ d e, p.find? n = some d → q.find? n = some e → d = e

/-- A configuration stands on another by way of its parents. -/
def StandsAbove : Configuration → Configuration → Prop :=
  TransGen fun c p => p ∈ c.parents

variable {c o p q : Configuration} {n : String} {d e : Descriptor}

theorem StandsAbove.standsOn (h : c.StandsAbove o) : c.StandsOn o := h.to_reflTransGen

theorem Reachable.not_mem_of_standsAbove (h : c.Reachable) (ho : c.StandsAbove o)
    (hn : n ∈ o.modules) : n ∉ c.modules := by
  obtain ⟨p, hp, hs⟩ := TransGen.head'_iff.1 ho
  exact h.coherent.not_mem_of_parent hp (StandsOn.isVisible hs (isVisible_of_mem hn))

theorem exists_standsOn_of_find? (h : c.find? n = some d) :
    ∃ o, c.StandsOn o ∧ o.modules.get? n = some d := by
  obtain ⟨o, ho, hd⟩ := find?_eq_some_iff.1 h
  exact ⟨o, (standsOn_of_ownerOf? ho).1, hd⟩

theorem IsUnanimous.find?_eq (h : c.IsUnanimous n) (ho : c.StandsOn o)
    (hd : o.modules.get? n = some d) : c.find? n = some d := by
  have hv := ho.isVisible (isVisible_of_mem (NameMap.mem_of_get? hd))
  obtain ⟨e, he⟩ := Option.isSome_iff_exists.1 hv
  obtain ⟨q, hq, hqe⟩ := exists_standsOn_of_find? he
  rw [he, h o q d e ho hq hd hqe]

theorem IsUnanimous.parentsAgree (h : c.IsUnanimous n) (ho : c.StandsOn o) :
    o.ParentsAgree n := by
  intro p hp q hq d e hd he
  obtain ⟨a, ha, had⟩ := exists_standsOn_of_find? hd
  obtain ⟨b, hb, hbe⟩ := exists_standsOn_of_find? he
  exact h a b d e (ho.trans (.head hp ha)) (ho.trans (.head hq hb)) had hbe

theorem Reachable.find?_of_parentsAgree (h : c.Reachable)
    (ha : ∀ o, c.StandsOn o → o.ParentsAgree n) (ho : c.StandsOn o)
    (hd : o.modules.get? n = some d) : c.find? n = some d := by
  induction ho using ReflTransGen.head_induction_on with
  | refl => rw [Configuration.find?_eq, hd, Option.some_or]
  | @head c p hp hs ih =>
    have hpd := ih (h.parent hp) fun q hq => ha q (.head hp hq)
    have hn := h.coherent.not_mem_of_parent hp (isVisible_of_find? hpd)
    have hv := isVisible_of_parent hp (isVisible_of_find? hpd)
    -- The first parent that sees the name need not be `p`, but `c`'s parents agree on it.
    obtain ⟨q, hq, hqv, he⟩ := exists_parent hn hv
    obtain ⟨e, hqe⟩ := Option.isSome_iff_exists.1 hqv
    rw [find?_eq_bind, he, ← find?_eq_bind, hqe, ha c .refl p hp q hq d e hpd hqe]

theorem Reachable.isUnanimous (h : c.Reachable) (ha : ∀ o, c.StandsOn o → o.ParentsAgree n) :
    c.IsUnanimous n := by
  intro o q d e ho hq hd he
  have hcd := h.find?_of_parentsAgree ha ho hd
  have hce := h.find?_of_parentsAgree ha hq he
  exact Option.some.inj (hcd.symm.trans hce)

theorem forall_standsOn_iff {P : Configuration → Prop} :
    (∀ o, c.StandsOn o → P o) ↔ P c ∧ ∀ p ∈ c.parents, ∀ o, p.StandsOn o → P o := by
  constructor
  · intro h
    exact ⟨h c .refl, fun p hp o ho => h o (.head hp ho)⟩
  · rintro ⟨hc, hp⟩ o ho
    obtain rfl | ⟨p, h, hs⟩ := ReflTransGen.cases_head ho
    · exact hc
    · exact hp p h o hs

theorem parentsAgree_of_find? (h : ∀ p ∈ c.parents, p.find? n = some d) : c.ParentsAgree n := by
  intro p hp q hq e f he hf
  rw [h p hp] at he
  rw [h q hq] at hf
  exact Option.some.inj (he.symm.trans hf)

theorem parentsAgree_core : ∀ o, core.StandsOn o → o.ParentsAgree "core" := by
  have hn : ∀ p, p ∉ core.parents := fun p => List.not_mem_nil
  exact forall_standsOn_iff.2 ⟨fun p hp => (hn p hp).elim, fun p hp => (hn p hp).elim⟩

theorem parentsAgree_app : ∀ o, app.StandsOn o → o.ParentsAgree "core" := by
  have hc : core.find? "core" = some coreModule := by rfl
  have hp : app.ParentsAgree "core" := parentsAgree_of_find? (List.forall_mem_singleton.2 hc)
  exact forall_standsOn_iff.2 ⟨hp, List.forall_mem_singleton.2 parentsAgree_core⟩

/-- A configuration and those it stands on hold one module for a name exactly if the parents of
each of them agree on it; and none of them has a name that one it stands above has. -/
theorem isUnanimous_iff (h : c.Reachable) (n : String) :
    (c.IsUnanimous n ↔ ∀ o, c.StandsOn o → o.ParentsAgree n) ∧
      ∀ o q, c.StandsOn o → o.StandsAbove q → n ∈ q.modules → n ∉ o.modules := by
  refine ⟨⟨fun hn o => hn.parentsAgree, h.isUnanimous⟩, fun o q ho hq => ?_⟩
  exact (h.standsOn ho).not_mem_of_standsAbove hq

/-- A configuration that sees the module `core` through both of its parents. -/
def diamond : Configuration := Resolver.configure ⟨.empty, .empty, [app, core]⟩ 2 ∅ []

theorem reachable_diamond : diamond.Reachable :=
  @Reachable.resolve ⟨.empty, .empty, [app, core]⟩ 2 [] _
    (by simp [stacked_app.reachable, stacked_core.reachable]) (by rfl)

theorem isUnanimous_diamond : diamond.Reachable ∧ diamond.IsUnanimous "core" := by
  have hca : app.find? "core" = some coreModule := by rfl
  have hcc : core.find? "core" = some coreModule := by rfl
  have hp : ∀ p ∈ diamond.parents, p.find? "core" = some coreModule :=
    List.forall_mem_cons.2 ⟨hca, List.forall_mem_singleton.2 hcc⟩
  refine ⟨reachable_diamond, (isUnanimous_iff reachable_diamond "core").1.2 ?_⟩
  refine forall_standsOn_iff.2 ⟨parentsAgree_of_find? hp, ?_⟩
  exact List.forall_mem_cons.2 ⟨parentsAgree_app, List.forall_mem_singleton.2 parentsAgree_core⟩

def bareCore : Configuration :=
  Resolver.configure ⟨.empty, .empty, []⟩ 3 (.ofList [("core", ⟨"core", ∅, ∅, ∅⟩)]) ["core"]

def clash : Configuration := Resolver.configure ⟨.empty, .empty, [core, bareCore]⟩ 4 ∅ []

theorem reachable_bareCore : bareCore.Reachable :=
  @Reachable.resolve ⟨.library bareCore.modules, .empty, []⟩ 3 ["core"] _
    (by simp) (by rfl)

theorem reachable_clash : clash.Reachable :=
  @Reachable.resolve ⟨.empty, .empty, [core, bareCore]⟩ 4 [] _
    (by simp [stacked_core.reachable, reachable_bareCore]) (by rfl)

theorem not_isUnanimous_clash : clash.Reachable ∧ ¬ clash.IsUnanimous "core" := by
  refine ⟨reachable_clash, fun h => ?_⟩
  have hc : clash.StandsOn core := .single (by simp [clash, Resolver.configure])
  have hb : clash.StandsOn bareCore := .single (by simp [clash, Resolver.configure])
  have hd : core.modules.get? "core" = some coreModule := by rfl
  have he : bareCore.modules.get? "core" = some ⟨"core", ∅, ∅, ∅⟩ := by rfl
  exact absurd (h core bareCore _ _ hc hb hd he) (by decide)

end ModuleGraph.Configuration
