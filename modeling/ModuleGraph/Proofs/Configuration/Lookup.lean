import Mathlib.Logic.Relation
import ModuleGraph.Configuration
import ModuleGraph.Proofs.NameMap

/-! # Lookups along parents

A lookup is settled by the configuration that resolved the name: itself first, then its parents in
order. Two configurations in which the same one resolved a name therefore agree on its module and
on what it reads.
-/

namespace ModuleGraph.Configuration

/-- A configuration stands on itself, on its parents and on all that these stand on. -/
def StandsOn : Configuration → Configuration → Prop :=
  Relation.ReflTransGen fun c p => p ∈ c.parents

variable {α β : Type} {c o p q : Configuration} {n a b : String}

theorem exists_of_search {f : Configuration → Option α} {x : α} (h : c.search f = some x) :
    ∃ o, c.StandsOn o ∧ f o = some x := by
  induction c using Configuration.induction with
  | step c ih =>
    rw [search_eq, Option.or_eq_some_iff, searchAll_eq_findSome?] at h
    rcases h with h | ⟨-, h⟩
    · exact ⟨c, .refl, h⟩
    · obtain ⟨p, hp, h⟩ := List.exists_of_findSome?_eq_some h
      obtain ⟨o, ho, hx⟩ := ih p hp h
      exact ⟨o, .head hp ho, hx⟩

mutual

theorem search_bind {f : Configuration → Option α} {g : α → Option β}
    (hg : ∀ c x, f c = some x → (g x).isSome) :
    ∀ c, search (fun c => (f c).bind g) c = (search f c).bind g
  | ⟨stamp, parents, modules, reads, packages⟩ => by
    rw [search, search, searchAll_bind hg parents]
    cases hf : f ⟨stamp, parents, modules, reads, packages⟩ with
    | none => rfl
    | some x =>
      obtain ⟨y, hy⟩ := Option.isSome_iff_exists.1 (hg _ x hf)
      simp [hy]

theorem searchAll_bind {f : Configuration → Option α} {g : α → Option β}
    (hg : ∀ c x, f c = some x → (g x).isSome) :
    ∀ cs, searchAll (fun c => (f c).bind g) cs = (searchAll f cs).bind g
  | [] => rfl
  | c :: cs => by
    rw [searchAll, searchAll, search_bind hg c, searchAll_bind hg cs]
    cases hs : search f c with
    | none => rfl
    | some x =>
      obtain ⟨o, -, ho⟩ := exists_of_search hs
      obtain ⟨y, hy⟩ := Option.isSome_iff_exists.1 (hg o x ho)
      simp [hy]

end

/-- A search has an answer exactly if some configuration stood on has one. -/
theorem isSome_search_iff {f : Configuration → Option α} :
    (c.search f).isSome = true ↔ ∃ o, c.StandsOn o ∧ (f o).isSome = true := by
  constructor
  · intro h
    obtain ⟨x, hx⟩ := Option.isSome_iff_exists.1 h
    obtain ⟨o, ho, hf⟩ := exists_of_search hx
    exact ⟨o, ho, hf ▸ rfl⟩
  · rintro ⟨o, ho, hf⟩
    induction ho using Relation.ReflTransGen.head_induction_on with
    | refl => rw [search_eq, Option.isSome_or, hf, Bool.true_or]
    | head hp _ ih =>
      rw [search_eq, Option.isSome_or, searchAll_eq_findSome?, Bool.or_eq_true,
        List.findSome?_isSome_iff]
      exact .inr ⟨_, hp, ih⟩

theorem isLocal_iff : c.isLocal n = true ↔ n ∈ c.modules := Iff.rfl

theorem self_if_local_iff :
    (if c.isLocal n then some c else none) = some o ↔ n ∈ o.modules ∧ c = o := by
  rw [Option.ite_none_right_eq_some, Option.some.injEq, isLocal_iff]
  exact ⟨fun ⟨h, he⟩ => ⟨he ▸ h, he⟩, fun ⟨h, he⟩ => ⟨he ▸ h, he⟩⟩

theorem ownerOf?_local (h : n ∈ c.modules) : c.ownerOf? n = some c := by
  rw [ownerOf?, search_eq, if_pos (isLocal_iff.2 h), Option.some_or]

theorem eq_of_ownerOf?_local (h : n ∈ c.modules) (ho : c.ownerOf? n = some o) : c = o :=
  Option.some.inj ((ownerOf?_local h).symm.trans ho)

theorem ownerOf?_inherited (h : n ∉ c.modules) :
    c.ownerOf? n = c.parents.findSome? (ownerOf? n) := by
  rw [ownerOf?, search_eq, if_neg (isLocal_iff.not.2 h), Option.none_or, searchAll_eq_findSome?]
  rfl

/-- The configuration that resolved a name is one stood on, and the name is its own. -/
theorem standsOn_of_ownerOf? (h : c.ownerOf? n = some o) : c.StandsOn o ∧ n ∈ o.modules := by
  obtain ⟨q, hq, h⟩ := exists_of_search h
  obtain ⟨hl, rfl⟩ := self_if_local_iff.1 h
  exact ⟨hq, hl⟩

theorem find?_eq_bind (c : Configuration) (n : String) :
    c.find? n = (c.ownerOf? n).bind (·.modules.get? n) := by
  have hg : ∀ q o : Configuration, (if q.isLocal n then some q else none) = some o →
      (o.modules.get? n).isSome := fun q o h => (self_if_local_iff.1 h).1
  rw [ownerOf?, ← search_bind hg, find?]
  congr 1
  funext q
  by_cases h : n ∈ q.modules
  · rw [if_pos (isLocal_iff.2 h), Option.bind_some]
  · rw [if_neg (isLocal_iff.not.2 h), NameMap.not_mem_iff.1 h, Option.bind_none]

theorem find?_eq (c : Configuration) (n : String) :
    c.find? n = (c.modules.get? n).or (c.parents.findSome? (find? n)) := by
  rw [find?, search_eq, searchAll_eq_findSome?]
  rfl

theorem find?_congr (hp : c.parents = q.parents) (hm : c.modules = q.modules) (n : String) :
    c.find? n = q.find? n := by
  rw [find?_eq, find?_eq, hp, hm]

theorem find?_eq_some_iff {d : Descriptor} :
    c.find? n = some d ↔ ∃ o, c.ownerOf? n = some o ∧ o.modules.get? n = some d := by
  rw [find?_eq_bind, Option.bind_eq_some_iff]

theorem find?_of_ownerOf? (h : c.ownerOf? n = some o) : c.find? n = o.modules.get? n := by
  rw [find?_eq_bind, h, Option.bind_some]

theorem isVisible_of_find? {d : Descriptor} (h : c.find? n = some d) : c.isVisible n = true :=
  Option.isSome_iff_exists.2 ⟨d, h⟩

theorem isVisible_iff : c.isVisible n = true ↔ ∃ o, c.ownerOf? n = some o := by
  rw [isVisible, find?_eq_bind]
  constructor
  · intro h
    obtain ⟨d, hd⟩ := Option.isSome_iff_exists.1 h
    obtain ⟨o, ho, -⟩ := Option.bind_eq_some_iff.1 hd
    exact ⟨o, ho⟩
  · rintro ⟨o, ho⟩
    rw [ho]
    exact (standsOn_of_ownerOf? ho).2

theorem isSome_readsOf? (c : Configuration) (n : String) :
    (c.readsOf? n).isSome = c.isVisible n := by
  rw [Bool.eq_iff_iff, isVisible_iff, readsOf?, Option.isSome_map, Option.isSome_iff_exists]

theorem isVisible_of_mem (h : n ∈ c.modules) : c.isVisible n = true :=
  isVisible_iff.2 ⟨c, ownerOf?_local h⟩

/-- A name that is no local one is looked up in the first parent that has it. -/
theorem exists_parent (h : n ∉ c.modules) (hv : c.isVisible n = true) :
    ∃ p ∈ c.parents, p.isVisible n = true ∧ c.ownerOf? n = p.ownerOf? n := by
  obtain ⟨o, ho⟩ := isVisible_iff.1 hv
  obtain ⟨p, hp, hpo⟩ := List.exists_of_findSome?_eq_some (ownerOf?_inherited h ▸ ho)
  exact ⟨p, hp, isVisible_iff.2 ⟨o, hpo⟩, ho.trans hpo.symm⟩

theorem isVisible_of_parent (hp : p ∈ c.parents) (hv : p.isVisible n = true) :
    c.isVisible n = true := by
  by_cases h : n ∈ c.modules
  · exact isVisible_of_mem h
  · obtain ⟨o, ho⟩ := isVisible_iff.1 hv
    rw [isVisible_iff, ← Option.isSome_iff_exists, ownerOf?_inherited h,
      List.findSome?_isSome_iff]
    exact ⟨p, hp, ho ▸ rfl⟩

theorem StandsOn.isVisible (h : c.StandsOn o) (hv : o.isVisible n = true) :
    c.isVisible n = true := by
  induction h using Relation.ReflTransGen.head_induction_on with
  | refl => exact hv
  | head hp _ ih => exact isVisible_of_parent hp ih

theorem readsOf?_inherited (h : n ∉ c.modules) :
    c.readsOf? n = c.parents.findSome? (readsOf? n) := by
  rw [readsOf?, ownerOf?_inherited h, List.map_findSome?]
  rfl

theorem doesRead_iff : c.doesRead a b = true ↔ ∃ s, c.readsOf? a = some s ∧ b ∈ s := by
  rw [doesRead]
  cases c.readsOf? a <;> simp

theorem mem_getD_readsOf? : b ∈ (c.readsOf? a).getD ∅ ↔ c.doesRead a b = true := by
  rw [doesRead]
  cases c.readsOf? a <;> simp

theorem doesRead_local (h : a ∈ c.modules) :
    c.doesRead a b = true ↔ b ∈ (c.reads.get? a).getD ∅ := by
  rw [← mem_getD_readsOf?, readsOf?, ownerOf?_local h, Option.map_some, Option.getD_some]

theorem isVisible_of_doesRead (h : c.doesRead a b = true) : c.isVisible a = true := by
  obtain ⟨s, hs, -⟩ := doesRead_iff.1 h
  obtain ⟨o, ho, -⟩ := Option.map_eq_some_iff.1 hs
  exact isVisible_iff.2 ⟨o, ho⟩

theorem ownerOf?_congr (hp : c.parents = q.parents) (hc : n ∉ c.modules) (hq : n ∉ q.modules) :
    c.ownerOf? n = q.ownerOf? n := by
  rw [ownerOf?_inherited hc, ownerOf?_inherited hq, hp]

theorem doesRead_congr (h : c.ownerOf? a = q.ownerOf? a) : c.doesRead a b = q.doesRead a b := by
  rw [doesRead, doesRead, readsOf?, readsOf?, h]

end ModuleGraph.Configuration
