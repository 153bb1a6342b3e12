import ModuleGraph.Proofs.Manifest.Library
import ModuleGraph.Proofs.Resolution.Stacking

/-! # The graph of a manifest

The entries of a manifest tell whether its modules resolve together: all that they require is
declared, no two own a package, and requires do not come back to where they started. What a module
reads is told by the requires of the entries as well.
-/

namespace ModuleGraph.Manifest

open Relation ModuleGraph.Resolver

/-- An entry of one name requires another name. -/
def Requires (m : Manifest) (a b : String) : Prop := ∃ e ∈ m.modules, e.name = a ∧ b ∈ e.requires

/-- A manifest that makes a library whose modules resolve together, in terms of its entries. -/
structure Resolvable (m : Manifest) : Prop where
  described : ∀ e ∈ m.modules, ∃ d, e.descriptor = .ok d
  nodup : m.names.Nodup
  closed : ∀ a b, m.Requires a b → b ∈ m.names
  apart : ∀ e ∈ m.modules, ∀ f ∈ m.modules, ∀ p, e.Owns p → f.Owns p → e.name = f.name
  acyclic : ∀ n, ¬ TransGen m.Requires n n

variable {m : Manifest} {lib : Library} {c : Configuration} {stamp : Nat} {a b n : String}
  {d : Descriptor}

theorem Resolvable.exists_declares (h : m.Resolvable) : ∃ lib, m.Declares lib := by
  obtain ⟨lib, hl⟩ := exists_library h.described h.nodup
  exact ⟨lib, declares_of_library hl⟩

namespace Declares

theorem name (h : m.Declares lib) (hd : lib.get? n = some d) : d.name = n := by
  obtain ⟨e, -, he, hd⟩ := (h.get?_iff n d).1 hd
  exact (Entry.name_of_descriptor hd).trans he

theorem mem_iff (h : m.Declares lib) : n ∈ lib ↔ n ∈ m.names := by
  rw [NameMap.mem_iff_exists, names, List.mem_map]
  constructor
  · rintro ⟨d, hd⟩
    obtain ⟨e, he, hn, -⟩ := (h.get?_iff n d).1 hd
    exact ⟨e, he, hn⟩
  · rintro ⟨e, he, hn⟩
    obtain ⟨d, hd⟩ := h.described e he
    exact ⟨d, (h.get?_iff n d).2 ⟨e, he, hn, hd⟩⟩

theorem requires_iff (h : m.Declares lib) :
    m.Requires a b ↔ ∃ d, lib.get? a = some d ∧ b ∈ d.requires := by
  simp only [Requires, h.get?_iff]
  constructor
  · rintro ⟨e, he, ha, hb⟩
    obtain ⟨d, hd⟩ := h.described e he
    exact ⟨d, ⟨e, he, ha, hd⟩, (Entry.mem_requires_of_descriptor hd).2 hb⟩
  · rintro ⟨d, ⟨e, he, ha, hd⟩, hb⟩
    exact ⟨e, he, ha, (Entry.mem_requires_of_descriptor hd).1 hb⟩

theorem selects_iff (h : m.Declares lib) :
    (alone lib).Selects m.names n d ↔ lib.get? n = some d := by
  rw [Selects, isNew_alone_iff]
  constructor
  · rintro ⟨-, hd, -⟩
    exact hd
  · intro hd
    exact ⟨.root (h.mem_iff.1 (NameMap.mem_of_get? hd)), hd, h.name hd⟩

theorem requires_of_links (h : m.Declares lib) (hl : (alone lib).Links m.names a b) :
    m.Requires a b := by
  obtain ⟨d, -, hd, hb, -⟩ := hl
  exact h.requires_iff.2 ⟨d, h.selects_iff.1 hd, hb⟩

theorem links_of_requires (h : m.Declares lib) (hr : m.Requires a b) (hb : b ∈ m.names) :
    (alone lib).Links m.names a b := by
  obtain ⟨d, hd, hdb⟩ := h.requires_iff.1 hr
  obtain ⟨e, he⟩ := NameMap.mem_iff_exists.1 (h.mem_iff.2 hb)
  exact ⟨d, e, h.selects_iff.2 hd, hdb, h.selects_iff.2 he⟩

theorem exists_outcome (h : m.Declares lib) (hm : m.Resolvable) (stamp : Nat) :
    ∃ c, ((alone lib).resolve stamp m.names).outcome = .ok c := by
  -- All names are roots, so what is reached beyond them would be required but not declared.
  have hroot : ∀ n, (alone lib).Reaches m.names n → n ∈ m.names := by
    intro n hn
    cases hn with
    | root hn => exact hn
    | required _ hd hn =>
      exact hm.closed _ n (h.requires_iff.2 ⟨_, (isNew_alone_iff.1 hd).1, hn⟩)
  apply Resolver.exists_outcome stamp
  · rintro n ⟨hn, -, hd⟩
    obtain ⟨d, hl⟩ := NameMap.mem_iff_exists.1 (h.mem_iff.2 (hroot n hn))
    exact hd d (h.selects_iff.2 hl).2
  · rintro n ⟨-, hi, -⟩
    exact not_isInherited_alone hi
  · rintro p n k ⟨hne, d, d', hd, hd', hp, hp'⟩
    obtain ⟨e, he, rfl, hed⟩ := (h.get?_iff n d).1 (h.selects_iff.1 hd)
    obtain ⟨f, hf, rfl, hfd⟩ := (h.get?_iff k d').1 (h.selects_iff.1 hd')
    exact hne (hm.apart e he f hf p ((Entry.owns_of_descriptor hed).1 hp)
      ((Entry.owns_of_descriptor hfd).1 hp'))
  · intro n hn
    exact hm.acyclic n (TransGen.mono (fun a b => h.requires_of_links) n n hn)

theorem closed_of_resolves (h : m.Declares lib) (hc : (alone lib).Resolves m.names c)
    (hr : m.Requires a b) : b ∈ m.names := by
  obtain ⟨d, hd, hb⟩ := h.requires_iff.1 hr
  have ha := h.selects_iff.2 hd
  by_contra hn
  refine hc.not_lacks b ⟨.required ha.1 ha.2 hb, not_isInherited_alone, fun e he => hn ?_⟩
  exact h.mem_iff.1 (NameMap.mem_of_get? (isNew_alone_iff.1 he).1)

theorem resolvable_of_resolves (h : m.Declares lib) (hc : (alone lib).Resolves m.names c) :
    m.Resolvable where
  described := h.described
  nodup := h.nodup
  closed := fun _ _ => h.closed_of_resolves hc
  apart := by
    intro e he f hf p hep hfp
    obtain ⟨d, hd⟩ := h.described e he
    obtain ⟨d', hd'⟩ := h.described f hf
    have hs := h.selects_iff.2 ((h.get?_iff e.name d).2 ⟨e, he, rfl, hd⟩)
    have hs' := h.selects_iff.2 ((h.get?_iff f.name d').2 ⟨f, hf, rfl, hd'⟩)
    by_contra hne
    exact hc.not_conflicts p e.name f.name ⟨hne, d, d', hs, hs',
      (Entry.owns_of_descriptor hd).2 hep, (Entry.owns_of_descriptor hd').2 hfp⟩
  acyclic := by
    intro n hn
    refine hc.not_cycle n (TransGen.mono ?_ n n hn)
    intro a b hr
    exact h.links_of_requires hr (h.closed_of_resolves hc hr)

/-- The modules of a library resolve together exactly if the entries say so. -/
theorem exists_outcome_iff (h : m.Declares lib) (stamp : Nat) :
    (∃ c, ((alone lib).resolve stamp m.names).outcome = .ok c) ↔ m.Resolvable := by
  constructor
  · rintro ⟨c, ho⟩
    exact h.resolvable_of_resolves (resolves_of_outcome ho)
  · intro hm
    exact h.exists_outcome hm stamp

theorem mem_modules_iff (h : m.Declares lib) (hc : (alone lib).Resolves m.names c) :
    n ∈ c.modules ↔ n ∈ m.names := by
  simp only [NameMap.mem_iff_exists, hc.get?_modules, h.selects_iff, ← h.mem_iff]

theorem requires_eq (h : m.Declares lib) (hc : (alone lib).Resolves m.names c) :
    c.Requires = m.Requires := by
  funext a b
  simp only [Configuration.Requires, find?_alone hc, hc.get?_modules, h.selects_iff,
    isVisible_alone_iff hc, h.mem_modules_iff hc, ← and_assoc, exists_and_right, ← h.requires_iff]
  exact propext (and_iff_left_of_imp (h.closed_of_resolves hc))

theorem doesRead_iff (h : m.Declares lib)
    (ho : ((alone lib).resolve stamp m.names).outcome = .ok c) :
    c.doesRead a b = true ↔ TransGen m.Requires a b := by
  rw [(stacked_alone ho).doesRead_iff_transGen, h.requires_eq (resolves_of_outcome ho)]

end Declares
end ModuleGraph.Manifest
