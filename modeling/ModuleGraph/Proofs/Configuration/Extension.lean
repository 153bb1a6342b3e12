import ModuleGraph.Proofs.Configuration.Reachable

/-! # Extensions

A configuration extends another if it looks up there whatever is visible there. Every configuration
extends its first parent, whatever modules it adds and whatever its further parents hold.
-/

namespace ModuleGraph.Configuration

/-- What is visible in a configuration is looked up from another one as it is there. -/
def Extends (c p : Configuration) : Prop :=
  ∀ n, p.isVisible n = true → c.ownerOf? n = p.ownerOf? n

variable {c p q : Configuration} {ps : List Configuration} {n : String}

theorem Extends.refl (c : Configuration) : c.Extends c := fun _ _ => rfl

theorem Extends.isVisible (h : c.Extends p) (hv : p.isVisible n = true) :
    c.isVisible n = true := by
  obtain ⟨o, ho⟩ := isVisible_iff.1 hv
  exact isVisible_iff.2 ⟨o, (h n hv).trans ho⟩

theorem Extends.trans (h : c.Extends p) (h' : p.Extends q) : c.Extends q := by
  intro n hv
  rw [h n (h'.isVisible hv), h' n hv]

theorem Extends.find?_eq (h : c.Extends p) (hv : p.isVisible n = true) :
    c.find? n = p.find? n := by
  rw [find?_eq_bind, find?_eq_bind, h n hv]

theorem Extends.readsOf?_eq (h : c.Extends p) (hv : p.isVisible n = true) :
    c.readsOf? n = p.readsOf? n := by
  rw [readsOf?, readsOf?, h n hv]

theorem Reachable.extends_head (h : c.Reachable) (hp : c.parents = p :: ps) : c.Extends p := by
  intro n hv
  have hm : p ∈ c.parents := hp ▸ List.mem_cons_self
  obtain ⟨o, ho⟩ := isVisible_iff.1 hv
  rw [ownerOf?_inherited (h.coherent.not_mem_of_parent hm hv), hp, List.findSome?_cons, ho]

end ModuleGraph.Configuration
