import ModuleGraph.Proofs.Configuration.Reachable
import ModuleGraph.Proofs.Module.Declaration

/-! # Configurations of declared modules

Where finders answer nothing but what was declared, every module of a configuration is well formed.
All visible modules then have qualified names, and so have the packages that they own.
-/

namespace ModuleGraph

/-- A descriptor that some declaration has. -/
def Descriptor.IsDeclared (d : Descriptor) : Prop := ∃ x : Declaration, x.descriptor = .ok d

theorem Descriptor.IsDeclared.wellFormed {d : Descriptor} (h : d.IsDeclared) : d.WellFormed := by
  obtain ⟨x, hx⟩ := h
  exact Declaration.wellFormed_of_descriptor hx

theorem Descriptor.WellFormed.isQualifiedName_of_owns {d : Descriptor} {p : String}
    (h : d.WellFormed) (hp : d.owns p = true) : isQualifiedName p = true := by
  rw [Descriptor.owns, Bool.or_eq_true] at hp
  rcases hp with hp | hp
  · exact h.exports p hp
  · exact (h.concealed p hp).1

def Finder.IsDeclared (f : Finder) : Prop := ∀ n d, f.find n = some d → d.IsDeclared

theorem Finder.isDeclared_empty : Finder.empty.IsDeclared := fun _ _ h => nomatch h

theorem Finder.isDeclared_library {modules : Library} (h : ∀ d ∈ modules.values, d.IsDeclared) :
    (Finder.library modules).IsDeclared :=
  fun n _ hd => h _ (NameMap.mem_values.2 ⟨n, hd⟩)

namespace Configuration

/-- Made of declared modules, by resolving and by deriving with further edges in any order. -/
inductive Declared : Configuration → Prop
  | empty (stamp : Nat) : Declared (empty stamp)
  | resolve {r : Resolver} {stamp : Nat} {roots : List String} {c : Configuration} :
      (∀ p ∈ r.parents, Declared p) → r.finder.IsDeclared → r.afterFinder.IsDeclared →
      (r.resolve stamp roots).outcome = .ok c → Declared c
  | withEdges {stamp : Nat} {edges : List (String × String)} {c c' : Configuration} :
      Declared c → c.withEdges stamp edges = .ok c' → Declared c'

variable {c o p : Configuration} {n : String} {d : Descriptor}

theorem Declared.reachable (h : c.Declared) : c.Reachable := by
  induction h with
  | empty stamp => exact .empty stamp
  | resolve _ _ _ hc ih => exact .resolve ih hc
  | withEdges _ hc ih => exact .withEdges ih hc

theorem Declared.parent (h : c.Declared) (hp : p ∈ c.parents) : p.Declared := by
  induction h with
  | empty stamp => cases hp
  | resolve hr _ _ hc _ => exact hr p ((Resolver.resolves_of_outcome hc).parents ▸ hp)
  | withEdges _ hc ih => exact ih (parents_of_withEdges hc ▸ hp)

theorem Declared.standsOn (h : c.Declared) (ho : c.StandsOn o) : o.Declared := by
  induction ho with
  | refl => exact h
  | tail _ hp ih => exact ih.parent hp

theorem Declared.wellFormed (h : c.Declared) (hd : c.modules.get? n = some d) :
    d.WellFormed ∧ d.name = n := by
  refine ⟨?_, h.reachable.coherent.name n d hd⟩
  induction h with
  | empty stamp => exact absurd (NameMap.mem_of_get? hd) (NameMap.not_mem_empty n)
  | resolve _ hf ha hc _ =>
    obtain ⟨-, hnew⟩ := ((Resolver.resolves_of_outcome hc).get?_modules n d).1 hd
    cases hnew with
    | first hd _ => exact (hf n d hd).wellFormed
    | second _ _ hd _ => exact (ha n d hd).wellFormed
  | withEdges _ hc ih => exact ih (modules_of_withEdges hc ▸ hd)

theorem Declared.wellFormed_of_find? (h : c.Declared) (hd : c.find? n = some d) :
    d.WellFormed ∧ d.name = n := by
  obtain ⟨o, ho, hd⟩ := find?_eq_some_iff.1 hd
  exact (h.standsOn (standsOn_of_ownerOf? ho).1).wellFormed hd

theorem Declared.isQualifiedName (h : c.Declared) (hv : c.isVisible n = true) :
    isQualifiedName n = true := by
  obtain ⟨d, hd⟩ := Option.isSome_iff_exists.1 hv
  obtain ⟨hw, rfl⟩ := h.wellFormed_of_find? hd
  exact hw.name

theorem isDeclared_coreModule : coreModule.IsDeclared :=
  ⟨⟨"core", [], [⟨"core.api", none⟩, ⟨"core.spi", some ["app"]⟩], []⟩, by decide⟩

theorem isDeclared_appModule : appModule.IsDeclared :=
  ⟨⟨"app", ["core"], [], ["app.main"]⟩, by decide⟩

theorem declared_core : core.Declared := by
  have hf : (Finder.library core.modules).IsDeclared := Finder.isDeclared_library
    (List.forall_mem_singleton.2 isDeclared_coreModule)
  exact @Declared.resolve ⟨.library core.modules, .empty, []⟩ 0 ["core"] _ (by simp) hf
    Finder.isDeclared_empty (by rfl)

theorem declared_app : app.Declared := by
  have hf : (Finder.library app.modules).IsDeclared := Finder.isDeclared_library
    (List.forall_mem_singleton.2 isDeclared_appModule)
  exact @Declared.resolve ⟨.library app.modules, .empty, [core]⟩ 1 ["app"] _
    (by simp [declared_core]) hf Finder.isDeclared_empty (by rfl)

end Configuration
end ModuleGraph
