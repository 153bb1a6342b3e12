import ModuleGraph.Proofs.Access
import ModuleGraph.Proofs.Configuration.Consistency
import ModuleGraph.Proofs.Configuration.Unanimity

/-! # Accesses in extensions

A module that was visible before keeps its reads, and all that it reads was visible before too. So
no access that it asks for is decided anew, whatever is added on top of its configuration.
-/

namespace ModuleGraph.Configuration

variable {c p : Configuration} {a b package : String} {target : ModuleRef}

theorem Extends.isVisible_of_doesRead (h : c.Extends p) (hp : p.Reachable)
    (hv : p.isVisible a = true) (hr : c.doesRead a b = true) : p.isVisible b = true := by
  rw [doesRead_congr (h a hv)] at hr
  exact hp.isVisible_of_doesRead hr

/-- A target that the requester reads is one that it has read before, with the same exports. Any
other target is unreadable as it was, even if it has become visible. -/
theorem Extends.check_eq (h : c.Extends p) (hp : p.Reachable) (hv : p.isVisible a = true) :
    Access.check c (.named a) target package = Access.check p (.named a) target package := by
  cases target with
  | unnamed k => rfl
  | named b =>
    by_cases hr : p.doesRead a b = true
    · have hb := hp.isVisible_of_doesRead hr
      exact Access.check_named_congr (h.find?_eq hb) (doesRead_congr (h a hv))
    · have hc : ¬ c.doesRead a b = true := by rwa [doesRead_congr (h a hv)]
      by_cases hab : a = b
      · simp [Access.check, hab]
      · have hne : ModuleRef.named a ≠ .named b := fun he => hab (ModuleRef.named.inj he)
        rw [Access.check_eq_deniedNotReadable_iff.2 ⟨hne, fun hb => hc hb.2⟩,
          Access.check_eq_deniedNotReadable_iff.2 ⟨hne, fun hb => hr hb.2⟩]

end ModuleGraph.Configuration

namespace ModuleGraph.Resolver

open ModuleGraph.Configuration

variable {finder afterFinder : Finder} {p c : Configuration} {ps : List Configuration}
  {stamp : Nat} {roots : List String}

/-- Resolving on parents changes nothing for the modules of the first one: they are the same, they
read the same, and their accesses are decided the same. None of them reads a module that is new or
that only a further parent has. -/
theorem resolve_extends_first (hp : ∀ q ∈ p :: ps, q.Reachable)
    (hc : (Resolver.resolve ⟨finder, afterFinder, p :: ps⟩ stamp roots).outcome = .ok c) :
    (∀ n, p.isVisible n = true → c.find? n = p.find? n ∧ c.readsOf? n = p.readsOf? n) ∧
      (∀ a target package, p.isVisible a = true →
        Access.check c (.named a) target package = Access.check p (.named a) target package) ∧
      ∀ a b, p.isVisible a = true → c.doesRead a b = true →
        p.isVisible b = true ∧ b ∉ c.modules := by
  have hr : c.Reachable := .resolve hp hc
  have hpp : c.parents = p :: ps := (resolves_of_outcome hc).parents
  have hm : p ∈ c.parents := hpp ▸ List.mem_cons_self
  have hpr : p.Reachable := hr.parent hm
  have he : c.Extends p := hr.extends_head hpp
  refine ⟨?_, ?_, ?_⟩
  · intro n hv
    exact ⟨he.find?_eq hv, he.readsOf?_eq hv⟩
  · intro a target package hv
    exact he.check_eq hpr hv
  · intro a b hv hab
    have hb := he.isVisible_of_doesRead hpr hv hab
    exact ⟨hb, hr.coherent.not_mem_of_parent hm hb⟩

end ModuleGraph.Resolver

namespace ModuleGraph.Configuration

/-- The module `app` on two parents with different modules `core`. -/
def appOnBoth : Configuration :=
  Resolver.configure ⟨.empty, .empty, [core, bareCore]⟩ 5 app.modules ["app"]

theorem core_unchanged_in_appOnBoth :
    (∀ q ∈ [core, bareCore], q.Reachable) ∧ core.isVisible "core" = true ∧
      (Resolver.resolve ⟨.library app.modules, .empty, [core, bareCore]⟩ 5 ["app"]).outcome =
        .ok appOnBoth ∧
      appOnBoth.find? "core" = some coreModule ∧
      Access.check appOnBoth (.named "core") (.named "app") "app.main" = .deniedNotReadable ∧
      ¬ appOnBoth.doesRead "core" "app" = true := by
  have hp : ∀ q ∈ [core, bareCore], q.Reachable := by
    simp [stacked_core.reachable, reachable_bareCore]
  have hc : (Resolver.resolve ⟨.library app.modules, .empty, [core, bareCore]⟩ 5
      ["app"]).outcome = .ok appOnBoth := by rfl
  have hv : core.isVisible "core" = true := by decide
  have hn : "app" ∈ appOnBoth.modules := by decide
  obtain ⟨hf, ha, hr⟩ := Resolver.resolve_extends_first hp hc
  refine ⟨hp, hv, hc, (hf "core" hv).1.trans (by rfl), ?_, ?_⟩
  · rw [ha "core" (.named "app") "app.main" hv]
    decide
  · intro h
    exact (hr "core" "app" hv h).2 hn

end ModuleGraph.Configuration
