import ModuleGraph.Proofs.Access.Checker
import ModuleGraph.Proofs.Configuration.Consistency
import ModuleGraph.Proofs.Configuration.Declared
import ModuleGraph.Proofs.Module.Dots

/-! # Accesses by type names

An access to a type is decided by the package of its name, which is what stands before the last
dot. A type name without a dot has the empty package. No declared module owns that one, so such an
access passes only within one module and no verdict on it is kept.
-/

namespace ModuleGraph.Checker

open ModuleGraph.Configuration

variable {c : Configuration} {p : String}

/-- No module in sight owns a package without a qualified name. -/
theorem isOwned_eq_false (h : c.Declared) (hp : ¬ isQualifiedName p = true)
    (requester target : ModuleRef) : isOwned c ⟨requester, target, p⟩ = false := by
  rw [Bool.eq_false_iff, ne_eq, isOwned_iff]
  rintro ⟨b, d, -, hd, ho⟩
  exact hp ((h.wellFormed_of_find? hd).1.isQualifiedName_of_owns ho)

theorem packageOwner?_eq_none (h : c.Declared) (hp : ¬ isQualifiedName p = true) :
    c.packageOwner? p = none := by
  rw [← Option.not_isSome_iff_eq_none, h.reachable.isSome_packageOwner?_iff]
  rintro ⟨o, hs, ho⟩
  have hdecl := h.standsOn hs
  obtain ⟨n, hn⟩ := NameMap.mem_iff_exists.1 ho
  obtain ⟨d, hd, hdp⟩ := hdecl.reachable.get?_packages_iff.1 hn
  exact hp ((hdecl.wellFormed hd).1.isQualifiedName_of_owns hdp)

/-- A qualified name is a list of identifiers joined by dots, and whether a name is one can be told
from its parts at any of its dots. The package of a type name is what stands before its last dot: a
checker decides on it, and it is qualified if the type name is. A type name without a dot is in no
package that any module owns. -/
theorem names_split_at_dots :
    (∀ s, isQualifiedName s = true ↔ ∃ parts : List String, parts ≠ [] ∧
      (∀ part ∈ parts, IsIdentifier part) ∧ s = ".".intercalate parts) ∧
    (∀ a b, isQualifiedName (a ++ "." ++ b) = true ↔
      isQualifiedName a = true ∧ isQualifiedName b = true) ∧
    (∀ p n : String, '.' ∉ n.toList → packageOf (p ++ "." ++ n) = p ∧
      ∀ (k : Checker) (requester target : ModuleRef),
        k.checkType requester target (p ++ "." ++ n) = k.check ⟨requester, target, p⟩) ∧
    (∀ t, isQualifiedName t = true → '.' ∈ t.toList → isQualifiedName (packageOf t) = true) ∧
    ∀ t : String, '.' ∉ t.toList → ∀ c : Configuration, c.Declared →
      c.packageOwner? (packageOf t) = none ∧
      ∀ requester target, isOwned c ⟨requester, target, packageOf t⟩ = false := by
  refine ⟨fun s => isQualifiedName_iff, fun a b => isQualifiedName_append_dot, ?_,
    fun t => isQualifiedName_packageOf, ?_⟩
  · intro p n hn
    have hp : packageOf (p ++ "." ++ n) = p := packageOf_append_dot hn
    exact ⟨hp, fun k requester target => by rw [checkType, hp]⟩
  · intro t ht c hc
    have hempty : ¬ isQualifiedName (packageOf t) = true := by
      rw [packageOf_of_not_mem ht]
      decide
    exact ⟨packageOwner?_eq_none hc hempty, isOwned_eq_false hc hempty⟩

/-- The type `Client` of the package `core.api`, with and without its package. -/
theorem names_split_at_dots_client :
    (Checker.mk app []).checkType (.named "app") (.named "core") "core.api.Client" =
        (Checker.mk app []).check ⟨.named "app", .named "core", "core.api"⟩ ∧
      isQualifiedName (packageOf "core.api.Client") = true ∧
      isOwned app ⟨.named "app", .named "core", packageOf "core.api.Client"⟩ = true ∧
      isOwned app ⟨.named "app", .named "core", packageOf "Client"⟩ = false ∧
      app.packageOwner? (packageOf "Client") = none := by
  obtain ⟨-, -, hcheck, hpackage, hnone⟩ := names_split_at_dots
  obtain ⟨howner, howned⟩ := hnone "Client" (by decide) app declared_app
  refine ⟨(hcheck "core.api" "Client" (by decide)).2 _ _ _, ?_, by decide, howned _ _, howner⟩
  exact hpackage "core.api.Client" (by decide) (by decide)

end ModuleGraph.Checker
