import ModuleGraph.Proofs.Resolution.Visits

/-! # The module that a missing name is told with

A missing name is told alone if it is a root, and else with the module that put it on offer first.
This module is as near to the roots as any that requires the name, and of those at its distance it
is visited first.
-/

namespace ModuleGraph.Resolver

open Walk

/-- A new module that requires a name, no farther from the roots than any other such module and
visited no later than those at its distance. -/
structure FirstRequirer (r : Resolver) (roots : List String) (n m : String) : Prop where
  requires : ∃ d, r.Selects roots m d ∧ n ∈ d.requires
  nearest : ∃ j, r.Distance roots m j ∧ ∀ a d, r.Selects roots a d → n ∈ d.requires →
    ∀ k, r.Distance roots a k → j ≤ k ∧
      (j = k → ∀ order, r.VisitingOrder roots order → order.idxOf m ≤ order.idxOf a)

variable {r : Resolver} {roots : List String} {n m : String} {m? : Option String} {stamp : Nat}
  {before after : List String}

theorem select_of_moduleNotFound
    (h : (r.resolve stamp roots).outcome = .error (.moduleNotFound n m?)) :
    r.select (.ofList roots) = .error (.moduleNotFound n m?) := by
  unfold resolve at h
  split at h
  · next e hs =>
    obtain rfl : e = .moduleNotFound n m? := Except.error.inj h
    exact hs
  · next modules _ =>
    split at h
    · next hp =>
      obtain ⟨p, a, b, rfl⟩ := eq_namespaceConflict (congrArg Prod.snd hp)
      cases h
    · cases ho : dependencyOrder modules with
      | error e =>
        obtain ⟨path, rfl, -⟩ := Order.isCycle_of_dependencyOrder ho
        rw [ho] at h
        cases h
      | ok order =>
        rw [ho] at h
        cases h

theorem get?_missing_of_moduleNotFound
    (h : (r.resolve stamp roots).outcome = .error (.moduleNotFound n m?)) :
    (r.walk (.ofList roots)).missing.get? n = some m? := by
  have hs := select_of_moduleNotFound h
  rw [select_eq, Walk.selection] at hs
  split at hs
  · next hm =>
    cases hs
    rw [NameMap.get?_eq_some_iff, hm]
    exact List.mem_cons_self
  · cases hs
  · cases hs

/-- The first module in the order of visits that requires a name is nearest to the roots. -/
theorem VisitingOrder.firstRequirer (h : r.VisitingOrder roots (before ++ m :: after))
    (hn : n ∈ (r.look m).required) (hb : ∀ a ∈ before, n ∉ (r.look a).required) :
    r.FirstRequirer roots n m := by
  obtain ⟨d, hd, hnd⟩ := mem_required_iff.1 hn
  have hr : r.Reaches roots m := (h.mem_iff m).1 (by simp)
  obtain ⟨j, hj⟩ := hr.exists_distance
  refine ⟨⟨d, ⟨hr, hd⟩, hnd⟩, j, hj, ?_⟩
  rintro a e ⟨hra, he⟩ hne k hk
  have hab : a ∉ before := fun ha => hb a ha (mem_required_iff.2 ⟨e, he, hne⟩)
  have ham : a ∈ m :: after := (List.mem_append.1 ((h.mem_iff a).2 hra)).resolve_left hab
  constructor
  · rcases List.mem_cons.1 ham with rfl | ha
    · exact hj.2 hk.1
    · have hp := (List.pairwise_append.1 (pairwise_noFarther h.visits).1).2.1
      exact ((List.pairwise_cons.1 hp).1 a ha).distance_le hj hk
  · intro _ order ho
    have hmb : m ∉ before := fun hm => hb m hm hn
    rw [ho.unique h, List.idxOf_append_of_notMem hmb, List.idxOf_append_of_notMem hab,
      List.idxOf_cons_self]
    omega

/-- A missing name is told without a module exactly if it is a root, and otherwise with a module
that requires it, the nearest to the roots and of the nearest the first visited. -/
theorem requiredBy_of_moduleNotFound
    (h : (r.resolve stamp roots).outcome = .error (.moduleNotFound n m?)) :
    (∃! order, r.VisitingOrder roots order) ∧ (m? = none ↔ n ∈ roots) ∧
      (n ∉ roots → ∃ m, m? = some m ∧ r.FirstRequirer roots n m) := by
  have ho := visitingOrder_walk r roots
  have hf : (offers r.look (.ofList roots) (r.walk (.ofList roots)).seen).find? (fun e => e.1 = n) =
      some (n, m?) :=
    (inOrder_run r.look (.ofList roots) _).missing n m? (get?_missing_of_moduleNotFound h)
  refine ⟨⟨_, ho, fun order h => h.unique ho⟩, ?_⟩
  rcases (find?_offers_iff (p := fun k => k = n)).1 hf with
    ⟨rfl, hn⟩ | ⟨hroots, before, m, after, hs, rfl, hn, hb⟩
  · have hr : n ∈ roots := by simpa using List.mem_of_find?_eq_some hn
    exact ⟨iff_of_true rfl hr, fun hnr => (hnr hr).elim⟩
  · have hr : n ∉ roots := fun hr => of_decide_eq_false (hroots n (NameSet.mem_ofList.2 hr)) rfl
    rw [hs] at ho
    refine ⟨iff_of_false nofun hr, fun _ => ⟨m, rfl, ho.firstRequirer ?_ fun a ha hna => ?_⟩⟩
    · exact List.mem_of_find?_eq_some hn
    · exact of_decide_eq_false (hb a ha n hna) rfl

/-- Two modules at one distance from the roots `left` and `right` that require a missing one. The
one later by name is visited first. -/
def dangling : Library :=
  .ofList [("left", ⟨"left", .ofList ["zeta"], ∅, ∅⟩),
    ("right", ⟨"right", .ofList ["alpha"], ∅, ∅⟩),
    ("alpha", ⟨"alpha", .ofList ["gone"], ∅, ∅⟩), ("zeta", ⟨"zeta", .ofList ["gone"], ∅, ∅⟩)]

theorem requiredBy_of_moduleNotFound_dangling :
    (resolve ⟨.library dangling, .empty, []⟩ 0 ["right", "left"]).outcome =
        .error (.moduleNotFound "gone" (some "zeta")) ∧
      FirstRequirer ⟨.library dangling, .empty, []⟩ ["right", "left"] "gone" "zeta" := by
  have ho : (resolve ⟨.library dangling, .empty, []⟩ 0 ["right", "left"]).outcome =
      .error (.moduleNotFound "gone" (some "zeta")) := by rfl
  obtain ⟨-, -, h⟩ := requiredBy_of_moduleNotFound ho
  obtain ⟨m, hm, hf⟩ := h (by decide)
  obtain rfl := Option.some.inj hm
  exact ⟨ho, hf⟩

end ModuleGraph.Resolver
