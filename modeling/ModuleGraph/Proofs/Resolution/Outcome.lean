import ModuleGraph.Proofs.Resolution.Packages
import ModuleGraph.Proofs.Resolution.Reads
import ModuleGraph.Proofs.Resolution.Selection

/-! # How resolving ends

Which of five ways resolving ends in is told by the names that the roots reach alone. A missing
name comes before one that hides a module of a parent, this before two owners of one package, and
that before a cycle. Without any of them there is a configuration of exactly the selected modules.
-/

namespace ModuleGraph.Resolver

open Relation

def Conflicts (r : Resolver) (roots : List String) (p n m : String) : Prop :=
  n ≠ m ∧ ∃ d e, r.Selects roots n d ∧ r.Selects roots m e ∧ d.owns p = true ∧ e.owns p = true

def Links (r : Resolver) (roots : List String) (n m : String) : Prop :=
  ∃ d e, r.Selects roots n d ∧ m ∈ d.requires ∧ r.Selects roots m e

def settle (parents : List Configuration) (stamp : Nat) :
    Except ResolutionError Library → Resolution
  | .error e => ⟨[], .error e⟩
  | .ok modules =>
    let r : Resolver := ⟨.empty, .empty, parents⟩
    match checkPackages r.parentOwner? modules with
    | (overlaps, some e) => ⟨overlaps, .error e⟩
    | (overlaps, none) => ⟨overlaps, (dependencyOrder modules).map (r.configure stamp modules)⟩

theorem resolve_eq_settle (r : Resolver) (stamp : Nat) (roots : List String) :
    r.resolve stamp roots = settle r.parents stamp (r.select (.ofList roots)) := by
  unfold resolve settle
  cases r.select (.ofList roots) <;> rfl

structure Resolves (r : Resolver) (roots : List String) (c : Configuration) : Prop where
  parents : c.parents = r.parents
  get?_modules : ∀ n d, c.modules.get? n = some d ↔ r.Selects roots n d
  not_lacks : ∀ n, ¬ r.Lacks roots n
  not_shadows : ∀ n, ¬ r.Shadows roots n
  not_conflict : ∀ p n m, ¬ c.modules.Conflict p n m
  ordered : ∃ order, Order.Legal c.modules order ∧ (∀ n, n ∈ order ↔ n ∈ c.modules) ∧
    c.reads = readsInOrder r.parentReads? c.modules order

inductive EndsIn (r : Resolver) (roots : List String) :
    Except ResolutionError Configuration → Prop
  | lacks {n : String} {m : Option String} : IsLeast {n | r.Lacks roots n} n →
      EndsIn r roots (.error (.moduleNotFound n m))
  | shadows {n : String} : (∀ n, ¬ r.Lacks roots n) → IsLeast {n | r.Shadows roots n} n →
      EndsIn r roots (.error (.duplicateModule n))
  | conflicts {p n m : String} : (∀ n, ¬ r.Lacks roots n) → (∀ n, ¬ r.Shadows roots n) →
      (∃ p n m, r.Conflicts roots p n m) → EndsIn r roots (.error (.namespaceConflict p n m))
  | cycles {path : List String} : (∀ n, ¬ r.Lacks roots n) → (∀ n, ¬ r.Shadows roots n) →
      (∀ p n m, ¬ r.Conflicts roots p n m) → (∃ n, TransGen (r.Links roots) n n) →
      EndsIn r roots (.error (.cycleDetected path))
  | resolves {c : Configuration} : r.Resolves roots c → EndsIn r roots (.ok c)

variable {r : Resolver} {roots : List String} {stamp : Nat} {modules : Library}
  {c : Configuration}

theorem conflict_iff (hm : ∀ n d, modules.get? n = some d ↔ r.Selects roots n d)
    (p n m : String) : modules.Conflict p n m ↔ r.Conflicts roots p n m := by
  simp only [Library.Conflict, Conflicts, hm]

theorem requires_iff (hm : ∀ n d, modules.get? n = some d ↔ r.Selects roots n d)
    (n m : String) : modules.Requires n m ↔ r.Links roots n m := by
  simp only [Library.Requires, Links, NameMap.mem_iff_exists, hm, exists_and_left]

theorem Resolves.acyclic (h : r.Resolves roots c) (n : String) :
    ¬ TransGen c.modules.Requires n n := by
  obtain ⟨order, hl, hm, -⟩ := h.ordered
  exact hl.not_cycle hm n

theorem endsIn_resolve (r : Resolver) (stamp : Nat) (roots : List String) :
    r.EndsIn roots (r.resolve stamp roots).outcome := by
  unfold resolve
  rcases r.select_cases roots with ⟨n, m, hs, hn⟩ | ⟨hl, n, hs, hn⟩ | ⟨hl, hw, modules, hs, hm⟩
  · rw [hs]; exact .lacks hn
  · rw [hs]; exact .shadows hl hn
  rw [hs]
  dsimp only
  rcases hp : checkPackages r.parentOwner? modules with ⟨overlaps, _ | e⟩
  · have hc : ∀ p n m, ¬ modules.Conflict p n m :=
      snd_checkPackages_eq_none_iff.1 (congrArg Prod.snd hp)
    dsimp only
    rcases ho : dependencyOrder modules with e | order
    · obtain ⟨path, rfl, hpath⟩ := Order.isCycle_of_dependencyOrder ho
      obtain ⟨n, hn⟩ := hpath.transGen
      refine .cycles hl hw (fun p n m h => hc p n m ((conflict_iff hm p n m).2 h)) ⟨n, ?_⟩
      exact TransGen.mono (fun a b => (requires_iff hm a b).1) n n hn
    · exact .resolves ⟨rfl, hm, hl, hw, hc, order, (Order.legal_of_dependencyOrder ho).1,
        (Order.legal_of_dependencyOrder ho).2, rfl⟩
  · obtain ⟨p, n, m, rfl⟩ := eq_namespaceConflict (congrArg Prod.snd hp)
    refine .conflicts hl hw ?_
    by_contra hc
    have hn : (checkPackages r.parentOwner? modules).2 = none := by
      refine snd_checkPackages_eq_none_iff.2 fun p n m h => hc ⟨p, n, m, ?_⟩
      exact (conflict_iff hm p n m).1 h
    rw [hp] at hn
    cases hn

theorem Resolves.not_conflicts (h : r.Resolves roots c) (p n m : String) :
    ¬ r.Conflicts roots p n m :=
  fun hc => h.not_conflict p n m ((conflict_iff h.get?_modules p n m).2 hc)

theorem Resolves.not_cycle (h : r.Resolves roots c) (n : String) :
    ¬ TransGen (r.Links roots) n n :=
  fun hc => h.acyclic n (TransGen.mono (fun a b => (requires_iff h.get?_modules a b).2) n n hc)

theorem resolves_of_outcome (h : (r.resolve stamp roots).outcome = .ok c) :
    r.Resolves roots c := by
  have he := endsIn_resolve r stamp roots
  rw [h] at he
  cases he with
  | resolves h => exact h

theorem eq_configure_of_outcome (h : (r.resolve stamp roots).outcome = .ok c) :
    ∃ modules order, c = r.configure stamp modules order := by
  unfold resolve at h
  split at h
  · cases h
  · split at h
    · cases h
    · next modules _ _ _ _ =>
      cases ho : dependencyOrder modules with
      | error e => rw [ho] at h; cases h
      | ok order =>
        rw [ho] at h
        exact ⟨modules, order, (Except.ok.inj h).symm⟩

theorem packages_of_outcome (h : (r.resolve stamp roots).outcome = .ok c) :
    c.packages = Configuration.indexPackages c.modules := by
  obtain ⟨modules, order, rfl⟩ := eq_configure_of_outcome h
  rfl

theorem stamp_of_outcome (h : (r.resolve stamp roots).outcome = .ok c) : c.stamp = stamp := by
  obtain ⟨modules, order, rfl⟩ := eq_configure_of_outcome h
  rfl

theorem exists_outcome (stamp : Nat) (hl : ∀ n, ¬ r.Lacks roots n)
    (hs : ∀ n, ¬ r.Shadows roots n) (hc : ∀ p n m, ¬ r.Conflicts roots p n m)
    (ht : ∀ n, ¬ TransGen (r.Links roots) n n) : ∃ c, (r.resolve stamp roots).outcome = .ok c := by
  have he := endsIn_resolve r stamp roots
  generalize (r.resolve stamp roots).outcome = outcome at he
  cases he with
  | lacks hn => exact (hl _ hn.1).elim
  | shadows _ hn => exact (hs _ hn.1).elim
  | conflicts _ _ h =>
    obtain ⟨p, n, m, h⟩ := h
    exact (hc p n m h).elim
  | cycles _ _ _ h =>
    obtain ⟨n, h⟩ := h
    exact (ht n h).elim
  | @resolves c _ => exact ⟨c, rfl⟩

/-- Modules that another resolver selects without a conflict or a cycle have none. -/
theorem Resolves.exists_outcome {r' : Resolver} {roots' : List String} (h : r.Resolves roots c)
    (stamp : Nat) (hs : ∀ n d, r'.Selects roots' n d → r.Selects roots n d)
    (hl : ∀ n, ¬ r'.Lacks roots' n) (hw : ∀ n, ¬ r'.Shadows roots' n) :
    ∃ c', (r'.resolve stamp roots').outcome = .ok c' := by
  refine Resolver.exists_outcome stamp hl hw ?_ ?_
  · rintro p n m ⟨hne, d, e, hd, he, ho⟩
    exact h.not_conflicts p n m ⟨hne, d, e, hs n d hd, hs m e he, ho⟩
  · intro n hn
    refine h.not_cycle n (TransGen.mono ?_ n n hn)
    rintro a b ⟨d, e, hd, hb, he⟩
    exact ⟨d, e, hs a d hd, hb, hs b e he⟩

/-- Roots that other roots reach resolve if those do. -/
theorem Resolves.exists_of_reaches {roots' : List String} (h : r.Resolves roots c)
    (hr : ∀ k ∈ roots', r.Reaches roots k) (stamp : Nat) :
    ∃ c', (r.resolve stamp roots').outcome = .ok c' := by
  apply h.exists_outcome stamp
  · rintro n d ⟨hn, hd⟩
    exact ⟨hn.trans hr, hd⟩
  · rintro n ⟨hn, hi⟩
    exact h.not_lacks n ⟨hn.trans hr, hi⟩
  · rintro n ⟨hn, hi⟩
    exact h.not_shadows n ⟨hn.trans hr, hi⟩

/-- Resolving gives the least missing name if there is one, else the least name that hides one of
a parent, else a conflict, else a cycle, and a configuration of the selected modules if there is
none of these. -/
theorem resolve_outcome (r : Resolver) (stamp : Nat) (roots : List String) :
    ((∃ n m, (r.resolve stamp roots).outcome = .error (.moduleNotFound n m) ∧
        IsLeast {n | r.Lacks roots n} n) ↔ ∃ n, r.Lacks roots n) ∧
    ((∃ n, (r.resolve stamp roots).outcome = .error (.duplicateModule n) ∧
        IsLeast {n | r.Shadows roots n} n) ↔
      (∀ n, ¬ r.Lacks roots n) ∧ ∃ n, r.Shadows roots n) ∧
    ((∃ p n m, (r.resolve stamp roots).outcome = .error (.namespaceConflict p n m)) ↔
      (∀ n, ¬ r.Lacks roots n) ∧ (∀ n, ¬ r.Shadows roots n) ∧
        ∃ p n m, r.Conflicts roots p n m) ∧
    ((∃ path, (r.resolve stamp roots).outcome = .error (.cycleDetected path)) ↔
      (∀ n, ¬ r.Lacks roots n) ∧ (∀ n, ¬ r.Shadows roots n) ∧
        (∀ p n m, ¬ r.Conflicts roots p n m) ∧ ∃ n, TransGen (r.Links roots) n n) ∧
    ((∃ c, (r.resolve stamp roots).outcome = .ok c ∧
        ∀ n d, c.modules.get? n = some d ↔ r.Selects roots n d) ↔
      (∀ n, ¬ r.Lacks roots n) ∧ (∀ n, ¬ r.Shadows roots n) ∧
        (∀ p n m, ¬ r.Conflicts roots p n m) ∧ ∀ n, ¬ TransGen (r.Links roots) n n) := by
  have he := endsIn_resolve r stamp roots
  generalize (r.resolve stamp roots).outcome = outcome at he
  cases he with
  | @lacks n m hn =>
    have hl : ∃ n, r.Lacks roots n := ⟨n, hn.1⟩
    have hnl : ¬ ∀ n, ¬ r.Lacks roots n := not_forall_not.2 hl
    simp [hn, hl, hnl]
  | @shadows n hl hn =>
    have hs : ∃ n, r.Shadows roots n := ⟨n, hn.1⟩
    have hns : ¬ ∀ n, ¬ r.Shadows roots n := not_forall_not.2 hs
    simp [hl, hn, hs, hns]
  | conflicts hl hs hc => simp [hl, hs, hc]
  | cycles hl hs hc ht => simp [hl, hs, hc, ht]
  | resolves h =>
    simp [h.not_lacks, h.not_shadows, h.not_conflicts, h.not_cycle, h.get?_modules]

end ModuleGraph.Resolver
