import ModuleGraph.Proofs.Access
import ModuleGraph.Proofs.Resolution.Overlaps

/-! # Redundant parents

A parent that another one stands on adds nothing when it is given once more at the end: every
search comes to it only after it has been through it. Resolving ends the same with and without it.
-/

namespace ModuleGraph

namespace Configuration

/-- Configurations with the same modules and reads of their own that answer every question
alike. -/
structure AnswersLike (c' c : Configuration) : Prop where
  modules : c'.modules = c.modules
  reads : c'.reads = c.reads
  find? : ∀ n, c'.find? n = c.find? n
  readsOf? : ∀ n, c'.readsOf? n = c.readsOf? n
  packageOwner? : ∀ p, c'.packageOwner? p = c.packageOwner? p
  check : ∀ requester target package,
    Access.check c' requester target package = Access.check c requester target package

variable {α : Type} {ps : List Configuration} {q c c' : Configuration}

/-- A search of the last one finds nothing that is not found before if all that stand on it have an
answer whenever it has one. -/
theorem findSome?_concat {f : Configuration → Option α} (hq : ∃ p ∈ ps, p.StandsOn q)
    (hf : ∀ p ∈ ps, p.StandsOn q → (f q).isSome = true → (f p).isSome = true) :
    (ps ++ [q]).findSome? f = ps.findSome? f := by
  obtain ⟨p, hp, hs⟩ := hq
  rw [List.findSome?_append, List.findSome?_singleton]
  cases hps : ps.findSome? f with
  | some x => rfl
  | none =>
    have hfp : f p = none := List.findSome?_eq_none_iff.1 hps p hp
    have hfq : ¬ (f q).isSome = true := fun h => by simpa [hfp] using hf p hp hs h
    rw [Option.none_or, Option.not_isSome_iff_eq_none.1 hfq]

theorem searchAll_concat (f : Configuration → Option α) (hq : ∃ p ∈ ps, p.StandsOn q) :
    searchAll f (ps ++ [q]) = searchAll f ps := by
  rw [searchAll_eq_findSome?, searchAll_eq_findSome?]
  apply findSome?_concat hq
  intro p _ hs h
  obtain ⟨o, ho, hf⟩ := isSome_search_iff.1 h
  exact isSome_search_iff.2 ⟨o, hs.trans ho, hf⟩

theorem findSome?_readsOf?_concat (hq : ∃ p ∈ ps, p.StandsOn q) (n : String) :
    (ps ++ [q]).findSome? (readsOf? n) = ps.findSome? (readsOf? n) := by
  apply findSome?_concat hq
  intro p _ hs h
  rw [isSome_readsOf?] at h ⊢
  exact hs.isVisible h

/-- One more parent that the others stand on changes no answer. -/
theorem answersLike_of_concat (hp : c'.parents = c.parents ++ [q])
    (hq : ∃ p ∈ c.parents, p.StandsOn q) (hm : c'.modules = c.modules) (hr : c'.reads = c.reads)
    (ho : c'.packages = c.packages) : c'.AnswersLike c := by
  have hfind : ∀ n, c'.find? n = c.find? n := by
    intro n
    rw [Configuration.find?, Configuration.find?, search_eq, search_eq, hp, hm,
      searchAll_concat _ hq]
  have hreads : ∀ n, c'.readsOf? n = c.readsOf? n := by
    intro n
    by_cases hn : n ∈ c.modules
    · rw [Configuration.readsOf?, Configuration.readsOf?, ownerOf?_local hn,
        ownerOf?_local (hm ▸ hn), Option.map_some, Option.map_some, hr]
    · rw [readsOf?_inherited hn, readsOf?_inherited (hm ▸ hn), hp, findSome?_readsOf?_concat hq]
  refine ⟨hm, hr, hfind, hreads, fun p => ?_, fun requester target package => ?_⟩
  · rw [Configuration.packageOwner?, Configuration.packageOwner?, search_eq, search_eq, hp, hm, ho,
      searchAll_concat _ hq]
  · apply Access.check_congr hfind
    intro a b
    rw [doesRead, doesRead, hreads]

end Configuration

namespace Resolver

open ModuleGraph.Configuration

variable {f g : Finder} {ps : List Configuration} {q : Configuration} {roots : List String}

theorem parentReads?_concat (hq : ∃ p ∈ ps, p.StandsOn q) :
    parentReads? ⟨f, g, ps ++ [q]⟩ = parentReads? ⟨f, g, ps⟩ := by
  funext n
  exact findSome?_readsOf?_concat hq n

theorem parentOwner?_concat (hr : ∀ p ∈ ps, p.Reachable) (hq : ∃ p ∈ ps, p.StandsOn q) :
    parentOwner? ⟨f, g, ps ++ [q]⟩ = parentOwner? ⟨f, g, ps⟩ := by
  funext package
  refine congrArg (Option.map _) (findSome?_concat hq fun p hp hs h => ?_)
  obtain ⟨o, ho, hm⟩ := (((hr p hp).standsOn hs).isSome_packageOwner?_iff package).1 h
  exact ((hr p hp).isSome_packageOwner?_iff package).2 ⟨o, hs.trans ho, hm⟩

theorem look_concat (hq : ∃ p ∈ ps, p.StandsOn q) :
    look ⟨f, g, ps ++ [q]⟩ = look ⟨f, g, ps⟩ := by
  funext n
  have hv : (ps ++ [q]).any (·.isVisible n) = ps.any (·.isVisible n) := by
    rw [Bool.eq_iff_iff, List.any_append, Bool.or_eq_true, or_iff_left_iff_imp,
      List.any_eq_true (l := ps)]
    intro h
    obtain ⟨p, hp, hs⟩ := hq
    simp only [List.any_cons, List.any_nil, Bool.or_false] at h
    exact ⟨p, hp, hs.isVisible h⟩
  unfold look
  dsimp only
  rw [hv]

theorem select_concat (hq : ∃ p ∈ ps, p.StandsOn q) (roots : NameSet) :
    select ⟨f, g, ps ++ [q]⟩ roots = select ⟨f, g, ps⟩ roots := by
  have hw : walk ⟨f, g, ps ++ [q]⟩ roots = walk ⟨f, g, ps⟩ roots := by
    refine walk_pair (P := fun w w' => w = w') fun l => ?_
    rw [look_concat hq]
  rw [select_eq, select_eq, hw]

theorem settle_concat (hr : ∀ p ∈ ps, p.Reachable) (hq : ∃ p ∈ ps, p.StandsOn q) (i j : Nat)
    (selection : Except ResolutionError Library) :
    (settle (ps ++ [q]) j selection).overlaps = (settle ps i selection).overlaps ∧
      (settle (ps ++ [q]) j selection).outcome = (settle ps i selection).outcome.map fun c =>
        { c with stamp := j, parents := ps ++ [q] } := by
  cases selection with
  | error e => exact ⟨rfl, rfl⟩
  | ok modules =>
    unfold settle
    dsimp only
    rw [parentOwner?_concat hr hq]
    split
    · exact ⟨rfl, rfl⟩
    · refine ⟨rfl, ?_⟩
      cases dependencyOrder modules with
      | error e => rfl
      | ok order =>
        unfold configure
        rw [parentReads?_concat hq]
        rfl

/-- Given once more at the end, a parent or a configuration that a parent stands on changes
nothing: resolving fails with the same error, or makes a configuration that answers every question
like the one made without it. The overlaps found on the way are the same. -/
theorem resolve_redundant_parent (hr : ∀ p ∈ ps, p.Reachable) (hq : ∃ p ∈ ps, p.StandsOn q)
    (f g : Finder) (i j : Nat) (roots : List String) :
    (resolve ⟨f, g, ps ++ [q]⟩ j roots).overlaps = (resolve ⟨f, g, ps⟩ i roots).overlaps ∧
      ((∃ e, (resolve ⟨f, g, ps⟩ i roots).outcome = .error e ∧
          (resolve ⟨f, g, ps ++ [q]⟩ j roots).outcome = .error e) ∨
        ∃ c c', (resolve ⟨f, g, ps⟩ i roots).outcome = .ok c ∧
          (resolve ⟨f, g, ps ++ [q]⟩ j roots).outcome = .ok c' ∧ c'.AnswersLike c) := by
  have hs : resolve ⟨f, g, ps ++ [q]⟩ j roots =
      settle (ps ++ [q]) j (select ⟨f, g, ps⟩ (.ofList roots)) := by
    rw [resolve_eq_settle, select_concat hq]
  obtain ⟨hw, ho⟩ := settle_concat hr hq i j (select ⟨f, g, ps⟩ (.ofList roots))
  rw [← hs, ← resolve_eq_settle ⟨f, g, ps⟩ i roots] at hw ho
  refine ⟨hw, ?_⟩
  cases hc : (resolve ⟨f, g, ps⟩ i roots).outcome with
  | error e =>
    rw [hc] at ho
    exact .inl ⟨e, rfl, ho⟩
  | ok c =>
    rw [hc] at ho
    have hp : c.parents = ps := (resolves_of_outcome hc).parents
    refine .inr ⟨c, { c with stamp := j, parents := ps ++ [q] }, rfl, ho, ?_⟩
    exact answersLike_of_concat (congrArg (· ++ [q]) hp.symm) (hp ▸ hq) rfl rfl rfl

def leftOnly : Library := .ofList [("left", leftModule)]

/-- Below `app` the configuration `core` is searched already, also for the package that `left`
takes from it. -/
theorem resolve_redundant_parent_core :
    (∀ p ∈ [app], p.Reachable) ∧ (∃ p ∈ [app], p.StandsOn core) ∧
      (resolve ⟨.library leftOnly, .empty, [app, core]⟩ 3 ["left"]).overlaps =
        [⟨"core.api", "left", "core"⟩] ∧
      ∃ c c', (resolve ⟨.library leftOnly, .empty, [app]⟩ 2 ["left"]).outcome = .ok c ∧
        (resolve ⟨.library leftOnly, .empty, [app, core]⟩ 3 ["left"]).outcome = .ok c' ∧
        c'.AnswersLike c := by
  have hr : ∀ p ∈ [app], p.Reachable := by simpa using stacked_app.reachable
  have hq : ∃ p ∈ [app], p.StandsOn core :=
    ⟨app, List.mem_singleton_self app, .single (by simp [app, configure])⟩
  have hw : (resolve ⟨.library leftOnly, .empty, [app]⟩ 2 ["left"]).overlaps =
      [⟨"core.api", "left", "core"⟩] := by rfl
  have hc : (resolve ⟨.library leftOnly, .empty, [app]⟩ 2 ["left"]).outcome =
      .ok (configure ⟨.empty, .empty, [app]⟩ 2 leftOnly ["left"]) := by rfl
  obtain ⟨hsame, ⟨e, he, -⟩ | h⟩ :=
    resolve_redundant_parent hr hq (.library leftOnly) .empty 2 3 ["left"]
  · cases hc.symm.trans he
  · exact ⟨hr, hq, hsame.trans hw, h⟩

end Resolver
end ModuleGraph
