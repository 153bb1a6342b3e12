import ModuleGraph.Proofs.Configuration.Unanimity
import ModuleGraph.Proofs.Resolution.Outcome

/-! # Names that are not reached

Resolving asks its finders about the names that the roots reach and about no others, and its second
finder only about those that neither the finder nor a parent has. Walks whose lookups agree on what
the first of them reaches take the same steps, so all else that the finders hold changes nothing.
-/

namespace ModuleGraph

namespace Walk

variable {look look' : String → Lookup} {roots : NameSet} {w : Walk}

theorem step_congr (i : Inv look roots w) (h : ∀ n, Reached look roots n → look n = look' n) :
    step look w = step look' w := by
  cases hq : w.queue with
  | nil => simp only [step, hq]
  | cons e q =>
    have hr : Reached look roots e.1 := by
      apply i.queue_reached
      simp [hq]
    simp only [step, hq, visit, h e.1 hr]

/-- Both walks stay at what the first one reaches, where they look up the same. -/
theorem run_congr (l : Nat) (i : Inv look roots w)
    (h : ∀ n, Reached look roots n → look n = look' n) : run look l w = run look' l w := by
  induction l generalizing w with
  | zero => rfl
  | succ l ih => rw [run, run, ← step_congr i h, ih i.step]

end Walk

namespace Resolver

open ModuleGraph.Configuration

variable {f f' g g' : Finder} {ps : List Configuration} {roots : List String} {n : String}

theorem look_congr (hf : f.find n = f'.find n)
    (hg : (∀ d, f.find n = some d → d.name ≠ n) → ¬ IsInherited ⟨f, g, ps⟩ n →
      g.find n = g'.find n) : look ⟨f, g, ps⟩ n = look ⟨f', g', ps⟩ n := by
  have ha : answer? f n = answer? f' n := by rw [answer?, answer?, hf]
  unfold look
  simp only [← ha]
  cases hd : answer? f n with
  | some d => rfl
  | none =>
    by_cases hi : IsInherited ⟨f, g, ps⟩ n
    · have hp : (ps.any (·.isVisible n)) = true := isInherited_iff.2 hi
      simp only [hp, if_true]
    · have hb : answer? g n = answer? g' n := by
        rw [answer?, answer?, hg (answer?_eq_none_iff.1 hd) hi]
      simp only [hb]

theorem walk_congr
    (h : ∀ n, Reaches ⟨f, g, ps⟩ roots n → look ⟨f, g, ps⟩ n = look ⟨f', g', ps⟩ n) :
    walk ⟨f, g, ps⟩ (.ofList roots) = walk ⟨f', g', ps⟩ (.ofList roots) := by
  refine walk_pair (P := fun w w' => w = w') fun l => ?_
  apply Walk.run_congr l (Walk.inv_start _ _)
  intro n hn
  exact h n (reached_iff.1 hn)

theorem resolve_congr (stamp : Nat)
    (h : ∀ n, Reaches ⟨f, g, ps⟩ roots n → look ⟨f, g, ps⟩ n = look ⟨f', g', ps⟩ n) :
    resolve ⟨f, g, ps⟩ stamp roots = resolve ⟨f', g', ps⟩ stamp roots := by
  rw [resolve_eq_settle, resolve_eq_settle, select_eq, select_eq, walk_congr h]

/-- No name is missing, so a second finder has none to answer. -/
theorem not_lacks_of_outcome {r : Resolver} {stamp : Nat}
    (h : ∀ n m, (r.resolve stamp roots).outcome ≠ .error (.moduleNotFound n m)) (n : String) :
    ¬ r.Lacks roots n := by
  have he := endsIn_resolve r stamp roots
  generalize (r.resolve stamp roots).outcome = outcome at he h
  cases he with
  | lacks => exact (h _ _ rfl).elim
  | shadows hl => exact hl n
  | conflicts hl => exact hl n
  | cycles hl => exact hl n
  | resolves hc => exact hc.not_lacks n

/-- Finders that answer alike what the roots reach, and second finders that answer alike what
neither the finder nor a parent has of it, lead to the same resolution. So without a missing name
it does not matter whether there is a second finder. -/
theorem resolve_eq_of_reaches (f f' g g' : Finder) (ps : List Configuration) (stamp : Nat)
    (roots : List String) :
    ((∀ n, Reaches ⟨f, g, ps⟩ roots n → f.find n = f'.find n) →
      (∀ n, Reaches ⟨f, g, ps⟩ roots n → (∀ d, f.find n = some d → d.name ≠ n) →
        ¬ IsInherited ⟨f, g, ps⟩ n → g.find n = g'.find n) →
      resolve ⟨f, g, ps⟩ stamp roots = resolve ⟨f', g', ps⟩ stamp roots) ∧
    ((∀ n m, (resolve ⟨f, .empty, ps⟩ stamp roots).outcome ≠ .error (.moduleNotFound n m)) →
      resolve ⟨f, g, ps⟩ stamp roots = resolve ⟨f, .empty, ps⟩ stamp roots) := by
  constructor
  · intro hf hg
    apply resolve_congr
    intro n hn
    exact look_congr (hf n hn) (hg n hn)
  · intro h
    symm
    apply resolve_congr
    intro n hn
    apply look_congr rfl
    -- A name that the second finder is asked for would be missing without it.
    intro hd hi
    refine (not_lacks_of_outcome h n ⟨hn, hi, ?_⟩).elim
    rintro d (⟨hf, hne⟩ | ⟨-, -, hf, -⟩)
    · exact hd d hf hne
    · cases hf

def appAndTools : Library :=
  .ofList [("app", appModule), ("tools", ⟨"tools", .ofList ["app", "core"], ∅, ∅⟩)]

/-- Neither a module that requires `app` nor another module `core` after that of a parent shows. -/
theorem resolve_eq_of_reaches_app :
    (∀ n, Reaches ⟨.library app.modules, .empty, [core]⟩ ["app"] n →
      (Finder.library app.modules).find n = (Finder.library appAndTools).find n) ∧
    (∀ n, Reaches ⟨.library app.modules, .empty, [core]⟩ ["app"] n →
      (∀ d, (Finder.library app.modules).find n = some d → d.name ≠ n) →
      ¬ IsInherited ⟨.library app.modules, .empty, [core]⟩ n →
      Finder.empty.find n = (Finder.library bareCore.modules).find n) ∧
    (∀ n m, (resolve ⟨.library app.modules, .empty, [core]⟩ 1 ["app"]).outcome ≠
      .error (.moduleNotFound n m)) ∧
    (resolve ⟨.library appAndTools, .library bareCore.modules, [core]⟩ 1 ["app"]).outcome =
      .ok app ∧
    (resolve ⟨.library app.modules, .library bareCore.modules, [core]⟩ 1 ["app"]).outcome =
      .ok app := by
  have ho : (resolve ⟨.library app.modules, .empty, [core]⟩ 1 ["app"]).outcome = .ok app := by rfl
  have hs : (walk ⟨.library app.modules, .empty, [core]⟩ (.ofList ["app"])).seen =
      ["app", "core"] := by rfl
  have hr : ∀ n, Reaches ⟨.library app.modules, .empty, [core]⟩ ["app"] n →
      n = "app" ∨ n = "core" := by
    intro n hn
    simpa [hs] using seen_walk_iff.2 hn
  have hf : ∀ n, Reaches ⟨.library app.modules, .empty, [core]⟩ ["app"] n →
      (Finder.library app.modules).find n = (Finder.library appAndTools).find n := by
    intro n hn
    rcases hr n hn with rfl | rfl <;> rfl
  have hg : ∀ n, Reaches ⟨.library app.modules, .empty, [core]⟩ ["app"] n →
      (∀ d, (Finder.library app.modules).find n = some d → d.name ≠ n) →
      ¬ IsInherited ⟨.library app.modules, .empty, [core]⟩ n →
      Finder.empty.find n = (Finder.library bareCore.modules).find n := by
    intro n hn hd hi
    rcases hr n hn with rfl | rfl
    · exact (hd appModule (by rfl) rfl).elim
    · exact (hi ⟨core, List.mem_cons_self, by decide⟩).elim
  have hm : ∀ n m, (resolve ⟨.library app.modules, .empty, [core]⟩ 1 ["app"]).outcome ≠
      .error (.moduleNotFound n m) := by
    intro n m he
    cases ho.symm.trans he
  obtain ⟨h, h'⟩ := resolve_eq_of_reaches (.library app.modules) (.library appAndTools) .empty
    (.library bareCore.modules) [core] 1 ["app"]
  obtain ⟨-, h''⟩ := resolve_eq_of_reaches (.library app.modules) (.library app.modules)
    (.library bareCore.modules) .empty [core] 1 ["app"]
  refine ⟨hf, hg, hm, ?_, ?_⟩
  · rw [← h hf hg, ho]
  · rw [h'' hm, ho]

end Resolver
end ModuleGraph
