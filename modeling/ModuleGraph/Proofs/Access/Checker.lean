import Mathlib.Data.Set.Card
import ModuleGraph.Access.Checker
import ModuleGraph.Proofs.Configuration.Reachable

/-! # Runs of a checker

A checker asked any number of questions answers each one as if it kept no verdicts. It keeps one
verdict for each query among them whose target owns the package, so other queries leave it as it
is.
-/

namespace ModuleGraph

open ModuleGraph.Configuration

namespace AccessQuery

/-- The verdict of a configuration, none kept. -/
def verdict (c : Configuration) (q : AccessQuery) : Access :=
  Access.check c q.requester q.target q.package

/-- The target is a visible module that owns the package. -/
def IsOwned (c : Configuration) (q : AccessQuery) : Prop :=
  ∃ b d, q.target = .named b ∧ c.find? b = some d ∧ d.owns q.package = true

end AccessQuery

namespace Checker

/-- What a checker can be asked: about a package, or about a type. -/
inductive Call where
  | package (q : AccessQuery)
  | type (requester target : ModuleRef) (typeName : String)

def Call.query : Call → AccessQuery
  | package q => q
  | type requester target typeName => ⟨requester, target, packageOf typeName⟩

def ask (k : Checker) : Call → Access × Checker
  | .package q => k.check q
  | .type requester target typeName => k.checkType requester target typeName

/-- Asks one thing after the other, each of the checker that the one before left. -/
def run (k : Checker) : List Call → List Access × Checker
  | [] => ([], k)
  | call :: calls =>
    let (verdict, k) := k.ask call
    let (verdicts, k) := run k calls
    (verdict :: verdicts, k)

variable {c : Configuration} {k : Checker} {asked : List AccessQuery} {q : AccessQuery}
  {a : Access}

theorem isOwned_iff : isOwned c q = true ↔ q.IsOwned c := by
  rw [isOwned, AccessQuery.IsOwned]
  cases q.target with
  | unnamed n => simp [ModuleRef.name?]
  | named b => simp [ModuleRef.name?, Option.any_eq_true]

theorem ask_eq (call : Call) : k.ask call = k.check call.query := by
  cases call <;> rfl

theorem mem_of_lookup (h : k.verdicts.lookup q = some a) : (q, a) ∈ k.verdicts := by
  obtain ⟨l, r, he, -⟩ := List.lookup_eq_some_iff.1 h
  rw [he]
  simp

theorem not_mem_of_lookup (h : k.verdicts.lookup q = none) : ∀ a, (q, a) ∉ k.verdicts := by
  intro a ha
  simpa using List.lookup_eq_none_iff.1 h (q, a) ha

theorem check_of_kept (h : k.verdicts.lookup q = some a) : k.check q = (a, k) := by
  rw [check, h]

theorem check_of_owned (h : k.verdicts.lookup q = none) (ho : q.IsOwned k.configuration) :
    k.check q = (q.verdict k.configuration,
      { k with verdicts := (q, q.verdict k.configuration) :: k.verdicts }) := by
  rw [check, h]
  dsimp only
  rw [if_pos (isOwned_iff.2 ho)]
  rfl

theorem check_of_not_owned (h : k.verdicts.lookup q = none) (ho : ¬ q.IsOwned k.configuration) :
    k.check q = (q.verdict k.configuration, k) := by
  rw [check, h]
  dsimp only
  rw [if_neg (isOwned_iff.not.2 ho)]
  rfl

theorem snd_check_of_not_owned (ho : ¬ q.IsOwned k.configuration) : (k.check q).2 = k := by
  cases hl : k.verdicts.lookup q with
  | some a => rw [check_of_kept hl]
  | none => rw [check_of_not_owned hl ho]

/-- A checker keeps the verdicts on the owned queries among those asked, each once. -/
structure Keeps (c : Configuration) (asked : List AccessQuery) (k : Checker) : Prop where
  configuration : k.configuration = c
  nodup : (k.verdicts.map (·.1)).Nodup
  mem_iff : ∀ q a, (q, a) ∈ k.verdicts ↔ q ∈ asked ∧ q.IsOwned c ∧ a = q.verdict c

theorem keeps_new (c : Configuration) : Keeps c [] ⟨c, []⟩ where
  configuration := rfl
  nodup := .nil
  mem_iff := by simp

theorem Keeps.check (h : Keeps c asked k) (q : AccessQuery) :
    (k.check q).1 = q.verdict c ∧ Keeps c (asked ++ [q]) (k.check q).2 := by
  obtain rfl := h.configuration
  cases hl : k.verdicts.lookup q with
  | some a =>
    -- A verdict kept is that of the configuration, on a query that was asked before.
    obtain ⟨hq, -, ha⟩ := (h.mem_iff q a).1 (mem_of_lookup hl)
    rw [check_of_kept hl]
    refine ⟨ha, rfl, h.nodup, fun q' a' => ?_⟩
    rw [h.mem_iff, List.mem_append, List.mem_singleton, or_iff_left_of_imp fun he => he ▸ hq]
  | none =>
    have hq := not_mem_of_lookup hl
    by_cases ho : q.IsOwned k.configuration
    · rw [check_of_owned hl ho]
      refine ⟨rfl, rfl, ?_, fun q' a' => ?_⟩
      · rw [List.map_cons, List.nodup_cons]
        refine ⟨?_, h.nodup⟩
        intro hk
        obtain ⟨⟨q', a⟩, hm, rfl⟩ := List.mem_map.1 hk
        exact hq a hm
      · rw [List.mem_cons, Prod.mk.injEq, h.mem_iff, List.mem_append, List.mem_singleton]
        grind
    · rw [check_of_not_owned hl ho]
      refine ⟨rfl, rfl, h.nodup, fun q' a' => ?_⟩
      rw [h.mem_iff, List.mem_append, List.mem_singleton]
      grind

theorem Keeps.run (h : Keeps c asked k) (calls : List Call) :
    (k.run calls).1 = calls.map (fun call => call.query.verdict c) ∧
      Keeps c (asked ++ calls.map Call.query) (k.run calls).2 := by
  induction calls generalizing asked k with
  | nil => exact ⟨rfl, (List.append_nil asked).symm ▸ h⟩
  | cons call calls ih =>
    obtain ⟨ha, hk⟩ := h.check call.query
    rw [← ask_eq] at ha hk
    obtain ⟨has, hks⟩ := ih hk
    constructor
    · rw [List.map_cons, ← ha, ← has]
      rfl
    · rw [List.append_assoc] at hks
      exact hks

theorem Keeps.size_eq (h : Keeps c asked k) :
    k.size = {q | q ∈ asked ∧ q.IsOwned c}.ncard := by
  have hs : {q | q ∈ asked ∧ q.IsOwned c} = ↑(k.verdicts.map (·.1)).toFinset := by
    ext q
    simp [h.mem_iff]
  rw [hs, Set.ncard_coe_finset, List.toFinset_card_of_nodup h.nodup, List.length_map, size]

/-- Whatever was asked before, a checker gives the verdict of its configuration. The verdicts it
keeps are as many as there are owned queries among those asked, and a query that is not owned adds
none. -/
theorem run_answers (c : Configuration) (calls : List Call) :
    ((Checker.mk c []).run calls).1 =
        calls.map (fun call => Access.check c call.query.requester call.query.target
          call.query.package) ∧
      ((Checker.mk c []).run calls).2.size =
        {q | q ∈ calls.map Call.query ∧ q.IsOwned c}.ncard ∧
      ∀ call : Call, ¬ call.query.IsOwned c →
        (((Checker.mk c []).run calls).2.ask call).2 = ((Checker.mk c []).run calls).2 := by
  obtain ⟨ha, hk⟩ := (keeps_new c).run calls
  refine ⟨ha, hk.size_eq, fun call ho => ?_⟩
  rw [ask_eq]
  apply snd_check_of_not_owned
  rwa [hk.configuration]

/-- A query, the same by a type, one for no package of the target, one of an unnamed module, and one
for a module that is not visible. -/
def appCalls : List Call :=
  [.package ⟨.named "app", .named "core", "core.api"⟩,
    .type (.named "app") (.named "core") "core.api.Client",
    .type (.named "app") (.named "core") "Client",
    .package ⟨.unnamed 1, .named "core", "core.spi"⟩,
    .package ⟨.named "app", .named "missing", "core.api"⟩]

theorem run_answers_appCalls :
    ((Checker.mk app []).run appCalls).1 =
        [.permitted, .permitted, .deniedNotExported, .deniedNotExported, .deniedNotReadable] ∧
      {q | q ∈ appCalls.map Call.query ∧ q.IsOwned app}.ncard = 2 ∧
      (((Checker.mk app []).run appCalls).2.ask
        (.package ⟨.named "core", .named "core", "app.main"⟩)).2.size = 2 := by
  obtain ⟨ha, hs, hn⟩ := run_answers app appCalls
  have hk : ((Checker.mk app []).run appCalls).2.size = 2 := by decide
  have ho : ¬ AccessQuery.IsOwned app ⟨.named "core", .named "core", "app.main"⟩ := by
    rw [← isOwned_iff]
    decide
  refine ⟨ha.trans (by decide), hs.symm.trans hk, ?_⟩
  rw [hn (.package ⟨.named "core", .named "core", "app.main"⟩) ho]
  exact hk

end Checker
end ModuleGraph
