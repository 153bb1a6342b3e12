import ModuleGraph.Proofs.Finder.Composition
import ModuleGraph.Proofs.Resolution.Locality

/-! # A second finder after the parents, or composed with the first

A second finder is asked after the parents, a finder composed with the first before them. What the
roots reach looks the same either way unless the composed finder hides a module of a parent, which
without parents is nothing and which no resolution to a configuration lets pass.
-/

namespace ModuleGraph

/-- What it answers carries the name asked for. -/
def Finder.AnswersByName (f : Finder) : Prop := ∀ n d, f.find n = some d → d.name = n

theorem Finder.Built.answersByName {f : Finder} (h : f.Built) : f.AnswersByName := by
  obtain ⟨l, hl⟩ := h.exists_actsAs
  intro n d hd
  exact (hl.find_eq_some_iff.1 hd).2

namespace Resolver

open Finder ModuleGraph.Configuration

variable {a b : Finder} {ps : List Configuration} {roots : List String} {n : String}

/-- An answer of the first finder is never passed over for its name, so none of the second is
missed. -/
theorem answer?_compose (ha : a.AnswersByName) (n : String) :
    answer? (compose a b) n = (answer? a n).or (answer? b n) := by
  have hfind : (compose a b).find n = (a.find n).or (b.find n) := by
    rw [compose, find, findFirst, findFirst, findFirst, Option.or_none]
  rw [answer?, answer?, answer?, hfind]
  cases hd : a.find n with
  | none => rfl
  | some d => simp [Option.filter_some, ha n d hd]

theorem look_compose (ha : a.AnswersByName)
    (hs : IsInherited ⟨compose a b, .empty, ps⟩ n → answer? (compose a b) n = none) :
    look ⟨compose a b, .empty, ps⟩ n = look ⟨a, b, ps⟩ n := by
  rw [← isInherited_iff] at hs
  unfold look
  dsimp only at hs ⊢
  rw [answer?_compose ha] at hs ⊢
  cases hd : answer? a n with
  | some d => rfl
  | none =>
    rw [hd, Option.none_or] at hs
    rw [Option.none_or]
    cases hi : ps.any (·.isVisible n) with
    | true => simp only [hs hi, if_true]
    | false => cases answer? b n <;> rfl

/-- Where the composed finder hides no module of a parent, both ways are one. -/
theorem resolve_compose_of_not_shadows (ha : a.AnswersByName) (stamp : Nat)
    (hs : ∀ n, ¬ Shadows ⟨compose a b, .empty, ps⟩ roots n) :
    resolve ⟨compose a b, .empty, ps⟩ stamp roots = resolve ⟨a, b, ps⟩ stamp roots := by
  apply resolve_congr
  intro n hn
  apply look_compose ha
  intro hi
  rw [answer?_eq_none_iff]
  intro d hd hdn
  exact hs n ⟨hn, hi, d, hd, hdn⟩

/-- Without parents it is the same to compose a finder after another one and to ask it second. With
parents it is the same wherever the composed finder leads to a configuration. -/
theorem resolve_compose (a b : Finder) (ha : a.AnswersByName) (stamp : Nat) (roots : List String) :
    resolve ⟨compose a b, .empty, []⟩ stamp roots = resolve ⟨a, b, []⟩ stamp roots ∧
    ∀ ps c, (resolve ⟨compose a b, .empty, ps⟩ stamp roots).outcome = .ok c →
      resolve ⟨compose a b, .empty, ps⟩ stamp roots = resolve ⟨a, b, ps⟩ stamp roots := by
  constructor
  · apply resolve_compose_of_not_shadows ha
    rintro n ⟨-, ⟨p, hp, -⟩, -⟩
    cases hp
  · intro ps c hc
    exact resolve_compose_of_not_shadows ha stamp (resolves_of_outcome hc).not_shadows

def toolsOnly : Library := .ofList [("tools", ⟨"tools", .ofList ["app", "core"], ∅, ∅⟩)]

theorem answersByName_app : (library app.modules).AnswersByName := by
  have h : Library.of app.modules.values = .ok app.modules := by rfl
  exact (Built.library h).answersByName

/-- Above `core`, the modules `app` and `tools` come of two finders in either arrangement. -/
theorem resolve_compose_tools : (library app.modules).AnswersByName ∧
    resolve ⟨compose (library app.modules) (library core.modules), .empty, []⟩ 1 ["app"] =
      resolve ⟨library app.modules, library core.modules, []⟩ 1 ["app"] ∧
    ∃ c, (resolve ⟨compose (library app.modules) (library toolsOnly), .empty, [core]⟩ 1
        ["tools"]).outcome = .ok c ∧
      (resolve ⟨library app.modules, library toolsOnly, [core]⟩ 1 ["tools"]).outcome = .ok c ∧
      c.modules = appAndTools := by
  have hc : (resolve ⟨compose (library app.modules) (library toolsOnly), .empty, [core]⟩ 1
      ["tools"]).outcome =
      .ok (configure ⟨.empty, .empty, [core]⟩ 1 appAndTools ["app", "tools"]) := by rfl
  obtain ⟨hsame, -⟩ := resolve_compose (library app.modules) (library core.modules)
    answersByName_app 1 ["app"]
  obtain ⟨-, hok⟩ := resolve_compose (library app.modules) (library toolsOnly)
    answersByName_app 1 ["tools"]
  exact ⟨answersByName_app, hsame, _, hc, hok [core] _ hc ▸ hc, rfl⟩

/-- With parents, a composed finder may be refused where a second one is not even asked. -/
example : (resolve ⟨compose (library app.modules) (library core.modules), .empty, [core]⟩ 1
      ["app"]).outcome = .error (.duplicateModule "core") ∧
    (resolve ⟨library app.modules, library core.modules, [core]⟩ 1 ["app"]).outcome = .ok app := by
  exact ⟨by rfl, by rfl⟩

end Resolver
end ModuleGraph
