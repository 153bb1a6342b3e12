import ModuleGraph.Proofs.Access
import ModuleGraph.Proofs.Resolution.Outline

/-! # Exports do not interfere

How modules export their packages decides neither whether resolving succeeds nor what is read:
finders that differ in exports alone lead to the same errors and warnings, or to configurations
with the same modules, reads and owners. Only the step from readable to permitted is left to them.
-/

namespace ModuleGraph

namespace Configuration

variable {c c' : Configuration} {n p : String}

theorem readsOf?_outline (c : Configuration) (n : String) :
    c.outline.readsOf? n = c.readsOf? n := by
  by_cases hn : n ∈ c.modules
  · have ho : n ∈ c.outline.modules := Library.mem_outline.2 hn
    rw [readsOf?, readsOf?, ownerOf?_local hn, ownerOf?_local ho]
    rfl
  · have ho : n ∉ c.outline.modules := mt Library.mem_outline.1 hn
    rw [readsOf?_inherited hn, readsOf?_inherited ho]
    rfl

theorem name_packageOwner?_outline (c : Configuration) (p : String) :
    (c.outline.packageOwner? p).map (·.name) = (c.packageOwner? p).map (·.name) := by
  rw [packageOwner?, packageOwner?, search_eq, search_eq]
  change (((c.packages.get? p).map fun owner => c.modules.outline.get? owner).or _).join.map _ = _
  cases c.packages.get? p with
  | none => rfl
  | some owner =>
    rw [Option.map_some, Option.map_some, Option.some_or, Option.some_or, Library.get?_outline]
    cases c.modules.get? owner <;> rfl

theorem readsOf?_eq_of_outline (h : c.outline = c'.outline) (n : String) :
    c.readsOf? n = c'.readsOf? n := by
  rw [← readsOf?_outline c, h, readsOf?_outline]

theorem denied_iff_of_outline (h : c.outline = c'.outline) (requester target : ModuleRef)
    (package : String) :
    Access.check c requester target package = .deniedNotReadable ↔
      Access.check c' requester target package = .deniedNotReadable := by
  have hv : ∀ b, c.isVisible b = c'.isVisible b := by
    intro b
    rw [← isSome_readsOf?, readsOf?_eq_of_outline h, isSome_readsOf?]
  have hr : ∀ b, c.isReadableBy requester b = c'.isReadableBy requester b := by
    intro b
    cases requester with
    | unnamed k => rfl
    | named a => rw [isReadableBy, isReadableBy, doesRead, doesRead, readsOf?_eq_of_outline h]
  rw [Access.check_eq_deniedNotReadable_iff, Access.check_eq_deniedNotReadable_iff]
  simp only [hv, hr]

end Configuration

namespace Resolver

open ModuleGraph.Configuration

variable {f f' g g' : Finder} {n : String} {parents : List Configuration}

theorem alike_answer? (h : f.Alike f') (n : String) :
    Option.Rel Descriptor.Alike (answer? f n) (answer? f' n) := by
  unfold answer?
  have hn := h n
  generalize f.find n = x at hn
  generalize f'.find n = x' at hn
  cases hn with
  | none => exact .none
  | @some d e hd =>
    simp only [Option.filter_some, hd.name]
    split
    · exact .some hd
    · exact .none

theorem outline_look (hf : f.Alike f') (hg : g.Alike g') (n : String) :
    (look ⟨f, g, parents⟩ n).outline = (look ⟨f', g', parents⟩ n).outline := by
  have hfa := alike_answer? hf n
  have hga := alike_answer? hg n
  unfold look
  dsimp only
  generalize answer? f n = x at hfa ⊢
  generalize answer? f' n = x' at hfa ⊢
  cases hfa with
  | some hd => simp only [Lookup.outline, hd.outline_eq]
  | none =>
    generalize answer? g n = y at hga ⊢
    generalize answer? g' n = y' at hga ⊢
    dsimp only
    split
    · rfl
    · cases hga with
      | some hd => simp only [Lookup.outline, hd.outline_eq]
      | none => rfl

theorem outline_walk (hf : f.Alike f') (hg : g.Alike g') (roots : NameSet) :
    (walk ⟨f, g, parents⟩ roots).outline = (walk ⟨f', g', parents⟩ roots).outline := by
  refine walk_pair (P := fun w w' => w.outline = w'.outline) fun l => ?_
  rw [Walk.outline_run, Walk.outline_run, funext (outline_look hf hg)]

theorem outline_select (hf : f.Alike f') (hg : g.Alike g') (roots : NameSet) :
    (select ⟨f, g, parents⟩ roots).map Library.outline =
      (select ⟨f', g', parents⟩ roots).map Library.outline := by
  have hw : (walk ⟨f, g, parents⟩ roots).outline = (walk ⟨f', g', parents⟩ roots).outline :=
    outline_walk hf hg roots
  rw [select_eq, select_eq, Walk.outline_selection, Walk.outline_selection, hw]

theorem outline_resolve (hf : f.Alike f') (hg : g.Alike g') (parents : List Configuration)
    (i j : Nat) (roots : List String) :
    (resolve ⟨f, g, parents⟩ i roots).outline = (resolve ⟨f', g', parents⟩ j roots).outline := by
  rw [resolve_eq_settle, resolve_eq_settle, outline_settle, outline_settle,
    outline_select hf hg]

/-- Resolving with finders that differ in exports alone ends alike: in the same error, or in
configurations with the same modules, reads and owners of packages, in which the same accesses are
denied as unreadable. The overlaps found on the way are the same. -/
theorem resolve_alike (hf : f.Alike f') (hg : g.Alike g') (parents : List Configuration)
    (i j : Nat) (roots : List String) :
    (resolve ⟨f, g, parents⟩ i roots).overlaps = (resolve ⟨f', g', parents⟩ j roots).overlaps ∧
      ((∃ e, (resolve ⟨f, g, parents⟩ i roots).outcome = .error e ∧
          (resolve ⟨f', g', parents⟩ j roots).outcome = .error e) ∨
        ∃ c c', (resolve ⟨f, g, parents⟩ i roots).outcome = .ok c ∧
          (resolve ⟨f', g', parents⟩ j roots).outcome = .ok c' ∧
          (∀ n, n ∈ c.modules ↔ n ∈ c'.modules) ∧
          (∀ n, c.readsOf? n = c'.readsOf? n) ∧
          (∀ p, (c.packageOwner? p).map (·.name) = (c'.packageOwner? p).map (·.name)) ∧
          ∀ requester target package,
            Access.check c requester target package = .deniedNotReadable ↔
              Access.check c' requester target package = .deniedNotReadable) := by
  have h := outline_resolve hf hg parents i j roots
  generalize resolve ⟨f, g, parents⟩ i roots = r at h ⊢
  generalize resolve ⟨f', g', parents⟩ j roots = r' at h ⊢
  obtain ⟨overlaps, outcome⟩ := r
  obtain ⟨overlaps', outcome'⟩ := r'
  obtain ⟨rfl, ho⟩ := Resolution.mk.inj h
  refine ⟨rfl, ?_⟩
  cases outcome with
  | error e =>
    cases outcome' with
    | error e' =>
      obtain rfl : e = e' := Except.error.inj ho
      exact .inl ⟨e, rfl, rfl⟩
    | ok c' => cases ho
  | ok c =>
    cases outcome' with
    | error e' => cases ho
    | ok c' =>
      have hc : c.outline = c'.outline := Except.ok.inj ho
      refine .inr ⟨c, c', rfl, rfl, ?_, ?_, ?_, ?_⟩
      · intro n
        have hm : c.modules.outline = c'.modules.outline := congrArg Configuration.modules hc
        rw [← Library.mem_outline, hm, Library.mem_outline]
      · exact readsOf?_eq_of_outline hc
      · intro p
        rw [← name_packageOwner?_outline c, hc, name_packageOwner?_outline]
      · exact denied_iff_of_outline hc

def appAndCore : Library := .ofList [("app", appModule), ("core", coreModule)]

theorem alike_appAndCore :
    (Finder.library appAndCore).Alike (.library appAndCore.outline) ∧
      Finder.Alike .empty .empty ∧
      ∃ c c', (resolve ⟨.library appAndCore, .empty, []⟩ 0 ["app"]).outcome = .ok c ∧
        (resolve ⟨.library appAndCore.outline, .empty, []⟩ 1 ["app"]).outcome = .ok c' ∧
        c'.readsOf? "app" = some (.ofList ["core"]) ∧
        Access.check c' (.named "core") (.named "app") "app.main" = .deniedNotReadable ∧
        Access.check c (.named "app") (.named "core") "core.api" = .permitted ∧
        Access.check c' (.named "app") (.named "core") "core.api" = .deniedNotExported := by
  have hf : (Finder.library appAndCore).Alike (.library appAndCore.outline) :=
    Finder.alike_outline appAndCore
  have hg : Finder.Alike .empty .empty := fun _ => .none
  have ho : (resolve ⟨.library appAndCore, .empty, []⟩ 0 ["app"]).outcome =
      .ok (configure ⟨.empty, .empty, []⟩ 0 appAndCore ["core", "app"]) := by rfl
  have ho' : (resolve ⟨.library appAndCore.outline, .empty, []⟩ 1 ["app"]).outcome =
      .ok (configure ⟨.empty, .empty, []⟩ 1 appAndCore.outline ["core", "app"]) := by rfl
  obtain ⟨-, ⟨e, he, -⟩ | ⟨c, c', hc, hc', -, hr, -, hd⟩⟩ := resolve_alike hf hg [] 0 1 ["app"]
  · cases ho.symm.trans he
  · refine ⟨hf, hg, c, c', hc, hc', ?_⟩
    obtain rfl := Except.ok.inj (ho.symm.trans hc)
    obtain rfl := Except.ok.inj (ho'.symm.trans hc')
    rw [← hr "app", ← hd]
    refine ⟨?_, ?_, ?_, ?_⟩ <;> decide

end Resolver
end ModuleGraph
