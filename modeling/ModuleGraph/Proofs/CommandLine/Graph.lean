import ModuleGraph.CommandLine.Graph
import ModuleGraph.Proofs.Layer
import ModuleGraph.Proofs.Manifest.Library

/-! # Layers of manifests

A manifest makes a layer exactly if it makes a library and the roots resolve over that. The layer
always fits on that of the parent manifest, since the configuration was resolved on its
configuration, and binds every module to the loader named after the file.
-/

namespace ModuleGraph.CommandLine

/-- The manifest in a file makes a library, over which the roots resolve to a configuration. No
roots stand for all modules. -/
def Configures (file : FileBytes) (stamp : Nat) (roots : List String)
    (parents : List Configuration) (c : Configuration) : Prop :=
  ∃ m lib, Manifest.IsIn m file ∧ m.Declares lib ∧
    (Resolver.resolve ⟨.library lib, .empty, parents⟩ stamp
      (if roots = [] then m.names else roots)).outcome = .ok c

/-- The manifests of a graph resolve to a configuration, that of the parent first. -/
inductive GraphOptions.Configures (files : Files) (g : GraphOptions) : Configuration → Prop
  | alone {c : Configuration} : g.parent? = none →
      CommandLine.Configures (files g.manifest) 1 g.roots [] c → Configures files g c
  | onParent {path : String} {p c : Configuration} : g.parent? = some path →
      CommandLine.Configures (files path) 0 g.parentRoots [] p →
      CommandLine.Configures (files g.manifest) 1 g.roots [p] c → Configures files g c

/-- The layer of a configuration with one loader for all modules. -/
def layerOf (path : String) (parent : Option Layer) (c : Configuration) : Layer where
  top := ⟨c, Layer.loadersOf (c.modules.keys.map fun n => (n, some path))⟩
  below := (parent.map Layer.frames).getD []

variable {files : Files} {g : GraphOptions} {file : FileBytes} {stamp : Nat}
  {roots : List String} {parents : List Configuration} {c c' : Configuration}
  {path n : String} {parent : Option Layer}

theorem Configures.unique (h : Configures file stamp roots parents c)
    (h' : Configures file stamp roots parents c') : c = c' := by
  obtain ⟨m, lib, hm, hl, ho⟩ := h
  obtain ⟨m', lib', hm', hl', ho'⟩ := h'
  obtain rfl := hm.unique hm'
  obtain rfl := hl.unique hl'
  exact Except.ok.inj (ho.symm.trans ho')

theorem GraphOptions.Configures.unique (h : g.Configures files c)
    (h' : g.Configures files c') : c = c' := by
  cases h with
  | alone hp hc =>
    cases h' with
    | alone _ hc' => exact hc.unique hc'
    | onParent hp' => cases hp.symm.trans hp'
  | onParent hp hq hc =>
    cases h' with
    | alone hp' => cases hp.symm.trans hp'
    | onParent hp' hq' hc' =>
      obtain rfl := Option.some.inj (hp.symm.trans hp')
      obtain rfl := hq.unique hq'
      exact hc.unique hc'

theorem bindAll_const (path : String) : ∀ names : List String,
    ((Layer.bindAll (fun _ => return some path) names : StateM Unit _).run ()).1 =
      names.map fun n => (n, some path)
  | [] => rfl
  | n :: names => congrArg ((n, some path) :: ·) (bindAll_const path names)

theorem create_const (h : ∀ p ∈ parent, p.configuration ∈ c.parents) :
    ((Layer.create c parent fun _ => return some path).run ()).1 = .ok (layerOf path parent c) := by
  have hf : parent.all (Layer.fits c) = true := by
    rw [Option.all_eq_true]
    intro p hp
    exact Layer.fits_iff.2 (.inl (h p hp))
  rw [Layer.create_run, if_pos hf, Layer.answers, bindAll_const, layerOf]

theorem findLoader?_layerOf (hn : n ∈ c.modules) :
    (layerOf path parent c).findLoader? n = some path := by
  have hk : ((c.modules.keys.map fun n => (n, some path)).map (·.1)).Nodup := by
    simpa [Function.comp_def] using c.modules.nodup_keys
  have hg : (layerOf path parent c).top.loaders.get? n = some path :=
    (Layer.get?_loadersOf_iff hk).2 (List.mem_map_of_mem (NameMap.mem_keys.2 hn))
  rw [Layer.findLoader?, Layer.frames, List.findSome?_cons, hg]

theorem resolveLayer_eq (files : Files) (stamp : Nat) (path : String) (roots : List String)
    (parent : Option Layer) : resolveLayer files stamp path roots parent =
      match Manifest.ofFile (files path) with
      | .error e => .error (.load path e)
      | .ok m =>
        match m.library with
        | .error e => .error (.library path e)
        | .ok lib =>
          match (Resolver.resolve ⟨.library lib, .empty, (parent.map (·.configuration)).toList⟩
            stamp (if roots = [] then m.names else roots)).outcome with
          | .error e => .error (.resolve path e)
          | .ok c => ((Layer.create c parent fun _ => return some path).run ()).1.mapError
              .layer := by
  rw [resolveLayer, loadManifest]
  cases Manifest.ofFile (files path) with
  | error e => rfl
  | ok m =>
    dsimp only [Except.mapError, bind, Except.bind]
    cases m.library with
    | error e => rfl
    | ok lib =>
      dsimp only
      cases (Resolver.resolve ⟨.library lib, .empty, (parent.map (·.configuration)).toList⟩
        stamp (if roots = [] then m.names else roots)).outcome with
      | error e => rfl
      | ok c => rfl

/-- A manifest in a file makes the layer of its configuration. Otherwise it fails, but not for
want of a parent. -/
theorem resolveLayer_cases (files : Files) (stamp : Nat) (path : String) (roots : List String)
    (parent : Option Layer) :
    (∃ c, Configures (files path) stamp roots (parent.map (·.configuration)).toList c ∧
      resolveLayer files stamp path roots parent = .ok (layerOf path parent c)) ∨
    (∀ c, ¬ Configures (files path) stamp roots (parent.map (·.configuration)).toList c) ∧
      ∃ f, resolveLayer files stamp path roots parent = .error f ∧ ∀ e, f ≠ .layer e := by
  rw [resolveLayer_eq]
  rcases hm : Manifest.ofFile (files path) with e | m
  · refine .inr ⟨?_, .load path e, rfl, nofun⟩
    rintro c ⟨m, lib, hi, hl, -⟩
    cases hm.symm.trans (Manifest.ofFile_eq_ok_iff.2 ⟨hi, hl.described⟩)
  obtain ⟨hi, -⟩ := Manifest.ofFile_eq_ok_iff.1 hm
  dsimp only
  rcases hl : m.library with e | lib
  · refine .inr ⟨?_, .library path e, rfl, nofun⟩
    rintro c ⟨m', lib, hi', hl', -⟩
    obtain rfl := hi.unique hi'
    cases hl.symm.trans (Manifest.library_eq_ok_iff.2 hl')
  have hd := Manifest.declares_of_library hl
  dsimp only
  cases ho : (Resolver.resolve ⟨.library lib, .empty, (parent.map (·.configuration)).toList⟩ stamp
    (if roots = [] then m.names else roots)).outcome with
  | error e =>
    refine .inr ⟨?_, .resolve path e, rfl, nofun⟩
    rintro c ⟨m', lib', hi', hl', ho'⟩
    obtain rfl := hi.unique hi'
    obtain rfl := hd.unique hl'
    cases ho.symm.trans ho'
  | ok c =>
    refine .inl ⟨c, ⟨m, lib, hi, hd, ho⟩, ?_⟩
    -- The configuration stands on that of the parent layer, so the layer fits there.
    have hp : c.parents = (parent.map (·.configuration)).toList :=
      (Resolver.resolves_of_outcome ho).parents
    dsimp only
    rw [create_const]
    · rfl
    · intro p hq
      rw [hp, Option.mem_def.1 hq]
      exact List.mem_singleton_self _

/-- The options of a graph make a layer of the configuration asked for. Otherwise making it fails,
but not for want of a parent. -/
theorem buildLayer_cases (files : Files) (g : GraphOptions) :
    (∃ c parent, g.Configures files c ∧
      buildLayer files g = .ok (layerOf g.manifest parent c)) ∨
    (∀ c, ¬ g.Configures files c) ∧
      ∃ f, buildLayer files g = .error f ∧ ∀ e, f ≠ .layer e := by
  rw [buildLayer]
  rcases hg : g.parent? with _ | path
  · rcases resolveLayer_cases files 1 g.manifest g.roots none with ⟨c, hc, hl⟩ | ⟨hn, f, hf⟩
    · exact .inl ⟨c, none, .alone hg hc, hl⟩
    · refine .inr ⟨?_, f, hf⟩
      rintro c (⟨-, hc⟩ | ⟨hp, -⟩)
      · exact hn c hc
      · cases hg.symm.trans hp
  rcases resolveLayer_cases files 0 path g.parentRoots none with ⟨p, hp, hl⟩ | ⟨hn, f, hf, hne⟩
  · rw [Option.mapM_some, hl]
    rcases resolveLayer_cases files 1 g.manifest g.roots (some (layerOf path none p)) with
      ⟨c, hc, hl⟩ | ⟨hn, f, hf⟩
    · exact .inl ⟨c, some (layerOf path none p), .onParent hg hp hc, hl⟩
    · refine .inr ⟨?_, f, hf⟩
      rintro c (⟨hq, -⟩ | ⟨hq, hp', hc⟩)
      · cases hg.symm.trans hq
      · obtain rfl := Option.some.inj (hg.symm.trans hq)
        obtain rfl := hp.unique hp'
        exact hn c hc
  · refine .inr ⟨?_, f, ?_, hne⟩
    · rintro c (⟨hq, -⟩ | ⟨hq, hp, -⟩)
      · cases hg.symm.trans hq
      · obtain rfl := Option.some.inj (hg.symm.trans hq)
        exact hn _ hp
    · rw [Option.mapM_some, hf]
      rfl

end ModuleGraph.CommandLine
