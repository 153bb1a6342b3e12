import ModuleGraph.Layer
import ModuleGraph.Proofs.Configuration.Unanimity

/-! # Lookups in layers

A layer looks names up along the layers below, its configuration along the parents. Both find the
same as long as no layer without modules leads from a configuration to one that it does not stand
on. A loader found is then one that was given for the module found.
-/

namespace ModuleGraph

open ModuleGraph.Configuration

/-- The answers of a binding function, one for each module of a configuration. -/
abbrev Answers := List (String × Option String)

namespace Layer

theorem names_sublist : ∀ as : Answers,
    ((as.filterMap fun a => a.2.map fun x => (a.1, x)).map (·.1)).Sublist (as.map (·.1))
  | [] => .slnil
  | (n, none) :: as => (names_sublist as).cons n
  | (n, some _) :: as => (names_sublist as).cons_cons n

theorem get?_loadersOf_iff {as : Answers} {n x : String} (h : (as.map (·.1)).Nodup) :
    (loadersOf as).get? n = some x ↔ (n, some x) ∈ as := by
  rw [loadersOf, NameMap.get?_ofList_iff ((names_sublist as).nodup h), List.mem_filterMap]
  simp

end Layer

structure Frame.Bound (f : Frame) (answers : Answers) : Prop where
  reachable : f.configuration.Reachable
  names : answers.map (·.1) = f.configuration.modules.keys
  loaders : f.loaders = Layer.loadersOf answers

namespace Frame.Bound

variable {f : Frame} {as : Answers} {n x : String} {a b : Option String}

theorem nodup_names (h : f.Bound as) : (as.map (·.1)).Nodup :=
  h.names ▸ NameMap.nodup_keys _

theorem mem_modules (h : f.Bound as) (hn : (n, a) ∈ as) : n ∈ f.configuration.modules := by
  have hk : n ∈ as.map (·.1) := List.mem_map_of_mem hn
  exact NameMap.mem_keys.1 (h.names ▸ hk)

theorem answer_unique (h : f.Bound as) (ha : (n, a) ∈ as) (hb : (n, b) ∈ as) : a = b :=
  congrArg Prod.snd (List.inj_on_of_nodup_map h.nodup_names ha hb rfl)

theorem get?_loaders_iff (h : f.Bound as) : f.loaders.get? n = some x ↔ (n, some x) ∈ as := by
  rw [h.loaders, Layer.get?_loadersOf_iff h.nodup_names]

end Frame.Bound

namespace Layer

def answers {σ : Type} (c : Configuration) (bind : String → StateM σ (Option String)) (s : σ) :
    Answers :=
  ((bindAll bind c.modules.keys).run s).1

/-- Made by creating layers one on the other, with the answers given for each of them. -/
inductive Made : Layer → List Answers → Prop
  | empty (stamp : Nat) : Made (empty stamp) [[]]
  | create {σ : Type} {c : Configuration} {bind : String → StateM σ (Option String)} {s s' : σ}
      {l : Layer} : c.Reachable → (create c none bind).run s = (.ok l, s') →
      Made l [answers c bind s]
  | createOn {σ : Type} {c : Configuration} {bind : String → StateM σ (Option String)} {s s' : σ}
      {p l : Layer} {log : List Answers} : Made p log → c.Reachable →
      (create c (some p) bind).run s = (.ok l, s') → Made l (answers c bind s :: log)

/-- A frame may come next below another: its configuration is a parent or has no modules. -/
def MayFollow (f g : Frame) : Prop :=
  g.configuration ∈ f.configuration.parents ∨ ∀ n, n ∉ g.configuration.modules

/-- A frame without modules comes below one that does not stand on it only if no frame further
down has modules. -/
def Gapless : List Frame → Prop
  | f :: g :: fs =>
    ((∀ n, n ∉ g.configuration.modules) → g.configuration ∈ f.configuration.parents ∨
      ∀ h ∈ fs, ∀ n, n ∉ h.configuration.modules) ∧ Gapless (g :: fs)
  | _ => True

variable {σ : Type} {c : Configuration} {bind : String → StateM σ (Option String)} {s : σ}
  {f g : Frame} {fs : List Frame} {as : Answers} {l : Layer} {log : List Answers} {n x : String}

theorem Gapless.tail (h : Gapless (f :: fs)) : Gapless fs := by
  cases fs with
  | nil => trivial
  | cons g fs => exact h.2

theorem map_fst_bindAll (bind : String → StateM σ (Option String)) :
    ∀ (names : List String) (s : σ), (((bindAll bind names).run s).1).map (·.1) = names
  | [], _ => rfl
  | n :: names, _ => congrArg (n :: ·) (map_fst_bindAll bind names _)

theorem bound_answers (h : c.Reachable) (bind : String → StateM σ (Option String)) (s : σ) :
    Frame.Bound ⟨c, loadersOf (answers c bind s)⟩ (answers c bind s) :=
  ⟨h, map_fst_bindAll bind _ s, rfl⟩

theorem create_run (c : Configuration) (parent : Option Layer)
    (bind : String → StateM σ (Option String)) (s : σ) :
    (create c parent bind).run s =
      if parent.all (fits c) then
        (.ok ⟨⟨c, loadersOf (answers c bind s)⟩, (parent.map frames).getD []⟩,
          ((bindAll bind c.modules.keys).run s).2)
      else (.error .parentMismatch, s) := by
  unfold create
  split <;> rfl

theorem ok_of_create {parent : Option Layer} {s' : σ}
    (h : (create c parent bind).run s = (.ok l, s')) :
    parent.all (fits c) = true ∧
      l = ⟨⟨c, loadersOf (answers c bind s)⟩, (parent.map frames).getD []⟩ := by
  rw [create_run] at h
  split at h
  · next hf => exact ⟨hf, (Except.ok.inj (congrArg Prod.fst h)).symm⟩
  · cases h

theorem fits_iff {p : Layer} : fits c p = true ↔
    p.configuration ∈ c.parents ∨ ∀ n, n ∉ p.configuration.modules := by
  rw [fits, Bool.or_eq_true, decide_eq_true_eq, NameMap.isEmpty_iff]

theorem Made.bound (h : Made l log) : List.Forall₂ Frame.Bound l.frames log := by
  induction h with
  | empty stamp => exact .cons ⟨.empty stamp, rfl, rfl⟩ .nil
  | create hc h =>
    obtain ⟨-, rfl⟩ := ok_of_create h
    exact .cons (bound_answers hc _ _) .nil
  | createOn _ hc h ih =>
    obtain ⟨-, rfl⟩ := ok_of_create h
    exact .cons (bound_answers hc _ _) ih

theorem Made.isChain (h : Made l log) : l.frames.IsChain MayFollow := by
  induction h with
  | empty stamp => exact List.isChain_singleton _
  | create _ h =>
    obtain ⟨-, rfl⟩ := ok_of_create h
    exact List.isChain_singleton _
  | createOn _ _ h ih =>
    obtain ⟨hf, rfl⟩ := ok_of_create h
    exact List.isChain_cons_cons.2 ⟨fits_iff.1 hf, ih⟩

theorem standsAbove_of_mem (hc : (f :: fs).IsChain MayFollow) (hg : Gapless (f :: fs))
    (h : g ∈ fs) (hn : n ∈ g.configuration.modules) :
    f.configuration.StandsAbove g.configuration := by
  induction fs generalizing f with
  | nil => cases h
  | cons k fs ih =>
    obtain ⟨hfk, hc⟩ := List.isChain_cons_cons.1 hc
    obtain ⟨hgap, hg⟩ := hg
    -- A frame let through for want of modules would break the way down to `g`, but below such a
    -- frame no modules are left.
    have hk : k.configuration ∈ f.configuration.parents := by
      rcases hfk with hk | hempty
      · exact hk
      · rcases hgap hempty with hk | hrest
        · exact hk
        · rcases List.mem_cons.1 h with rfl | h
          · exact (hempty n hn).elim
          · exact (hrest g h n hn).elim
    rcases List.mem_cons.1 h with rfl | h
    · exact .single hk
    · exact .head hk (ih hc hg h)

/-- The layer that has a module of a name of its own is where the name is looked up. -/
theorem findSome?_modules_of_mem (hr : ∀ f ∈ fs, f.configuration.Reachable)
    (hc : fs.IsChain MayFollow) (hg : Gapless fs) (hf : f ∈ fs)
    (hn : n ∈ f.configuration.modules) :
    fs.findSome? (fun f => f.configuration.modules.get? n) = f.configuration.modules.get? n := by
  induction fs with
  | nil => cases hf
  | cons k fs ih =>
    obtain ⟨d, hd⟩ := NameMap.mem_iff_exists.1 hn
    rw [List.findSome?_cons]
    rcases List.mem_cons.1 hf with rfl | hf
    · rw [hd]
    · have hs := standsAbove_of_mem hc hg hf hn
      have hk := (hr k List.mem_cons_self).not_mem_of_standsAbove hs hn
      rw [NameMap.not_mem_iff.1 hk]
      exact ih (fun f hf => hr f (List.mem_cons_of_mem k hf)) hc.tail (hg.tail) hf

theorem Made.exists_answers (h : Made l log) (hf : f ∈ l.frames) :
    ∃ as, (f, as) ∈ l.frames.zip log ∧ f.Bound as := by
  have hb := h.bound
  clear h
  generalize l.frames = fs at hf hb
  induction hb with
  | nil => cases hf
  | @cons k as fs log hk _ ih =>
    rw [List.zip_cons_cons]
    rcases List.mem_cons.1 hf with rfl | hf
    · exact ⟨as, List.mem_cons_self, hk⟩
    · obtain ⟨bs, hz, hb⟩ := ih hf
      exact ⟨bs, List.mem_cons_of_mem _ hz, hb⟩

theorem Made.standsOn (h : Made l log) (hg : Gapless l.frames) (hf : f ∈ l.frames)
    (hn : n ∈ f.configuration.modules) : l.configuration.StandsOn f.configuration := by
  rcases List.mem_cons.1 hf with rfl | hf
  · exact .refl
  · exact (standsAbove_of_mem h.isChain hg hf hn).standsOn

/-- The module that a layer finds is held by a configuration that its own one stands on. -/
theorem Made.exists_frame (h : Made l log) (hg : Gapless l.frames) {d : Descriptor}
    (hd : l.find? n = some d) :
    ∃ o, l.configuration.StandsOn o ∧ o.modules.get? n = some d := by
  obtain ⟨f, hf, hfd⟩ := List.exists_of_findSome?_eq_some hd
  exact ⟨f.configuration, h.standsOn hg hf (NameMap.mem_of_get? hfd), hfd⟩

theorem Made.find?_of_mem (h : Made l log) (hg : Gapless l.frames) (hf : f ∈ l.frames)
    (hn : n ∈ f.configuration.modules) : l.find? n = f.configuration.modules.get? n := by
  refine findSome?_modules_of_mem (fun g hk => ?_) h.isChain hg hf hn
  obtain ⟨as, -, hb⟩ := h.exists_answers hk
  exact hb.reachable

/-- A loader found was given for the module found. -/
theorem Made.exists_answer (h : Made l log) (hg : Gapless l.frames)
    (hx : l.findLoader? n = some x) : ∃ d f as, l.find? n = some d ∧
      (f, as) ∈ l.frames.zip log ∧ f.configuration.modules.get? n = some d ∧ (n, some x) ∈ as := by
  obtain ⟨f, hf, hfx⟩ := List.exists_of_findSome?_eq_some hx
  obtain ⟨as, hz, hb⟩ := h.exists_answers hf
  have ha := hb.get?_loaders_iff.1 hfx
  have hn := hb.mem_modules ha
  obtain ⟨d, hd⟩ := NameMap.mem_iff_exists.1 hn
  exact ⟨d, f, as, (h.find?_of_mem hg hf hn).trans hd, hz, hd, ha⟩

/-- A module that its binding function left out has no loader, not even in a layer below. -/
theorem Made.findLoader?_eq_none (h : Made l (as :: log)) (hg : Gapless l.frames)
    (ha : (n, none) ∈ as) : l.findLoader? n = none := by
  obtain ⟨hb, -⟩ := List.forall₂_cons.1 h.bound
  have hn := hb.mem_modules ha
  by_contra hne
  obtain ⟨x, hx⟩ := Option.ne_none_iff_exists'.1 hne
  obtain ⟨f, hf, hfx⟩ := List.exists_of_findSome?_eq_some hx
  obtain ⟨bs, -, hfb⟩ := h.exists_answers hf
  rcases List.mem_cons.1 hf with rfl | hf
  · cases hb.answer_unique ha (hb.get?_loaders_iff.1 hfx)
  · have hs := standsAbove_of_mem h.isChain hg hf (hfb.mem_modules (hfb.get?_loaders_iff.1 hfx))
    exact hb.reachable.not_mem_of_standsAbove hs
      (hfb.mem_modules (hfb.get?_loaders_iff.1 hfx)) hn

/-- In a gapless stack of layers, a layer finds what its configuration finds, unless parents hold
different modules of a name, with the loader that was given for it. -/
theorem find?_of_gapless (h : Made l log) (hg : Gapless l.frames) (n : String) :
    (∀ d, l.find? n = some d → l.configuration.isVisible n = true ∧
      (l.configuration.IsUnanimous n → l.configuration.find? n = some d)) ∧
    (∀ x, l.findLoader? n = some x → ∃ d f as, l.find? n = some d ∧
      (f, as) ∈ l.frames.zip log ∧ f.configuration.modules.get? n = some d ∧
      (n, some x) ∈ as) ∧
    ∀ as, log.head? = some as → (n, none) ∈ as → l.findLoader? n = none := by
  refine ⟨fun d hd => ?_, fun x => h.exists_answer hg, fun as ha hn => ?_⟩
  · obtain ⟨o, ho, hod⟩ := h.exists_frame hg hd
    exact ⟨ho.isVisible (isVisible_of_mem (NameMap.mem_of_get? hod)), fun hu => hu.find?_eq ho hod⟩
  · obtain ⟨log, rfl⟩ := List.head?_eq_some_iff.1 ha
    exact h.findLoader?_eq_none hg hn

def coreLayer : Layer := ⟨⟨core, .ofList [("core", "platform")]⟩, []⟩

def appLayer : Layer := ⟨⟨app, ∅⟩, coreLayer.frames⟩

theorem made_coreLayer : Made coreLayer [[("core", some "platform")]] :=
  @Made.create Unit core (fun _ => pure (some "platform")) () () _
    stacked_core.reachable (by rfl)

theorem made_appLayer : Made appLayer [[("app", none)], [("core", some "platform")]] :=
  @Made.createOn Unit app (fun _ => pure none) () () _ _ _
    made_coreLayer stacked_app.reachable (by rfl)

theorem find?_of_gapless_appLayer :
    Made appLayer [[("app", none)], [("core", some "platform")]] ∧ Gapless appLayer.frames ∧
      app.find? "core" = some coreModule ∧ appLayer.findLoader? "core" = some "platform" ∧
      appLayer.findLoader? "app" = none := by
  have hg : Gapless appLayer.frames := ⟨fun h => (h "core" (by decide)).elim, trivial⟩
  have hu := stacked_app.reachable.isUnanimous parentsAgree_app
  have hcore := (find?_of_gapless made_appLayer hg "core").1 coreModule (by rfl)
  have happ := (find?_of_gapless made_appLayer hg "app").2.2 [("app", none)] rfl (by decide)
  exact ⟨made_appLayer, hg, hcore.2 hu, by rfl, happ⟩

/-- A configuration without modules of its own that stands on `core`. -/
def hollow : Configuration := Resolver.configure ⟨.empty, .empty, [core]⟩ 5 ∅ []

theorem reachable_hollow : hollow.Reachable :=
  @Configuration.Reachable.resolve ⟨.empty, .empty, [core]⟩ 5 [] _
    (by simp [stacked_core.reachable]) (by rfl)

/-- The layer of an empty configuration on that of `hollow`, which is on that of `core`. -/
def gapped : Layer := ⟨⟨.empty 6, ∅⟩, ⟨hollow, ∅⟩ :: coreLayer.frames⟩

theorem made_gapped : Made gapped [[], [], [("core", some "platform")]] := by
  have hh : Made ⟨⟨hollow, ∅⟩, coreLayer.frames⟩ [[], [("core", some "platform")]] :=
    @Made.createOn Unit hollow (fun _ => pure none) () () _ _ _
      made_coreLayer reachable_hollow (by rfl)
  exact @Made.createOn Unit (.empty 6) (fun _ => pure none) () () _ _ _
    hh (.empty 6) (by rfl)

def aside : Layer := ⟨⟨clash, ∅⟩, [⟨bareCore, ∅⟩]⟩

theorem made_aside : Made aside [[], [("core", none)]] := by
  have hb : Made ⟨⟨bareCore, ∅⟩, []⟩ [[("core", none)]] :=
    @Made.create Unit bareCore (fun _ => pure none) () () _
      reachable_bareCore (by rfl)
  exact @Made.createOn Unit clash (fun _ => pure none) () () _ _ _
    hb reachable_clash (by rfl)

/-- Over a gap a layer finds a module and a loader that its configuration does not see, and on a
second parent it finds another module than its configuration. -/
theorem find?_ne_of_gapped_of_aside :
    ((∃ log, Made gapped log) ∧ gapped.find? "core" = some coreModule ∧
      gapped.findLoader? "core" = some "platform" ∧ gapped.configuration.find? "core" = none) ∧
    (∃ log, Made aside log) ∧ aside.find? "core" ≠ none ∧
      aside.find? "core" ≠ aside.configuration.find? "core" := by
  refine ⟨⟨⟨_, made_gapped⟩, by rfl, by rfl, by rfl⟩, ⟨_, made_aside⟩, ?_, ?_⟩
  · decide
  · decide

end Layer
end ModuleGraph
