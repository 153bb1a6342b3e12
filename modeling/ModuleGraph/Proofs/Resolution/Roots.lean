import ModuleGraph.Proofs.Configuration.Stack
import ModuleGraph.Proofs.Resolution.Noninterference

/-! # Fewer roots

Roots that others reach come to nothing new: resolving them cannot fail where the others resolve,
and each module reads the same whichever of the roots asked for it. The modules of a configuration,
taken as roots, give it back.
-/

namespace ModuleGraph.Resolver

open ModuleGraph.Configuration

variable {r : Resolver} {roots roots' : List String} {c c' : Configuration} {n m : String}
  {d : Descriptor} {i j : Nat}

theorem Resolves.get?_of_reaches (h : r.Resolves roots c) (h' : r.Resolves roots' c')
    (hr : ∀ k ∈ roots', r.Reaches roots k) (hd : c'.modules.get? n = some d) :
    c.modules.get? n = some d := by
  rw [h'.get?_modules] at hd
  exact (h.get?_modules n d).2 ⟨hd.1.trans hr, hd.2⟩

theorem Resolves.doesRead_of_reaches (h : r.Resolves roots c) (h' : r.Resolves roots' c')
    (hr : ∀ k ∈ roots', r.Reaches roots k) (hn : r.Reaches roots' n) :
    c'.doesRead n m = c.doesRead n m := by
  -- The induction runs along the requires of the smaller configuration, within what it reaches.
  induction n using h'.coherent.induction with
  | inherited n hm =>
    apply doesRead_congr
    apply ownerOf?_congr (h'.parents.trans h.parents.symm) hm
    intro hc
    obtain ⟨d, hd⟩ := NameMap.mem_iff_exists.1 hc
    have hnew := ((h.get?_modules n d).1 hd).2
    exact hm (NameMap.mem_of_get? ((h'.get?_modules n d).2 ⟨hn, hnew⟩))
  | required n d hd ih =>
    have hnew := ((h'.get?_modules n d).1 hd).2
    rw [Bool.eq_iff_iff, h'.doesRead_iff hd, h.doesRead_iff (h.get?_of_reaches h' hr hd)]
    refine and_congr_right fun _ => exists_congr fun k => and_congr_right fun hk => ?_
    rw [ih k hk (.required hn hnew hk)]

theorem Resolves.readsOf?_of_reaches (h : r.Resolves roots c) (h' : r.Resolves roots' c')
    (hr : ∀ k ∈ roots', r.Reaches roots k) (hn : r.Reaches roots' n) :
    c'.readsOf? n = c.readsOf? n := by
  apply readsOf?_congr
  · rw [h'.isVisible hn, h.isVisible (hn.trans hr)]
  · intro m
    exact h.doesRead_of_reaches h' hr hn

theorem Resolves.reaches_of_mem (h : r.Resolves roots c) (hn : n ∈ c.modules) :
    r.Reaches roots n := by
  obtain ⟨d, hd⟩ := NameMap.mem_iff_exists.1 hn
  exact ((h.get?_modules n d).1 hd).1

/-- Every module is its own root. -/
theorem Resolves.modules_eq_of_keys (h : r.Resolves roots c)
    (h' : r.Resolves c.modules.keys c') : c'.modules = c.modules := by
  apply NameMap.ext_get?
  intro n
  ext d
  rw [h.get?_modules, h'.get?_modules]
  constructor
  · rintro ⟨hn, hd⟩
    exact ⟨hn.trans fun k hk => h.reaches_of_mem (NameMap.mem_keys.1 hk), hd⟩
  · rintro ⟨hn, hd⟩
    have hm := NameMap.mem_of_get? ((h.get?_modules n d).2 ⟨hn, hd⟩)
    exact ⟨.root (NameMap.mem_keys.2 hm), hd⟩

theorem Resolves.reads_eq_of_keys (h : r.Resolves roots c) (h' : r.Resolves c.modules.keys c') :
    c'.reads = c.reads := by
  have hm := h.modules_eq_of_keys h'
  apply NameMap.ext_get?
  intro n
  by_cases hn : n ∈ c.modules
  · rw [h.get?_reads hn, h'.get?_reads (hm ▸ hn)]
    apply h.readsOf?_of_reaches h'
    · intro k hk
      exact h.reaches_of_mem (NameMap.mem_keys.1 hk)
    · exact .root (NameMap.mem_keys.2 hn)
  · have hc := mt (h.mem_reads n).1 hn
    have hc' := mt (h'.mem_reads n).1 (hm ▸ hn)
    rw [NameMap.not_mem_iff.1 hc, NameMap.not_mem_iff.1 hc']

theorem eq_of_keys (h : (r.resolve i roots).outcome = .ok c)
    (h' : (r.resolve j c.modules.keys).outcome = .ok c') : c' = { c with stamp := j } := by
  have hc := resolves_of_outcome h
  have hc' := resolves_of_outcome h'
  have hm := hc.modules_eq_of_keys hc'
  have hr := hc.reads_eq_of_keys hc'
  have hp : c'.packages = c.packages := by
    rw [packages_of_outcome h, packages_of_outcome h', hm]
  have hs := stamp_of_outcome h'
  have hq := hc'.parents.trans hc.parents.symm
  cases c'
  simp_all

/-- Where roots resolve, any of them do, to modules of the same configuration that read the same
as there. Its modules taken as roots resolve to that configuration itself. -/
theorem resolve_subset (h : (r.resolve i roots).outcome = .ok c) (j : Nat) :
    (∀ roots', roots' ⊆ roots → ∃ c', (r.resolve j roots').outcome = .ok c' ∧
      (∀ n d, c'.modules.get? n = some d → c.modules.get? n = some d) ∧
      ∀ n ∈ c'.modules, c'.readsOf? n = c.readsOf? n) ∧
    (r.resolve j c.modules.keys).outcome = .ok { c with stamp := j } := by
  have hc := resolves_of_outcome h
  constructor
  · intro roots' hs
    have hr : ∀ k ∈ roots', r.Reaches roots k := fun k hk => .root (hs hk)
    obtain ⟨c', ho⟩ := hc.exists_of_reaches hr j
    have hc' := resolves_of_outcome ho
    refine ⟨c', ho, ?_, ?_⟩
    · intro n d
      exact hc.get?_of_reaches hc' hr
    · intro n hn
      exact hc.readsOf?_of_reaches hc' hr (hc'.reaches_of_mem hn)
  · have hr : ∀ k ∈ c.modules.keys, r.Reaches roots k :=
      fun k hk => hc.reaches_of_mem (NameMap.mem_keys.1 hk)
    obtain ⟨c', ho⟩ := hc.exists_of_reaches hr j
    rw [ho, eq_of_keys h ho]

/-- Asked for alone, `core` reads what it reads beside `app`. -/
theorem resolve_subset_app : ∃ c, (resolve ⟨.library appAndCore, .empty, []⟩ 0
      ["app", "core"]).outcome = .ok c ∧ ["core", "core"] ⊆ ["app", "core"] ∧
    (∃ c', (resolve ⟨.library appAndCore, .empty, []⟩ 1 ["core", "core"]).outcome = .ok c' ∧
      c'.modules.keys = ["core"] ∧ c'.readsOf? "core" = c.readsOf? "core") ∧
    (resolve ⟨.library appAndCore, .empty, []⟩ 1 ["app", "core"]).outcome =
      .ok { c with stamp := 1 } := by
  have ho : (resolve ⟨.library appAndCore, .empty, []⟩ 0 ["app", "core"]).outcome =
      .ok (configure ⟨.empty, .empty, []⟩ 0 appAndCore ["core", "app"]) := by rfl
  have ho' : (resolve ⟨.library appAndCore, .empty, []⟩ 1 ["core", "core"]).outcome =
      .ok (configure ⟨.empty, .empty, []⟩ 1 (.ofList [("core", coreModule)]) ["core"]) := by rfl
  have hs : ["core", "core"] ⊆ ["app", "core"] := by decide
  obtain ⟨h, hk⟩ := resolve_subset ho 1
  obtain ⟨c', hc', -, hr⟩ := h ["core", "core"] hs
  obtain rfl := Except.ok.inj (ho'.symm.trans hc')
  exact ⟨_, ho, hs, ⟨_, hc', by decide, hr "core" (by decide)⟩, hk⟩

end ModuleGraph.Resolver
