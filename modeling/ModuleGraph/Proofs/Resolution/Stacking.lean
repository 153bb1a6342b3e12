import ModuleGraph.Proofs.Access

/-! # Resolving in two steps

Resolving some roots over a library and then more over the rest of it, on the first configuration,
comes to the same as resolving all roots at once. Only packages that modules of both steps own are
told apart: at once they are a conflict, in two steps an overlap.
-/

namespace ModuleGraph.Resolver

open ModuleGraph.Configuration Relation

def alone (lib : Library) : Resolver where
  finder := .library lib

/-- Resolves on a parent over the modules of a library that the parent did not resolve. -/
def above (lib : Library) (parent : Configuration) : Resolver where
  finder := .library (lib.filter fun n _ => !parent.isLocal n)
  parents := [parent]

variable {lib : Library} {roots more : List String} {flat parent child : Configuration}
  {n : String} {d : Descriptor}

theorem not_isInherited_alone : ¬ (alone lib).IsInherited n := by
  rintro ⟨p, hp, -⟩
  cases hp

theorem isNew_alone_iff : (alone lib).IsNew n d ↔ lib.get? n = some d ∧ d.name = n := by
  constructor
  · rintro (⟨hf, hd⟩ | ⟨-, -, ha, -⟩)
    · exact ⟨hf, hd⟩
    · simp [alone, Finder.find] at ha
  · rintro ⟨hf, hd⟩
    exact .first hf hd

theorem isNew_above_iff :
    (above lib parent).IsNew n d ↔ n ∉ parent.modules ∧ (alone lib).IsNew n d := by
  have hf : (above lib parent).finder.find n = some d ↔
      lib.get? n = some d ∧ n ∉ parent.modules := by
    rw [above, Finder.find, NameMap.get?_filter, Option.filter_eq_some_iff, Bool.not_eq_true',
      ← Bool.not_eq_true, isLocal_iff]
  rw [isNew_alone_iff]
  constructor
  · rintro (⟨h, hd⟩ | ⟨-, -, ha, -⟩)
    · obtain ⟨hl, hn⟩ := hf.1 h
      exact ⟨hn, hl, hd⟩
    · simp [above, Finder.find] at ha
  · rintro ⟨hn, hl, hd⟩
    exact .first (hf.2 ⟨hl, hn⟩) hd

theorem find?_alone (hp : (alone lib).Resolves roots parent) (n : String) :
    parent.find? n = parent.modules.get? n := by
  have hn : parent.parents = [] := hp.parents
  rw [find?_eq, hn, List.findSome?_nil, Option.or_none]

theorem isVisible_alone_iff (hp : (alone lib).Resolves roots parent) :
    parent.isVisible n = true ↔ n ∈ parent.modules := by
  rw [isVisible, find?_alone hp]
  exact Iff.rfl

theorem mem_alone_iff (hp : (alone lib).Resolves roots parent) :
    n ∈ parent.modules ↔ (alone lib).Reaches roots n := by
  constructor
  · intro h
    obtain ⟨d, hd⟩ := NameMap.mem_iff_exists.1 h
    exact ((hp.get?_modules n d).1 hd).1
  · intro h
    exact (isVisible_alone_iff hp).1 (hp.isVisible h)

theorem isInherited_above_iff (hp : (alone lib).Resolves roots parent) :
    (above lib parent).IsInherited n ↔ n ∈ parent.modules := by
  simp [IsInherited, above, isVisible_alone_iff hp]

/-- What all roots reach is reached in the first step or in the second. -/
theorem reaches_append_iff (hp : (alone lib).Resolves roots parent) :
    (alone lib).Reaches (roots ++ more) n ↔
      n ∈ parent.modules ∨ (above lib parent).Reaches more n := by
  constructor
  · intro h
    induction h with
    | root hn =>
      rcases List.mem_append.1 hn with hn | hn
      · exact .inl ((mem_alone_iff hp).2 (.root hn))
      · exact .inr (.root hn)
    | @required n m d _ hd hm ih =>
      by_cases hn : n ∈ parent.modules
      · exact .inl ((mem_alone_iff hp).2 (.required ((mem_alone_iff hp).1 hn) hd hm))
      · exact .inr (.required (ih.resolve_left hn) (isNew_above_iff.2 ⟨hn, hd⟩) hm)
  · rintro (h | h)
    · exact ((mem_alone_iff hp).1 h).mono (List.subset_append_left ..)
    · induction h with
      | root hn => exact .root (List.mem_append_right _ hn)
      | required _ hd hm ih => exact .required ih (isNew_above_iff.1 hd).2 hm

theorem selects_append_iff (hp : (alone lib).Resolves roots parent) :
    (alone lib).Selects (roots ++ more) n d ↔
      parent.modules.get? n = some d ∨ (above lib parent).Selects more n d := by
  rw [hp.get?_modules, Selects, Selects, Selects, reaches_append_iff hp, isNew_above_iff,
    ← mem_alone_iff hp]
  by_cases hn : n ∈ parent.modules <;> simp [hn]

/-- In the second step the modules of both steps are found. -/
theorem find?_above_iff (hp : (alone lib).Resolves roots parent)
    (hc : (above lib parent).Resolves more child) :
    child.find? n = some d ↔ (alone lib).Selects (roots ++ more) n d := by
  have hn : child.parents = [parent] := hc.parents
  have hd : n ∈ child.modules → n ∉ parent.modules := by
    intro h hm
    exact hc.not_isInherited h ((isInherited_above_iff hp).2 hm)
  rw [selects_append_iff hp, ← hc.get?_modules, find?_eq, hn, List.findSome?_singleton,
    find?_alone hp, Option.or_eq_some_iff, ← NameMap.not_mem_iff]
  constructor
  · rintro (h | ⟨-, h⟩)
    · exact .inr h
    · exact .inl h
  · rintro (h | h)
    · exact .inr ⟨fun hm => hd hm (NameMap.mem_of_get? h), h⟩
    · exact .inl h

theorem exists_alone (hf : (alone lib).Resolves (roots ++ more) flat) (stamp : Nat) :
    ∃ parent, ((alone lib).resolve stamp roots).outcome = .ok parent := by
  apply hf.exists_of_reaches
  intro k hk
  exact .root (List.mem_append_left _ hk)

theorem exists_above (hf : (alone lib).Resolves (roots ++ more) flat)
    (hp : (alone lib).Resolves roots parent) (stamp : Nat) :
    ∃ child, ((above lib parent).resolve stamp more).outcome = .ok child := by
  apply hf.exists_outcome stamp
  · intro n d h
    exact (selects_append_iff hp).2 (.inr h)
  · rintro n ⟨hr, hi, hd⟩
    refine hf.not_lacks n ⟨(reaches_append_iff hp).2 (.inr hr), not_isInherited_alone, ?_⟩
    intro d hn
    exact hd d (isNew_above_iff.2 ⟨fun hm => hi ((isInherited_above_iff hp).2 hm), hn⟩)
  · rintro n ⟨-, hi, d, hn, hd⟩
    exact (isNew_above_iff.1 (.first hn hd)).1 ((isInherited_above_iff hp).1 hi)

theorem stacked_alone {stamp : Nat} (hp : ((alone lib).resolve stamp roots).outcome = .ok parent) :
    parent.Stacked := by
  refine .resolve ?_ ?_ hp
  · exact Nat.zero_le 1
  · intro q hq
    cases hq

theorem stacked_above {stamp : Nat} (hp : parent.Stacked)
    (hc : ((above lib parent).resolve stamp more).outcome = .ok child) : child.Stacked := by
  refine .resolve ?_ ?_ hc
  · exact Nat.le_refl 1
  · intro q hq
    exact List.mem_singleton.1 hq ▸ hp

/-- A module of one step and one of the other that own no package together are in no conflict. -/
theorem not_conflicts_append (hp : (alone lib).Resolves roots parent)
    (hc : (above lib parent).Resolves more child)
    (ho : ∀ p n m d e, parent.modules.get? n = some d → child.modules.get? m = some e →
      ¬ (d.owns p = true ∧ e.owns p = true)) (p n m : String) :
    ¬ (alone lib).Conflicts (roots ++ more) p n m := by
  rintro ⟨hne, d, e, hd, he, hpd, hpe⟩
  rw [selects_append_iff hp, ← hc.get?_modules] at hd he
  rcases hd with hd | hd
  · rcases he with he | he
    · exact hp.not_conflict p n m ⟨hne, d, e, hd, he, hpd, hpe⟩
    · exact ho p n m d e hd he ⟨hpd, hpe⟩
  · rcases he with he | he
    · exact ho p m n e d he hd ⟨hpe, hpd⟩
    · exact hc.not_conflict p n m ⟨hne, d, e, hd, he, hpd, hpe⟩

/-- A cycle through both steps would be one among the modules visible in the second. -/
theorem not_cycle_append (hp : (alone lib).Resolves roots parent)
    (hc : (above lib parent).Resolves more child) (hs : child.Stacked) (n : String) :
    ¬ TransGen ((alone lib).Links (roots ++ more)) n n := by
  intro h
  have hr : ∀ a b, (alone lib).Links (roots ++ more) a b → child.Requires a b := by
    rintro a b ⟨d, e, hd, hb, he⟩
    rw [← find?_above_iff hp hc] at hd he
    exact ⟨d, hd, hb, isVisible_of_find? he⟩
  have ht : TransGen child.Requires n n := TransGen.mono hr n n h
  exact not_reaches_self hs.reachable (reaches_of_transGen hs ht)

theorem exists_flat (hp : (alone lib).Resolves roots parent)
    (hc : (above lib parent).Resolves more child) (hs : child.Stacked)
    (ho : ∀ p n m d e, parent.modules.get? n = some d → child.modules.get? m = some e →
      ¬ (d.owns p = true ∧ e.owns p = true)) (stamp : Nat) :
    ∃ flat, ((alone lib).resolve stamp (roots ++ more)).outcome = .ok flat := by
  apply exists_outcome stamp
  · rintro n ⟨hr, -, hd⟩
    rcases (reaches_append_iff hp).1 hr with hn | hn
    · obtain ⟨d, hm⟩ := NameMap.mem_iff_exists.1 hn
      exact hd d ((hp.get?_modules n d).1 hm).2
    · refine hc.not_lacks n ⟨hn, ?_, fun d h => hd d (isNew_above_iff.1 h).2⟩
      intro hi
      obtain ⟨d, hm⟩ := NameMap.mem_iff_exists.1 ((isInherited_above_iff hp).1 hi)
      exact hd d ((hp.get?_modules n d).1 hm).2
  · rintro n ⟨-, hi, -⟩
    exact not_isInherited_alone hi
  · exact not_conflicts_append hp hc ho
  · exact not_cycle_append hp hc hs

/-- Resolving at once gives what resolving in two steps gives: the same modules, reads and
verdicts. It succeeds whenever both steps do and own no package together. -/
theorem resolve_append (lib : Library) (roots more : List String) (i j k : Nat) :
    (∀ flat, ((alone lib).resolve i (roots ++ more)).outcome = .ok flat →
      ∃ parent child, ((alone lib).resolve j roots).outcome = .ok parent ∧
        ((above lib parent).resolve k more).outcome = .ok child ∧
        (∀ n, n ∈ flat.modules ↔ n ∈ parent.modules ∨ n ∈ child.modules) ∧
        (∀ n, ¬ (n ∈ parent.modules ∧ n ∈ child.modules)) ∧
        (∀ n, child.find? n = flat.find? n) ∧ (∀ n, child.readsOf? n = flat.readsOf? n) ∧
        ∀ requester target package, Access.check child requester target package =
          Access.check flat requester target package) ∧
    (∀ parent child, ((alone lib).resolve j roots).outcome = .ok parent →
      ((above lib parent).resolve k more).outcome = .ok child →
      (∀ p n m d e, parent.modules.get? n = some d → child.modules.get? m = some e →
        ¬ (d.owns p = true ∧ e.owns p = true)) →
      ∃ flat, ((alone lib).resolve i (roots ++ more)).outcome = .ok flat) := by
  constructor
  · intro flat ho
    have hf := resolves_of_outcome ho
    obtain ⟨parent, hpo⟩ := exists_alone hf j
    have hp := resolves_of_outcome hpo
    obtain ⟨child, hco⟩ := exists_above hf hp k
    have hc := resolves_of_outcome hco
    have hfind : ∀ n, child.find? n = flat.find? n := by
      intro n
      ext d
      rw [find?_above_iff hp hc, find?_alone hf, hf.get?_modules]
    have hread := (stacked_above (stacked_alone hpo) hco).doesRead_congr (stacked_alone ho) hfind
    refine ⟨parent, child, hpo, hco, ?_, ?_, hfind, ?_, ?_⟩
    · intro n
      simp only [NameMap.mem_iff_exists, hf.get?_modules, selects_append_iff hp, exists_or,
        hc.get?_modules]
    · rintro n ⟨hn, hm⟩
      exact hc.not_isInherited hm ((isInherited_above_iff hp).2 hn)
    · intro n
      exact readsOf?_congr (by rw [isVisible, isVisible, hfind n]) (hread n)
    · intro requester target package
      exact Access.check_congr hfind hread
  · intro parent child hpo hco ho
    have hs := stacked_above (stacked_alone hpo) hco
    exact exists_flat (resolves_of_outcome hpo) (resolves_of_outcome hco) hs ho i

theorem resolve_append_core_app : ∃ flat,
    ((alone (.ofList [("app", appModule), ("core", coreModule)])).resolve 2
      (["core"] ++ ["app"])).outcome = .ok flat ∧
    (∀ n, n ∈ flat.modules ↔ n ∈ core.modules ∨ n ∈ app.modules) ∧
    ∀ n, app.readsOf? n = flat.readsOf? n := by
  have h := resolve_append (.ofList [("app", appModule), ("core", coreModule)])
    ["core"] ["app"] 2 0 1
  have ho : ∀ p n m d e, core.modules.get? n = some d → app.modules.get? m = some e →
      ¬ (d.owns p = true ∧ e.owns p = true) := by
    rintro p n m d e hd he ⟨hpd, hpe⟩
    obtain rfl : d = coreModule := List.mem_singleton.1 (NameMap.mem_values.2 ⟨n, hd⟩)
    obtain rfl : e = appModule := List.mem_singleton.1 (NameMap.mem_values.2 ⟨m, he⟩)
    have hn : ∀ p ∈ coreModule.packages.toList, ¬ appModule.owns p = true := by decide
    exact hn p (NameSet.mem_toList.2 (Descriptor.mem_packages.2 hpd)) hpe
  obtain ⟨flat, hf⟩ := h.2 core app (by rfl) (by rfl) ho
  obtain ⟨parent, child, hp, hc, hn, -, -, hr, -⟩ := h.1 flat hf
  obtain rfl : core = parent := Except.ok.inj hp
  obtain rfl : app = child := Except.ok.inj hc
  exact ⟨flat, hf, hn, hr⟩

end ModuleGraph.Resolver
