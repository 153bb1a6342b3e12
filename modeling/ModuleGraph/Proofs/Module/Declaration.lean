import Mathlib.Data.List.Forall2
import Mathlib.Data.List.Perm.Basic
import Mathlib.Tactic.SplitIfs
import ModuleGraph.Module.Declaration
import ModuleGraph.Proofs.NameMap.Filing

/-! # Well-formed declarations

The checks of a declaration go item by item, each against those before it. Together they pass
exactly if the declaration is well formed, which does not depend on the order of its items, and the
descriptor then holds what was declared and nothing else.
-/

namespace ModuleGraph

def ExportItem.declared (i : ExportItem) : Export :=
  match i.targets with
  | none => .unqualified
  | some targets => .qualified (.ofList targets)

@[mk_iff]
structure ExportItem.WellFormed (i : ExportItem) : Prop where
  package : isQualifiedName i.package = true
  targets : ∀ targets, i.targets = some targets →
    targets ≠ [] ∧ (∀ t ∈ targets, isQualifiedName t = true) ∧ targets.Nodup

/-- An item exports its package to every module, or to exactly its targets. -/
def ExportItem.Declares (i : ExportItem) : Export → Prop
  | .unqualified => i.targets = none
  | .qualified s => ∃ targets, i.targets = some targets ∧ ∀ t, t ∈ s ↔ t ∈ targets

structure ExportItem.Reorders (i j : ExportItem) : Prop where
  package : i.package = j.package
  targets : Option.Rel List.Perm i.targets j.targets

theorem ExportItem.declares_iff_eq {i : ExportItem} {x : Export} :
    i.Declares x ↔ x = i.declared := by
  rw [declared]
  cases x with
  | unqualified =>
    rw [Declares]
    cases i.targets <;> simp
  | qualified s =>
    rw [Declares]
    cases i.targets with
    | none => simp
    | some targets =>
      simp only [Option.some.injEq, exists_eq_left', Export.qualified.injEq]
      constructor
      · intro h
        exact NameSet.ext fun t => (h t).trans NameSet.mem_ofList.symm
      · rintro rfl t
        exact NameSet.mem_ofList

theorem ExportItem.Reorders.wellFormed_iff {i j : ExportItem} (h : i.Reorders j) :
    i.WellFormed ↔ j.WellFormed := by
  obtain ⟨p, ti⟩ := i
  obtain ⟨q, tj⟩ := j
  obtain ⟨hp, ht⟩ := h
  obtain rfl : p = q := hp
  cases ht with
  | none => rfl
  | some ht =>
    rw [ExportItem.wellFormed_iff, ExportItem.wellFormed_iff]
    simp only [Option.some.injEq, forall_eq', ht.nodup_iff, ht.mem_iff, ne_eq,
      ← List.length_eq_zero_iff, ht.length_eq]

theorem ExportItem.Reorders.declares_iff {i j : ExportItem} (h : i.Reorders j) {x : Export} :
    i.Declares x ↔ j.Declares x := by
  obtain ⟨p, ti⟩ := i
  obtain ⟨q, tj⟩ := j
  cases h.targets with
  | none => cases x <;> rfl
  | some ht =>
    cases x with
    | unqualified => simp [Declares]
    | qualified s => simp [Declares, ht.mem_iff]

structure Descriptor.WellFormed (d : Descriptor) : Prop where
  name : isQualifiedName d.name = true
  requires : ∀ n ∈ d.requires, n ≠ d.name ∧ isQualifiedName n = true
  exports : ∀ p ∈ d.exports, isQualifiedName p = true
  targets : ∀ p s, d.exports.get? p = some (.qualified s) →
    s.toList ≠ [] ∧ ∀ t ∈ s, isQualifiedName t = true
  concealed : ∀ p ∈ d.concealed, isQualifiedName p = true ∧ p ∉ d.exports

namespace Declaration

/-- What a declaration asks of its items, whatever their order. -/
@[mk_iff]
structure WellFormed (d : Declaration) : Prop where
  name : isQualifiedName d.name = true
  requires : ∀ n ∈ d.requires, n ≠ d.name ∧ isQualifiedName n = true
  nodup_requires : d.requires.Nodup
  exports : ∀ i ∈ d.exports, i.WellFormed
  nodup_exports : (d.exports.map (·.package)).Nodup
  conceals : ∀ p ∈ d.conceals, isQualifiedName p = true ∧ p ∉ d.exports.map (·.package)
  nodup_conceals : d.conceals.Nodup

/-- A descriptor holds what is declared and nothing else. -/
@[mk_iff]
structure Describes (d : Declaration) (y : Descriptor) : Prop where
  name : y.name = d.name
  requires : ∀ n, n ∈ y.requires ↔ n ∈ d.requires
  exports : ∀ p x, y.exports.get? p = some x ↔ ∃ i ∈ d.exports, i.package = p ∧ i.Declares x
  concealed : ∀ p, p ∈ y.concealed ↔ p ∈ d.conceals

/-- One declaration with the requires, the exports, their targets and the conceals of another in
any order. -/
structure Reorders (d d' : Declaration) : Prop where
  name : d.name = d'.name
  requires : d.requires.Perm d'.requires
  exports : ∃ items, d.exports.Perm items ∧ List.Forall₂ ExportItem.Reorders items d'.exports
  conceals : d.conceals.Perm d'.conceals

def declared (d : Declaration) : Descriptor where
  name := d.name
  requires := .ofList d.requires
  exports := .ofList (d.exports.map fun i => (i.package, i.declared))
  concealed := .ofList d.conceals

variable {owner package n p : String} {item : ExportItem} {exports : NameMap Export} {x : Export}
  {d d' : Declaration} {before after s : NameSet} {l : List String}

theorem mem_ofList_items {items : List ExportItem} :
    p ∈ NameMap.ofList (items.map fun i => (i.package, i.declared)) ↔
      p ∈ items.map (·.package) := by
  rw [NameMap.ofList, NameMap.mem_foldl_insert]
  simp [eq_comm]

theorem owns_declared :
    d.declared.owns p = true ↔ p ∈ d.exports.map (·.package) ∨ p ∈ d.conceals := by
  rw [Descriptor.owns, Bool.or_eq_true, NameMap.contains_iff, NameMap.contains_iff, declared,
    mem_ofList_items, NameSet.mem_ofList]

theorem addRequired_eq_ok_iff : addRequired owner before n = .ok after ↔
    (n ≠ owner ∧ isQualifiedName n = true) ∧ n ∉ before ∧ after = before.insert n := by
  unfold addRequired
  split_ifs <;> simp_all [eq_comm (a := after)]

theorem foldlM_addRequired_eq_ok_iff : l.foldlM (addRequired owner) ∅ = .ok s ↔
    (∀ n ∈ l, n ≠ owner ∧ isQualifiedName n = true) ∧ l.Nodup ∧ s = .ofList l :=
  foldlM_set_eq_ok_iff fun _ _ _ => addRequired_eq_ok_iff

theorem addTarget_eq_ok_iff : addTarget owner package before n = .ok after ↔
    True ∧ n ∉ before ∧ after = before.insert n := by
  unfold addTarget
  split_ifs <;> simp_all [eq_comm (a := after)]

theorem foldlM_addTarget_eq_ok_iff : l.foldlM (addTarget owner package) ∅ = .ok s ↔
    l.Nodup ∧ s = .ofList l := by
  rw [foldlM_set_eq_ok_iff fun _ _ _ => addTarget_eq_ok_iff, and_iff_right fun _ _ => trivial]

theorem addConcealed_eq_ok_iff : addConcealed owner exports before p = .ok after ↔
    (isQualifiedName p = true ∧ p ∉ exports) ∧ p ∉ before ∧ after = before.insert p := by
  unfold addConcealed
  split_ifs <;> simp_all [eq_comm (a := after)]

theorem foldlM_addConcealed_eq_ok_iff : l.foldlM (addConcealed owner exports) ∅ = .ok s ↔
    (∀ p ∈ l, isQualifiedName p = true ∧ p ∉ exports) ∧ l.Nodup ∧ s = .ofList l :=
  foldlM_set_eq_ok_iff fun _ _ _ => addConcealed_eq_ok_iff

theorem exportOf_eq_ok_iff : exportOf owner item = .ok x ↔
    (∀ targets, item.targets = some targets →
      targets ≠ [] ∧ (∀ t ∈ targets, isQualifiedName t = true) ∧ targets.Nodup) ∧
    x = item.declared := by
  rw [exportOf, ExportItem.declared]
  cases item.targets with
  | none => simp [eq_comm (a := x)]
  | some targets =>
    dsimp only
    by_cases he : targets = []
    · simp [he]
    rw [if_neg he]
    cases hf : targets.find? fun t => !isQualifiedName t with
    | some t =>
      have ht : isQualifiedName t = false := by simpa using List.find?_some hf
      refine iff_of_false nofun fun h => ?_
      have hv := (h.1 targets rfl).2.1 t (List.mem_of_find?_eq_some hf)
      cases ht.symm.trans hv
    | none =>
      have hv : ∀ t ∈ targets, isQualifiedName t = true := by simpa using hf
      simp only [map_eq_ok_iff, foldlM_addTarget_eq_ok_iff, Option.some.injEq, forall_eq']
      constructor
      · rintro ⟨_, ⟨hn, rfl⟩, rfl⟩
        exact ⟨⟨he, hv, hn⟩, rfl⟩
      · rintro ⟨⟨-, -, hn⟩, rfl⟩
        exact ⟨_, ⟨hn, rfl⟩, rfl⟩

theorem addExport_eq_ok_iff {before after : NameMap Export} :
    addExport owner before item = .ok after ↔ item.WellFormed ∧ item.package ∉ before ∧
      after = before.insert item.package item.declared := by
  rw [addExport, ExportItem.wellFormed_iff]
  split_ifs with hp hm
  · exact iff_of_false nofun fun h => by simp [hp] at h
  · exact iff_of_false nofun fun h => h.2.1 hm
  · rw [Bool.not_eq_false] at hp
    simp only [map_eq_ok_iff, exportOf_eq_ok_iff, hp, hm, true_and, not_false_eq_true]
    constructor
    · rintro ⟨_, ⟨ht, rfl⟩, rfl⟩
      exact ⟨ht, rfl⟩
    · rintro ⟨ht, rfl⟩
      exact ⟨_, ⟨ht, rfl⟩, rfl⟩

theorem foldlM_addExport_eq_ok_iff {items : List ExportItem} :
    items.foldlM (addExport owner) ∅ = .ok exports ↔ (∀ i ∈ items, i.WellFormed) ∧
      (items.map (·.package)).Nodup ∧
      exports = .ofList (items.map fun i => (i.package, i.declared)) :=
  foldlM_empty_eq_ok_iff ExportItem.package ExportItem.declared fun _ _ _ => addExport_eq_ok_iff

theorem descriptor_eq_ok_iff {y : Descriptor} :
    d.descriptor = .ok y ↔ d.WellFormed ∧ y = d.declared := by
  have hname : isQualifiedName "" = false := by decide
  rw [descriptor, wellFormed_iff]
  split_ifs with he hq
  · refine iff_of_false nofun fun h => ?_
    cases hname.symm.trans (he ▸ h.1.1)
  · exact iff_of_false nofun fun h => by simp [hq] at h
  simp only [bind_eq_ok_iff, foldlM_addRequired_eq_ok_iff, foldlM_addExport_eq_ok_iff,
    foldlM_addConcealed_eq_ok_iff]
  rw [Bool.not_eq_false] at hq
  constructor
  · rintro ⟨_, ⟨hr, hrn, rfl⟩, _, ⟨hx, hxn, rfl⟩, _, ⟨hc, hcn, rfl⟩, h⟩
    simp only [mem_ofList_items] at hc
    exact ⟨⟨hq, hr, hrn, hx, hxn, hc, hcn⟩, (Except.ok.inj h).symm⟩
  · rintro ⟨⟨-, hr, hrn, hx, hxn, hc, hcn⟩, rfl⟩
    simp only [← mem_ofList_items] at hc
    exact ⟨_, ⟨hr, hrn, rfl⟩, _, ⟨hx, hxn, rfl⟩, _, ⟨hc, hcn, rfl⟩, rfl⟩

/-- The maps of a descriptor hold what is declared and nothing else. -/
theorem WellFormed.describes_iff (h : d.WellFormed) {y : Descriptor} :
    d.Describes y ↔ y = d.declared := by
  have hx : ∀ p x, d.declared.exports.get? p = some x ↔
      ∃ i ∈ d.exports, i.package = p ∧ i.Declares x := by
    intro p x
    have hn : ((d.exports.map fun i => (i.package, i.declared)).map (·.1)).Nodup := by
      rw [List.map_map]
      exact h.nodup_exports
    rw [declared, NameMap.get?_ofList_iff hn, List.mem_map]
    simp only [Prod.mk.injEq, ExportItem.declares_iff_eq, eq_comm (a := x)]
  constructor
  · intro hy
    obtain ⟨name, requires, exports, concealed⟩ := y
    obtain rfl : name = d.name := hy.name
    obtain rfl : requires = .ofList d.requires :=
      NameSet.ext fun n => (hy.requires n).trans NameSet.mem_ofList.symm
    obtain rfl : exports = d.declared.exports :=
      NameMap.ext_get? fun p => Option.ext fun x => (hy.exports p x).trans (hx p x).symm
    obtain rfl : concealed = .ofList d.conceals :=
      NameSet.ext fun p => (hy.concealed p).trans NameSet.mem_ofList.symm
    rfl
  · rintro rfl
    exact ⟨rfl, fun n => NameSet.mem_ofList, hx, fun p => NameSet.mem_ofList⟩

/-- The items of a list and those of a list of their reorderings pass the same tests. -/
theorem exists_iff_of_forall₂ {α : Type} {R : α → α → Prop} {P : α → Prop} {l l' : List α}
    (h : List.Forall₂ R l l') (hP : ∀ a b, R a b → (P a ↔ P b)) :
    (∃ a ∈ l, P a) ↔ ∃ b ∈ l', P b := by
  induction h with
  | nil => rfl
  | cons hab _ ih => rw [List.exists_mem_cons_iff, List.exists_mem_cons_iff, hP _ _ hab, ih]

theorem Reorders.exists_iff (h : d.Reorders d') {P : ExportItem → Prop}
    (hP : ∀ i j : ExportItem, i.Reorders j → (P i ↔ P j)) :
    (∃ i ∈ d.exports, P i) ↔ ∃ i ∈ d'.exports, P i := by
  obtain ⟨items, hp, hr⟩ := h.exports
  rw [← exists_iff_of_forall₂ hr hP]
  simp only [hp.mem_iff]

theorem Reorders.perm_packages (h : d.Reorders d') :
    (d.exports.map (·.package)).Perm (d'.exports.map (·.package)) := by
  obtain ⟨items, hp, hr⟩ := h.exports
  have he : items.map (·.package) = d'.exports.map (·.package) := by
    rw [← List.forall₂_eq_eq_eq, List.forall₂_map_left_iff, List.forall₂_map_right_iff]
    exact hr.imp fun _ _ h => h.package
  exact he ▸ hp.map _

theorem Reorders.wellFormed_iff (h : d.Reorders d') : d.WellFormed ↔ d'.WellFormed := by
  have hx : (∀ i ∈ d.exports, i.WellFormed) ↔ ∀ i ∈ d'.exports, i.WellFormed := by
    have hn := h.exists_iff fun i j hij => not_congr hij.wellFormed_iff
    simpa using not_congr hn
  have hp := h.perm_packages
  rw [Declaration.wellFormed_iff, Declaration.wellFormed_iff, hx, hp.nodup_iff, h.name,
    h.requires.nodup_iff, h.conceals.nodup_iff]
  simp only [h.requires.mem_iff, h.conceals.mem_iff, hp.mem_iff]

theorem Reorders.describes_iff (h : d.Reorders d') {y : Descriptor} :
    d.Describes y ↔ d'.Describes y := by
  have hx : ∀ p x, (∃ i ∈ d.exports, i.package = p ∧ i.Declares x) ↔
      ∃ i ∈ d'.exports, i.package = p ∧ i.Declares x := fun p x =>
    h.exists_iff fun i j hij => and_congr (by rw [hij.package]) hij.declares_iff
  simp only [Declaration.describes_iff, h.name, h.requires.mem_iff, h.conceals.mem_iff, hx]

theorem descriptor_eq_ok_iff_describes {y : Descriptor} :
    d.descriptor = .ok y ↔ d.WellFormed ∧ d.Describes y := by
  rw [descriptor_eq_ok_iff]
  exact and_congr_right fun h => h.describes_iff.symm

theorem Reorders.descriptor_eq_ok_iff (h : d.Reorders d') {y : Descriptor} :
    d.descriptor = .ok y ↔ d'.descriptor = .ok y := by
  rw [descriptor_eq_ok_iff_describes, descriptor_eq_ok_iff_describes, h.wellFormed_iff,
    h.describes_iff]

theorem Describes.mem_exports_iff {y : Descriptor} (h : d.Describes y) :
    p ∈ y.exports ↔ p ∈ d.exports.map (·.package) := by
  simp only [NameMap.mem_iff_exists, h.exports, List.mem_map, ExportItem.declares_iff_eq]
  constructor
  · rintro ⟨x, i, hi, hp, -⟩
    exact ⟨i, hi, hp⟩
  · rintro ⟨i, hi, hp⟩
    exact ⟨_, i, hi, hp, rfl⟩

/-- The descriptor of a declaration keeps what the declaration was asked. -/
theorem wellFormed_of_descriptor {y : Descriptor} (h : d.descriptor = .ok y) :
    y.WellFormed := by
  obtain ⟨hw, hd⟩ := descriptor_eq_ok_iff_describes.1 h
  constructor
  · exact hd.name ▸ hw.name
  · intro n hn
    exact hd.name ▸ hw.requires n ((hd.requires n).1 hn)
  · intro p hp
    obtain ⟨i, hi, rfl⟩ := List.mem_map.1 (hd.mem_exports_iff.1 hp)
    exact (hw.exports i hi).package
  · intro p s hs
    obtain ⟨i, hi, -, targets, ht, hm⟩ := (hd.exports p _).1 hs
    obtain ⟨hne, hv, -⟩ := (hw.exports i hi).targets targets ht
    refine ⟨fun he => hne (List.eq_nil_iff_forall_not_mem.2 fun t ht => ?_), fun t ht => ?_⟩
    · exact NameMap.not_mem_of_keys_eq_nil he t ((hm t).2 ht)
    · exact hv t ((hm t).1 ht)
  · intro p hp
    rw [hd.mem_exports_iff]
    exact hw.conceals p ((hd.concealed p).1 hp)

/-- A declaration has a descriptor exactly if it is well formed. The descriptor then holds what is
declared and nothing else, and it is the same for every order of the items. -/
theorem descriptor_exact (d : Declaration) :
    ((∃ y, d.descriptor = .ok y) ↔ d.WellFormed) ∧
    (∀ y, d.descriptor = .ok y ↔ d.WellFormed ∧ d.Describes y) ∧
    ∀ d', d.Reorders d' → ∀ y, d.descriptor = .ok y ↔ d'.descriptor = .ok y := by
  refine ⟨⟨?_, ?_⟩, fun y => descriptor_eq_ok_iff_describes, fun d' h y => h.descriptor_eq_ok_iff⟩
  · rintro ⟨y, hy⟩
    exact (descriptor_eq_ok_iff.1 hy).1
  · intro h
    exact ⟨d.declared, descriptor_eq_ok_iff.2 ⟨h, rfl⟩⟩

def pairs : Declaration where
  name := "a"
  requires := ["b", "c"]
  exports := [⟨"p", none⟩, ⟨"q", some ["b", "c"]⟩]
  conceals := ["r", "s"]

def swapped : Declaration where
  name := "a"
  requires := ["c", "b"]
  exports := [⟨"q", some ["c", "b"]⟩, ⟨"p", none⟩]
  conceals := ["s", "r"]

theorem descriptor_exact_swapped : pairs.WellFormed ∧ pairs.Describes pairs.declared ∧
    swapped.descriptor = .ok pairs.declared := by
  have hd : pairs.descriptor = .ok pairs.declared := by decide
  have hitems : List.Forall₂ ExportItem.Reorders
      [⟨"q", some ["b", "c"]⟩, ⟨"p", none⟩] swapped.exports :=
    .cons ⟨rfl, .some (.swap ..)⟩ (.cons ⟨rfl, .none⟩ .nil)
  have hr : pairs.Reorders swapped := ⟨rfl, .swap .., ⟨_, .swap .., hitems⟩, .swap ..⟩
  obtain ⟨hwf, hiff, hsame⟩ := descriptor_exact pairs
  exact ⟨hwf.1 ⟨_, hd⟩, ((hiff _).1 hd).2, (hsame swapped hr _).1 hd⟩

end Declaration
end ModuleGraph
