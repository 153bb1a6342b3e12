import Mathlib.Data.List.Sort
import Mathlib.Data.String.Basic
import ModuleGraph.Proofs.Manifest.Library

/-! # Normal forms of entries

The descriptors of declarations are the well-formed ones, and the entry of a well-formed descriptor
has that descriptor again. For an entry with a descriptor it is the entry itself with every list
ascending, so entries have one descriptor exactly if they differ in the order of their lists only.
-/

namespace ModuleGraph

theorem NameMap.keys_eq_mergeSort {α : Type} {m : NameMap α} {l : List String} (hl : l.Nodup)
    (h : ∀ k, k ∈ m ↔ k ∈ l) : m.keys = l.mergeSort := by
  have hm : m.keys.Perm l :=
    (List.perm_ext_iff_of_nodup m.nodup_keys hl).2 fun k => mem_keys.trans (h k)
  have hp : m.keys.Perm l.mergeSort := hm.trans (List.mergeSort_perm l _).symm
  exact hp.eq_of_sortedLE m.ascending_keys.sortedLT.sortedLE List.sortedLE_mergeSort

theorem NameSet.toList_eq_mergeSort_iff {s : NameSet} {l : List String} (hl : l.Nodup) :
    s.toList = l.mergeSort ↔ ∀ n, n ∈ s ↔ n ∈ l := by
  constructor
  · intro h n
    rw [← NameSet.mem_toList, h, List.mem_mergeSort]
  · exact NameMap.keys_eq_mergeSort hl

namespace Entry

def sorted (e : Entry) : Entry where
  name := e.name
  requires := e.requires.mergeSort
  exports := e.exports.mergeSort
  conceals := e.conceals.mergeSort
  exportsTo := e.exportsTo.mapValues fun _ targets => targets.mergeSort

variable {e e' : Entry} {d : Descriptor} {p : String} {targets : List String}

theorem mk_none_mem_declaration : ⟨p, none⟩ ∈ e.declaration.exports ↔ p ∈ e.exports := by
  simp [declaration]

theorem mk_some_mem_declaration :
    ⟨p, some targets⟩ ∈ e.declaration.exports ↔ e.exportsTo.get? p = some targets := by
  simp [declaration, NameMap.get?_eq_some_iff]

theorem mem_exports_ofDescriptor :
    p ∈ (ofDescriptor d).exports ↔ d.exports.get? p = some .unqualified := by
  rw [ofDescriptor, NameMap.mem_keys, NameMap.mem_iff_exists]
  simp only [NameMap.get?_filter, Option.filter_eq_some_iff]
  constructor
  · rintro ⟨x, hx, hq⟩
    cases x with
    | unqualified => exact hx
    | qualified s => simp [Export.isQualified, Export.targets?] at hq
  · intro h
    exact ⟨_, h, rfl⟩

theorem get?_exportsTo_ofDescriptor : (ofDescriptor d).exportsTo.get? p = some targets ↔
    ∃ s, d.exports.get? p = some (.qualified s) ∧ s.toList = targets := by
  rw [ofDescriptor, NameMap.get?_mapValues, NameMap.get?_filter]
  simp only [Option.map_eq_some_iff, Option.filter_eq_some_iff]
  constructor
  · rintro ⟨x, ⟨hx, hq⟩, ht⟩
    cases x with
    | unqualified => simp [Export.isQualified, Export.targets?] at hq
    | qualified s => exact ⟨s, hx, ht⟩
  · rintro ⟨s, hs, ht⟩
    exact ⟨_, ⟨hs, rfl⟩, ht⟩

theorem describes_ofDescriptor (d : Descriptor) : (ofDescriptor d).declaration.Describes d := by
  refine ⟨rfl, fun n => NameSet.mem_toList.symm, fun p x => ?_, fun p => NameSet.mem_toList.symm⟩
  simp only [ExportItem.declares_iff_eq]
  constructor
  · intro h
    cases x with
    | unqualified =>
      exact ⟨⟨p, none⟩, mk_none_mem_declaration.2 (mem_exports_ofDescriptor.2 h), rfl, rfl⟩
    | qualified s =>
      refine ⟨⟨p, some s.toList⟩, ?_, rfl, congrArg _ s.ofList_toList.symm⟩
      exact mk_some_mem_declaration.2 (get?_exportsTo_ofDescriptor.2 ⟨s, h, rfl⟩)
  · rintro ⟨⟨p, none | targets⟩, hi, rfl, rfl⟩
    · exact mem_exports_ofDescriptor.1 (mk_none_mem_declaration.1 hi)
    · obtain ⟨s, hs, rfl⟩ := get?_exportsTo_ofDescriptor.1 (mk_some_mem_declaration.1 hi)
      exact hs.trans (congrArg _ (congrArg _ s.ofList_toList.symm))

theorem nodup_packages_ofDescriptor (d : Descriptor) :
    ((ofDescriptor d).declaration.exports.map (·.package)).Nodup := by
  rw [packages_declaration, List.nodup_append']
  refine ⟨NameMap.nodup_keys _, NameMap.nodup_keys _, fun p hp hq => ?_⟩
  obtain ⟨targets, ht⟩ := NameMap.mem_iff_exists.1 (NameMap.mem_keys.1 hq)
  obtain ⟨s, hs, -⟩ := get?_exportsTo_ofDescriptor.1 ht
  cases (mem_exports_ofDescriptor.1 hp).symm.trans hs

theorem wellFormed_ofDescriptor (h : d.WellFormed) : (ofDescriptor d).declaration.WellFormed := by
  have hp : ∀ p, p ∈ d.exports ↔ p ∈ (ofDescriptor d).declaration.exports.map (·.package) :=
    fun p => (describes_ofDescriptor d).mem_exports_iff
  refine ⟨h.name, ?_, NameSet.nodup_toList _, ?_, nodup_packages_ofDescriptor d, ?_,
    NameSet.nodup_toList _⟩
  · intro n hn
    exact h.requires n (NameSet.mem_toList.1 hn)
  · intro i hi
    refine ⟨h.exports _ ((hp _).2 (List.mem_map_of_mem hi)), fun targets ht => ?_⟩
    obtain ⟨p, t⟩ := i
    obtain rfl : t = some targets := ht
    obtain ⟨s, hs, rfl⟩ := get?_exportsTo_ofDescriptor.1 (mk_some_mem_declaration.1 hi)
    obtain ⟨hne, hv⟩ := h.targets p s hs
    exact ⟨hne, fun t ht => hv t (NameSet.mem_toList.1 ht), s.nodup_toList⟩
  · intro p hc
    rw [← hp]
    exact h.concealed p (NameSet.mem_toList.1 hc)

theorem descriptor_ofDescriptor (h : d.WellFormed) : (ofDescriptor d).descriptor = .ok d :=
  Declaration.descriptor_eq_ok_iff_describes.2
    ⟨wellFormed_ofDescriptor h, describes_ofDescriptor d⟩

theorem sorted_sorted (e : Entry) : e.sorted.sorted = e.sorted := by
  have hs : ∀ l : List String, l.mergeSort.mergeSort = l.mergeSort := fun l =>
    List.mergeSort_eq_self _ List.sortedLE_mergeSort.pairwise
  have hm : e.sorted.exportsTo.mapValues (fun _ targets => targets.mergeSort) =
      e.sorted.exportsTo :=
    NameMap.ext_get? fun p => by simp [sorted, NameMap.get?_mapValues, Function.comp_def, hs]
  rw [sorted, hm]
  simp only [sorted, hs]

/-- An entry and its sorted form have the same items, in different order. -/
theorem reorders_sorted (e : Entry) : e.declaration.Reorders e.sorted.declaration := by
  -- First the unqualified exports change places, then the targets of each qualified one.
  have hitems : List.Forall₂ ExportItem.Reorders
      (e.exports.mergeSort.map (fun p => ⟨p, none⟩) ++
        e.exportsTo.entries.map fun i => ⟨i.1, some i.2⟩) e.sorted.declaration.exports := by
    refine List.rel_append (List.forall₂_same.2 fun i hi => ?_) ?_
    · obtain ⟨p, -, rfl⟩ := List.mem_map.1 hi
      exact ⟨rfl, .none⟩
    · simp only [sorted, NameMap.mapValues, List.forall₂_map_left_iff, List.forall₂_map_right_iff]
      exact List.forall₂_same.2 fun i _ => ⟨rfl, .some (List.mergeSort_perm ..).symm⟩
  have hexports : (e.exports.map fun p => (⟨p, none⟩ : ExportItem)).Perm
      (e.exports.mergeSort.map fun p => ⟨p, none⟩) := (List.mergeSort_perm ..).symm.map _
  exact ⟨rfl, (List.mergeSort_perm ..).symm, ⟨_, hexports.append_right _, hitems⟩,
    (List.mergeSort_perm ..).symm⟩

theorem descriptor_sorted : e.sorted.descriptor = .ok d ↔ e.descriptor = .ok d :=
  e.reorders_sorted.descriptor_eq_ok_iff.symm

theorem get?_unqualified_iff (h : e.descriptor = .ok d) :
    d.exports.get? p = some .unqualified ↔ p ∈ e.exports := by
  rw [(Declaration.descriptor_eq_ok_iff_describes.1 h).2.exports, ← mk_none_mem_declaration]
  constructor
  · rintro ⟨⟨p, targets⟩, hi, rfl, rfl⟩
    exact hi
  · intro hi
    exact ⟨_, hi, rfl, rfl⟩

theorem get?_qualified_iff (h : e.descriptor = .ok d) {s : NameSet} :
    d.exports.get? p = some (.qualified s) ↔
      ∃ targets, e.exportsTo.get? p = some targets ∧ ∀ t, t ∈ s ↔ t ∈ targets := by
  rw [(Declaration.descriptor_eq_ok_iff_describes.1 h).2.exports]
  constructor
  · rintro ⟨⟨p, _⟩, hi, rfl, targets, rfl, ht⟩
    exact ⟨targets, mk_some_mem_declaration.1 hi, ht⟩
  · rintro ⟨targets, hi, ht⟩
    exact ⟨_, mk_some_mem_declaration.2 hi, rfl, targets, rfl, ht⟩

theorem ofDescriptor_eq_sorted (h : e.descriptor = .ok d) : ofDescriptor d = e.sorted := by
  obtain ⟨hw, hd⟩ := Declaration.descriptor_eq_ok_iff_describes.1 h
  have hp := hw.nodup_exports
  rw [packages_declaration, List.nodup_append'] at hp
  have hexports : (ofDescriptor d).exports = e.exports.mergeSort :=
    NameMap.keys_eq_mergeSort hp.1 fun p => by
      rw [← NameMap.mem_keys, ← get?_unqualified_iff h]
      exact mem_exports_ofDescriptor
  have hto : (ofDescriptor d).exportsTo = e.sorted.exportsTo := by
    refine NameMap.ext_get? fun p => Option.ext fun l => ?_
    rw [sorted, NameMap.get?_mapValues, get?_exportsTo_ofDescriptor, Option.map_eq_some_iff]
    simp only [get?_qualified_iff h]
    -- The targets of an item are distinct, so that a set of the same names lists them in order.
    have hl : ∀ targets, e.exportsTo.get? p = some targets → targets.Nodup := fun targets ht =>
      ((hw.exports _ (mk_some_mem_declaration.2 ht)).targets targets rfl).2.2
    constructor
    · rintro ⟨s, ⟨targets, ht, hs⟩, rfl⟩
      exact ⟨targets, ht, ((NameSet.toList_eq_mergeSort_iff (hl targets ht)).2 hs).symm⟩
    · rintro ⟨targets, ht, rfl⟩
      have hs : ∀ t, t ∈ NameSet.ofList targets ↔ t ∈ targets := fun t => NameSet.mem_ofList
      exact ⟨_, ⟨targets, ht, hs⟩, (NameSet.toList_eq_mergeSort_iff (hl targets ht)).2 hs⟩
  rw [ofDescriptor, sorted, Entry.mk.injEq]
  exact ⟨hd.name, (NameSet.toList_eq_mergeSort_iff hw.nodup_requires).2 hd.requires, hexports,
    (NameSet.toList_eq_mergeSort_iff hw.nodup_conceals).2 hd.concealed, hto⟩

/-- The entry of a descriptor has that descriptor, and the entry of an entry's descriptor is its
sorted form. Sorting twice changes nothing, and one descriptor is that of exactly the entries with
one sorted form. -/
theorem ofDescriptor_normal_form :
    (∀ c : Declaration, ∀ d, c.descriptor = .ok d → (ofDescriptor d).descriptor = .ok d) ∧
    (∀ e : Entry, ∀ d, e.descriptor = .ok d → ofDescriptor d = e.sorted ∧
      e.declaration.Reorders e.sorted.declaration ∧ e.sorted.descriptor = .ok d ∧
      e.sorted.sorted = e.sorted) ∧
    ∀ e e' : Entry, ∀ d, e.descriptor = .ok d →
      (e'.descriptor = .ok d ↔ e'.sorted = e.sorted) := by
  refine ⟨fun c d h => descriptor_ofDescriptor (Declaration.wellFormed_of_descriptor h),
    fun e d h => ⟨ofDescriptor_eq_sorted h, e.reorders_sorted, descriptor_sorted.2 h,
      e.sorted_sorted⟩, ?_⟩
  intro e e' d h
  constructor
  · intro h'
    rw [← ofDescriptor_eq_sorted h', ofDescriptor_eq_sorted h]
  · intro hs
    rw [← descriptor_sorted, hs, descriptor_sorted, h]

def descending : Entry where
  name := "a"
  requires := ["c", "b"]
  exports := ["q", "p"]
  conceals := ["s", "r"]
  exportsTo := .ofList [("t", ["c", "b"])]

def ascending : Entry where
  name := "a"
  requires := ["b", "c"]
  exports := ["p", "q"]
  conceals := ["r", "s"]
  exportsTo := .ofList [("t", ["b", "c"])]

theorem ofDescriptor_normal_form_descending : descending.sorted = ascending ∧
    ascending.sorted = ascending ∧ ascending.descriptor = .ok descending.declaration.declared := by
  have hd : descending.descriptor = .ok descending.declaration.declared := by decide
  have ha : ofDescriptor descending.declaration.declared = ascending := by decide
  obtain ⟨hentry, hsorted, hsame⟩ := ofDescriptor_normal_form
  have hs : descending.sorted = ascending := (hsorted _ _ hd).1.symm.trans ha
  have hdesc : ascending.descriptor = .ok descending.declaration.declared :=
    ha ▸ hentry descending.declaration _ hd
  exact ⟨hs, ((hsame _ _ _ hd).1 hdesc).trans hs, hdesc⟩

end Entry

theorem Manifest.descriptors_ofDescriptors {ds : List Descriptor} (h : ∀ d ∈ ds, d.WellFormed) :
    (ofDescriptors ds).descriptors = .ok ds := by
  rw [descriptors_eq_ok_iff, ofDescriptors, List.forall₂_map_left_iff, List.forall₂_same]
  intro d hd
  exact Entry.descriptor_ofDescriptor (h d hd)

end ModuleGraph
