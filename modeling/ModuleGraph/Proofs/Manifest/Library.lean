import ModuleGraph.Proofs.Finder.Library
import ModuleGraph.Proofs.Manifest
import ModuleGraph.Proofs.Manifest.Entry

/-! # Libraries of manifests

A manifest makes a library if every entry has a descriptor and no name comes twice. The library
then answers the name of each entry with its descriptor.
-/

namespace ModuleGraph

theorem mapError_eq_ok_iff {α ε ε' : Type} {f : ε → ε'} {x : Except ε α} {a : α} :
    x.mapError f = .ok a ↔ x = .ok a := by
  cases x with
  | error e => exact ⟨nofun, nofun⟩
  | ok b => simp only [Except.mapError, Except.ok.injEq]

theorem mapM_eq_ok_iff {α β ε : Type} {f : α → Except ε β} {l : List α} {bs : List β} :
    l.mapM f = .ok bs ↔ List.Forall₂ (fun a b => f a = .ok b) l bs := by
  induction l generalizing bs with
  | nil =>
    rw [List.mapM_nil, List.forall₂_nil_left_iff]
    exact (Except.ok.injEq ..).to_iff.trans eq_comm
  | cons a l ih =>
    simp only [List.mapM_cons, bind_eq_ok_iff, ih, List.forall₂_cons_left_iff]
    constructor
    · rintro ⟨b, hb, bs, hbs, h⟩
      exact ⟨b, bs, hb, hbs, (Except.ok.inj h).symm⟩
    · rintro ⟨b, bs, hb, hbs, rfl⟩
      exact ⟨b, hb, bs, hbs, rfl⟩

namespace Manifest

/-- A file holds the text of a manifest. -/
def IsIn (m : Manifest) (file : FileBytes) : Prop :=
  ∃ s, file >>= textOf = .ok s ∧ parse? s = some m

structure Declares (m : Manifest) (lib : Library) : Prop where
  described : ∀ e ∈ m.modules, ∃ d, e.descriptor = .ok d
  nodup : m.names.Nodup
  get?_iff : ∀ n d, lib.get? n = some d ↔ ∃ e ∈ m.modules, e.name = n ∧ e.descriptor = .ok d

variable {m m' : Manifest} {lib lib' : Library} {ds : List Descriptor} {d : Descriptor}
  {file : FileBytes}

theorem IsIn.unique (h : m.IsIn file) (h' : m'.IsIn file) : m = m' := by
  obtain ⟨s, hs, hm⟩ := h
  obtain ⟨s', hs', hm'⟩ := h'
  obtain rfl := Except.ok.inj (hs.symm.trans hs')
  exact Option.some.inj (hm.symm.trans hm')

theorem isIn_text (m : Manifest) : m.IsIn (.ok m.text.toUTF8) := by
  have hs : String.fromUTF8? m.text.toUTF8 = some m.text := dif_pos m.text.isValidUTF8
  refine ⟨m.text, ?_, parse?_text m⟩
  change textOf m.text.toUTF8 = _
  rw [textOf, hs]

theorem Declares.unique (h : m.Declares lib) (h' : m.Declares lib') : lib = lib' := by
  apply NameMap.ext_get?
  intro n
  ext d
  rw [h.get?_iff, h'.get?_iff]

theorem descriptors_eq_ok_iff :
    m.descriptors = .ok ds ↔ List.Forall₂ (fun e d => e.descriptor = .ok d) m.modules ds := by
  rw [descriptors, mapError_eq_ok_iff, mapM_eq_ok_iff]

theorem exists_descriptors_iff :
    (∃ ds, m.descriptors = .ok ds) ↔ ∀ e ∈ m.modules, ∃ d, e.descriptor = .ok d := by
  simp only [descriptors, mapError_eq_ok_iff]
  rcases mapM_cases Entry.descriptor m.modules with
    ⟨hall, hds⟩ | ⟨before, e, after, err, hm, -, he, herr⟩
  · exact iff_of_true hds hall
  · refine iff_of_false ?_ ?_
    · rintro ⟨ds, hds⟩
      cases herr.symm.trans hds
    · intro hall
      obtain ⟨d, hd⟩ := hall e (by simp [hm])
      cases he.symm.trans hd

theorem map_name_descriptors (h : m.descriptors = .ok ds) : ds.map (·.name) = m.names := by
  have hd := descriptors_eq_ok_iff.1 h
  have hn : List.Forall₂ (fun e d => e.name = d.name) m.modules ds :=
    hd.imp fun e d h => (Entry.name_of_descriptor h).symm
  rw [names, eq_comm, ← List.forall₂_eq_eq_eq, List.forall₂_map_left_iff,
    List.forall₂_map_right_iff]
  exact hn

theorem mem_descriptors (h : m.descriptors = .ok ds) :
    d ∈ ds ↔ ∃ e ∈ m.modules, e.descriptor = .ok d := by
  rw [descriptors_eq_ok_iff] at h
  generalize m.modules = es at h ⊢
  induction h with
  | nil => simp
  | cons he _ ih => rw [List.mem_cons, List.exists_mem_cons_iff, ih, he, Except.ok.injEq, eq_comm]

theorem declares_of_library (h : m.library = .ok lib) : m.Declares lib := by
  obtain ⟨ds, hds, h⟩ := bind_eq_ok_iff.1 h
  rw [mapError_eq_ok_iff] at h
  refine ⟨exists_descriptors_iff.1 ⟨ds, hds⟩, ?_, fun n d => ?_⟩
  · rw [← map_name_descriptors hds]
    exact (Library.of_eq_ok_iff.1 h).1
  · rw [Library.get?_of_iff h, mem_descriptors hds]
    constructor
    · rintro ⟨⟨e, he, hd⟩, rfl⟩
      exact ⟨e, he, (Entry.name_of_descriptor hd).symm, hd⟩
    · rintro ⟨e, he, rfl, hd⟩
      exact ⟨⟨e, he, hd⟩, Entry.name_of_descriptor hd⟩

theorem exists_library (hd : ∀ e ∈ m.modules, ∃ d, e.descriptor = .ok d) (hn : m.names.Nodup) :
    ∃ lib, m.library = .ok lib := by
  obtain ⟨ds, hds⟩ := exists_descriptors_iff.2 hd
  rw [← map_name_descriptors hds] at hn
  refine ⟨.ofList (ds.map fun d => (d.name, d)), ?_⟩
  rw [library, hds]
  exact mapError_eq_ok_iff.2 (Library.of_eq_ok_iff.2 ⟨hn, rfl⟩)

theorem library_eq_ok_iff : m.library = .ok lib ↔ m.Declares lib := by
  constructor
  · exact declares_of_library
  · intro h
    obtain ⟨lib', hl⟩ := exists_library h.described h.nodup
    rw [hl, h.unique (declares_of_library hl)]

theorem ofText_eq_ok_iff {s : String} :
    ofText s = .ok m ↔ parse? s = some m ∧ ∃ ds, m.descriptors = .ok ds := by
  rw [ofText]
  cases parse? s with
  | none => simp
  | some m' =>
    dsimp only
    rw [Option.some.injEq]
    cases hd : m'.descriptors with
    | error e =>
      constructor
      · intro h
        cases h
      · rintro ⟨rfl, ds, hds⟩
        cases hd.symm.trans hds
    | ok ds =>
      rw [Except.map, Except.ok.injEq]
      refine (and_iff_left_of_imp ?_).symm
      rintro rfl
      exact ⟨ds, hd⟩

theorem ofFile_eq_ok_iff :
    ofFile file = .ok m ↔ m.IsIn file ∧ ∀ e ∈ m.modules, ∃ d, e.descriptor = .ok d := by
  rw [← exists_descriptors_iff, ofFile, IsIn]
  cases file >>= textOf with
  | error e => simp
  | ok s => simp [ofText_eq_ok_iff]

end Manifest
end ModuleGraph
