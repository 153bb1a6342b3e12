import Mathlib.Tactic.SplitIfs
import ModuleGraph.Finder.Library
import ModuleGraph.Proofs.NameMap.Filing

/-! # Descriptors by their own names

A library made of descriptors has each under its own name and fails to be made at the first name
that comes again. Offering descriptors to a library adds the first of each name that it lacks.
-/

namespace ModuleGraph.Library

/-- Each descriptor stands under its own name. -/
def OwnNames (l : Library) : Prop := ∀ n d, l.get? n = some d → d.name = n

variable {l lib : Library} {d : Descriptor} {ds : List Descriptor} {n : String}

theorem add_eq_ok_iff : l.add d = .ok lib ↔ True ∧ d.name ∉ l ∧ lib = l.insert d.name d := by
  unfold add
  split_ifs <;> simp_all [eq_comm (a := lib)]

theorem add_eq_error_iff {err : FinderError} :
    l.add d = .error err ↔ d.name ∈ l ∧ err = .duplicateModule d.name := by
  unfold add
  split_ifs <;> simp_all [eq_comm (a := err)]

theorem of_eq_ok_iff : of ds = .ok lib ↔
    (ds.map (·.name)).Nodup ∧ lib = .ofList (ds.map fun d => (d.name, d)) := by
  rw [of, foldlM_empty_eq_ok_iff Descriptor.name id fun _ _ _ => add_eq_ok_iff,
    and_iff_right fun _ _ => trivial]
  rfl

theorem get?_of_iff (h : of ds = .ok lib) : lib.get? n = some d ↔ d ∈ ds ∧ d.name = n := by
  obtain ⟨hn, rfl⟩ := of_eq_ok_iff.1 h
  have hk : ((ds.map fun d => (d.name, d)).map (·.1)).Nodup := by
    rwa [List.map_map]
  rw [NameMap.get?_ofList_iff hk, List.mem_map]
  constructor
  · rintro ⟨e, he, hp⟩
    cases hp
    exact ⟨he, rfl⟩
  · rintro ⟨hd, rfl⟩
    exact ⟨d, hd, rfl⟩

theorem mem_of_iff (h : of ds = .ok lib) : n ∈ lib ↔ n ∈ ds.map (·.name) := by
  simp only [NameMap.mem_iff_exists, get?_of_iff h, List.mem_map]

theorem of_eq_error_iff {err : FinderError} : of ds = .error err ↔
    ∃ before d after, ds = before ++ d :: after ∧ (before.map (·.name)).Nodup ∧
      d.name ∈ before.map (·.name) ∧ err = .duplicateModule d.name := by
  rw [of, foldlM_eq_error_iff]
  refine exists_congr fun before => exists_congr fun d => exists_congr fun after => ?_
  simp only [add_eq_error_iff, exists_and_left]
  refine and_congr_right fun _ => ?_
  constructor
  · rintro ⟨lib, hlib, hd, rfl⟩
    exact ⟨(of_eq_ok_iff.1 hlib).1, (mem_of_iff hlib).1 hd, rfl⟩
  · rintro ⟨hn, hd, rfl⟩
    have hlib := of_eq_ok_iff.2 ⟨hn, rfl⟩
    exact ⟨_, hlib, (mem_of_iff hlib).2 hd, rfl⟩

theorem ownNames_empty : OwnNames ∅ := nofun

theorem ownNames_of (h : of ds = .ok l) : l.OwnNames := fun _ _ hd => ((get?_of_iff h).1 hd).2

theorem OwnNames.map_name_values (h : l.OwnNames) : l.values.map (·.name) = l.keys :=
  (NameMap.map_values _ id l h).trans (List.map_id _)

theorem OwnNames.mem_values_iff (h : l.OwnNames) :
    d ∈ l.values ∧ d.name = n ↔ l.get? n = some d := by
  rw [NameMap.mem_values]
  constructor
  · rintro ⟨⟨k, hk⟩, rfl⟩
    rwa [h k d hk]
  · intro hd
    exact ⟨⟨n, hd⟩, h n d hd⟩

theorem find?_name_eq {o : Option Descriptor} (h : ∀ d, d ∈ ds ∧ d.name = n ↔ o = some d) :
    (ds.find? fun d => d.name = n) = o := by
  cases hf : ds.find? fun d => d.name = n with
  | none =>
    rw [List.find?_eq_none] at hf
    refine (Option.eq_none_iff_forall_ne_some.2 fun d hd => ?_).symm
    obtain ⟨hm, hn⟩ := (h d).2 hd
    exact hf d hm (by simpa using hn)
  | some d =>
    have hn : d.name = n := by simpa using List.find?_some hf
    exact ((h d).1 ⟨List.mem_of_find?_eq_some hf, hn⟩).symm

theorem OwnNames.find?_values (h : l.OwnNames) (n : String) :
    (l.values.find? fun d => d.name = n) = l.get? n :=
  find?_name_eq fun _ => h.mem_values_iff

theorem find?_of (h : of ds = .ok lib) (n : String) :
    (ds.find? fun d => d.name = n) = lib.get? n :=
  find?_name_eq fun _ => (get?_of_iff h).symm

theorem get?_offer (l : Library) (d : Descriptor) (n : String) :
    (l.offer d).get? n = (l.get? n).or (if d.name = n then some d else none) := by
  unfold offer
  split_ifs with hd hn hn
  · subst hn
    obtain ⟨e, he⟩ := NameMap.mem_iff_exists.1 hd
    rw [he, Option.some_or]
  · rw [Option.or_none]
  · subst hn
    rw [NameMap.get?_insert, if_pos rfl, NameMap.not_mem_iff.1 hd, Option.none_or]
  · rw [NameMap.get?_insert, if_neg (Ne.symm hn), Option.or_none]

theorem get?_foldl_offer (ds : List Descriptor) (l : Library) (n : String) :
    (ds.foldl offer l).get? n = (l.get? n).or (ds.find? fun d => d.name = n) := by
  induction ds generalizing l with
  | nil => simp
  | cons d ds ih =>
    rw [List.foldl_cons, ih, get?_offer, Option.or_assoc, List.find?_cons]
    by_cases hd : d.name = n <;> simp [hd]

theorem ownNames_foldl_offer (ds : List Descriptor) : (ds.foldl offer ∅).OwnNames := by
  intro n d hd
  rw [get?_foldl_offer, NameMap.get?_empty, Option.none_or] at hd
  simpa using List.find?_some hd

/-- Where no name comes again, offering takes every descriptor. -/
theorem eq_foldl_offer_of (h : of ds = .ok lib) : lib = ds.foldl offer ∅ :=
  NameMap.ext_get? fun n => by
    rw [get?_foldl_offer, NameMap.get?_empty, Option.none_or, find?_of h]

end ModuleGraph.Library
