import Mathlib.Data.List.Nodup
import ModuleGraph.Finder
import ModuleGraph.Proofs.Finder.Library

/-! # Compositions of finders

Finders composed of libraries act as one library: what they answer is what they list, under its own
name, and it comes from the first leaf that holds the name. The checked list of composed finders
fails exactly if two of them supply one name.
-/

namespace ModuleGraph.Finder

/-- Made of libraries and of finders without answers by composing, in any nesting. -/
inductive Built : Finder → Prop
  | empty : Built .empty
  | library {ds : List Descriptor} {modules : Library} :
      Library.of ds = .ok modules → Built (.library modules)
  | composed {parts : List Finder} : (∀ f ∈ parts, Built f) → Built (.composed parts)

mutual

def leaves : Finder → List Finder
  | empty => [empty]
  | library modules => [library modules]
  | filed entries => [filed entries]
  | composed parts => leavesOfAll parts

def leavesOfAll : List Finder → List Finder
  | [] => []
  | f :: fs => leaves f ++ leavesOfAll fs

end

def filledLeaves (f : Finder) : List Finder := f.leaves.filter fun l => !l.findAll.isEmpty

def names (f : Finder) : List String := f.findAll.map (·.name)

/-- Answers and lists what a library holds. -/
structure ActsAs (f : Finder) (l : Library) : Prop where
  ownNames : l.OwnNames
  find : ∀ n, f.find n = l.get? n
  findAll : f.findAll = l.values

variable {f g : Finder} {parts : List Finder} {n : String} {d : Descriptor} {l l' : Library}

theorem built_composed_iff : (composed parts).Built ↔ ∀ f ∈ parts, f.Built := by
  constructor
  · rintro (_ | _ | h)
    exact h
  · exact .composed

theorem built_compose_iff : (compose f g).Built ↔ f.Built ∧ g.Built := by
  rw [compose, built_composed_iff, List.forall_mem_cons, List.forall_mem_singleton]

theorem built_andThen_iff : (andThen parts f).Built ↔ (composed parts).Built ∧ f.Built := by
  rw [andThen, built_composed_iff, List.forall_mem_append, List.forall_mem_singleton,
    built_composed_iff]

mutual

theorem find_eq_findSome?_leaves (n : String) :
    ∀ f : Finder, f.find n = f.leaves.findSome? (find n)
  | empty => rfl
  | library modules => by simp [leaves]
  | filed entries => by simp [leaves]
  | composed parts => by rw [find, leaves, findFirst_eq_findSome?_leaves n parts]

theorem findFirst_eq_findSome?_leaves (n : String) :
    ∀ fs : List Finder, findFirst n fs = (leavesOfAll fs).findSome? (find n)
  | [] => rfl
  | f :: fs => by
    rw [findFirst, leavesOfAll, List.findSome?_append, find_eq_findSome?_leaves n f,
      findFirst_eq_findSome?_leaves n fs]

end

theorem leavesOfAll_eq_flatMap : ∀ fs : List Finder, leavesOfAll fs = fs.flatMap leaves
  | [] => rfl
  | f :: fs => by rw [leavesOfAll, leavesOfAll_eq_flatMap fs, List.flatMap_cons]

theorem Built.of_mem_leaves (h : f.Built) (hg : g ∈ f.leaves) : g.Built := by
  induction h with
  | empty =>
    obtain rfl := List.mem_singleton.1 hg
    exact .empty
  | library h =>
    obtain rfl := List.mem_singleton.1 hg
    exact .library h
  | composed _ ih =>
    rw [leaves, leavesOfAll_eq_flatMap, List.mem_flatMap] at hg
    obtain ⟨f, hf, hg⟩ := hg
    exact ih f hf hg

theorem ActsAs.find?_findAll (h : f.ActsAs l) (n : String) :
    (f.findAll.find? fun d => d.name = n) = f.find n := by
  rw [h.findAll, h.ownNames.find?_values, h.find]

theorem ActsAs.names_eq (h : f.ActsAs l) : f.names = l.keys := by
  rw [names, h.findAll, h.ownNames.map_name_values]

theorem ActsAs.find_eq_some_iff (h : f.ActsAs l) :
    f.find n = some d ↔ d ∈ f.findAll ∧ d.name = n := by
  rw [h.find, h.findAll, h.ownNames.mem_values_iff]

theorem ActsAs.ext (h : f.ActsAs l) (h' : g.ActsAs l') (hfg : ∀ n, f.find n = g.find n) :
    f.findAll = g.findAll := by
  have hl : l = l' := NameMap.ext_get? fun n => by rw [← h.find, ← h'.find, hfg]
  rw [h.findAll, h'.findAll, hl]

theorem findFirst_eq_find? (h : ∀ f ∈ parts, ∃ l, f.ActsAs l) (n : String) :
    findFirst n parts = (parts.flatMap findAll).find? fun d => d.name = n := by
  induction parts with
  | nil => rfl
  | cons f parts ih =>
    rw [List.forall_mem_cons] at h
    obtain ⟨⟨l, hl⟩, hs⟩ := h
    rw [findFirst, List.flatMap_cons, List.find?_append, hl.find?_findAll, ih hs]

/-- What the parts list is offered in their order, so the first of each name is kept. -/
theorem actsAs_merge (h : ∀ f ∈ parts, ∃ l, f.ActsAs l) :
    (composed parts).ActsAs (merge ∅ parts) where
  ownNames := merge_eq_foldl .. ▸ Library.ownNames_foldl_offer _
  find n := by
    rw [merge_eq_foldl, Library.get?_foldl_offer, NameMap.get?_empty, Option.none_or, find,
      findFirst_eq_find? h]
  findAll := rfl

/-- What is composed of libraries is a library again. -/
theorem Built.exists_actsAs (h : f.Built) : ∃ l, f.ActsAs l := by
  induction h with
  | empty => exact ⟨∅, Library.ownNames_empty, fun _ => rfl, rfl⟩
  | library h => exact ⟨_, Library.ownNames_of h, fun _ => rfl, rfl⟩
  | composed _ ih => exact ⟨_, actsAs_merge ih⟩

theorem Built.pairwise_names (h : f.Built) : f.names.Pairwise (· < ·) := by
  obtain ⟨l, hl⟩ := h.exists_actsAs
  exact hl.names_eq ▸ l.ascending_keys

theorem Built.nodup_names (h : f.Built) : f.names.Nodup :=
  h.pairwise_names.imp fun hlt => String.ne_of_lt hlt

theorem find_eq_some_iff_leaves : f.find n = some d ↔
    ∃ before leaf after, f.leaves = before ++ leaf :: after ∧ leaf.find n = some d ∧
      ∀ k ∈ before, k.find n = none := by
  rw [find_eq_findSome?_leaves, List.findSome?_eq_some_iff]

theorem flatMap_findAll_filledLeaves :
    f.filledLeaves.flatMap findAll = f.leaves.flatMap findAll := by
  have h : ((f.leaves.map findAll).filter fun ds => !ds.isEmpty).flatten =
      (f.leaves.map findAll).flatten := List.flatten_filter_not_isEmpty
  rwa [List.filter_map] at h

theorem Built.find_eq_find? (h : f.Built) (n : String) :
    f.find n = (f.filledLeaves.flatMap findAll).find? fun d => d.name = n := by
  rw [find_eq_findSome?_leaves, ← findFirst_eq_findSome?, flatMap_findAll_filledLeaves]
  exact findFirst_eq_find? (fun g hg => (h.of_mem_leaves hg).exists_actsAs) n

/-- Nothing but the leaves that list anything, and their order, is to be seen. -/
theorem Built.indistinguishable (hf : f.Built) (hg : g.Built)
    (h : f.filledLeaves = g.filledLeaves) : (∀ n, f.find n = g.find n) ∧ f.findAll = g.findAll := by
  have hfind : ∀ n, f.find n = g.find n := fun n => by
    rw [hf.find_eq_find?, hg.find_eq_find?, h]
  obtain ⟨l, hl⟩ := hf.exists_actsAs
  obtain ⟨l', hl'⟩ := hg.exists_actsAs
  exact ⟨hfind, hl.ext hl' hfind⟩

/-! ### The checked list -/

theorem map_name_flatMap : (parts.flatMap findAll).map (·.name) = parts.flatMap names := by
  rw [List.map_flatMap]
  rfl

theorem nodup_flatMap_names (h : ∀ f ∈ parts, f.Built) :
    (parts.flatMap names).Nodup ↔ parts.Pairwise fun f g => f.names.Disjoint g.names := by
  rw [List.nodup_flatMap, and_iff_right fun f hf => (h f hf).nodup_names]

theorem findAllChecked_isOk_iff (h : ∀ f ∈ parts, f.Built) :
    (∃ ds, findAllChecked parts = .ok ds) ↔
      parts.Pairwise fun f g => f.names.Disjoint g.names := by
  rw [← nodup_flatMap_names h, ← map_name_flatMap]
  simp only [findAllChecked, map_eq_ok_iff, Library.of_eq_ok_iff]
  constructor
  · rintro ⟨_, _, ⟨hn, -⟩, -⟩
    exact hn
  · intro hn
    exact ⟨_, _, ⟨hn, rfl⟩, rfl⟩

theorem findAllChecked_eq_findAll {ds : List Descriptor} (h : findAllChecked parts = .ok ds) :
    ds = (composed parts).findAll := by
  obtain ⟨l, hl, rfl⟩ := map_eq_ok_iff.1 h
  rw [findAll, merge_eq_foldl, Library.eq_foldl_offer_of hl]

/-- A name that comes twice in what parts supply, each without repetition, is from two parts. -/
theorem exists_sublist_of_duplicate (h : ∀ f ∈ parts, f.names.Nodup)
    (hn : [n, n].Sublist (parts.flatMap names)) :
    ∃ f g, [f, g].Sublist parts ∧ n ∈ f.names ∧ n ∈ g.names := by
  induction parts with
  | nil => cases hn
  | cons f parts ih =>
    rw [List.forall_mem_cons] at h
    rw [List.flatMap_cons, List.sublist_append_iff] at hn
    obtain ⟨l₁, l₂, he, h₁, h₂⟩ := hn
    -- The two occurrences: both in what follows, one here and one there, or both here.
    rcases l₁ with _ | ⟨a, _ | ⟨b, l₁⟩⟩
    · obtain ⟨g, g', hs, hg, hg'⟩ := ih h.2 (he ▸ h₂)
      exact ⟨g, g', hs.cons _, hg, hg'⟩
    · obtain ⟨rfl, rfl⟩ := List.cons.inj he
      obtain ⟨g, hg, hng⟩ := List.mem_flatMap.1 (List.singleton_sublist.1 h₂)
      exact ⟨f, g, (List.singleton_sublist.2 hg).cons_cons f, List.singleton_sublist.1 h₁, hng⟩
    · obtain ⟨rfl, rfl, -⟩ : n = a ∧ n = b ∧ [] = l₁ ++ l₂ := by simpa using he
      have hd : [n, n].Sublist f.names := ((List.nil_sublist l₁).cons_cons n |>.cons_cons n).trans h₁
      exact absurd hd (List.nodup_iff_sublist.1 h.1 n)

theorem exists_of_findAllChecked_eq_error {e : FinderError} (h : ∀ f ∈ parts, f.Built)
    (he : findAllChecked parts = .error e) : ∃ n f g, e = .duplicateModule n ∧
      [f, g].Sublist parts ∧ n ∈ f.names ∧ n ∈ g.names := by
  obtain ⟨before, d, after, hl, -, hd, rfl⟩ := Library.of_eq_error_iff.1 (map_eq_error_iff.1 he)
  have hn : [d.name, d.name].Sublist (parts.flatMap names) := by
    rw [← map_name_flatMap, hl, List.map_append, List.map_cons]
    exact (List.singleton_sublist.2 hd).append ((List.nil_sublist _).cons_cons d.name)
  obtain ⟨f, g, hs, hf, hg⟩ :=
    exists_sublist_of_duplicate (fun f hf => (h f hf).nodup_names) hn
  exact ⟨d.name, f, g, rfl, hs, hf, hg⟩

/-- A finder made of libraries lists its descriptors in the order of names, finds by a name what it
lists under it, which is from the first leaf that finds anything, and shows no more of how it was
made than its filled leaves. Its checked list is the plain one exactly if no two parts supply one
name, and tells such a name otherwise. -/
theorem built_coherent (h : f.Built) : f.names.Pairwise (· < ·) ∧
    (∀ n d, f.find n = some d ↔ d ∈ f.findAll ∧ d.name = n) ∧
    (∀ n d, f.find n = some d ↔
      ∃ before leaf after, f.leaves = before ++ leaf :: after ∧ leaf.find n = some d ∧
        ∀ k ∈ before, k.find n = none) ∧
    (∀ g : Finder, g.Built → f.filledLeaves = g.filledLeaves →
      (∀ n, f.find n = g.find n) ∧ f.findAll = g.findAll) ∧
    ∀ parts, f = composed parts →
      ((∃ ds, findAllChecked parts = .ok ds) ↔
        parts.Pairwise fun g k => g.names.Disjoint k.names) ∧
      (∀ ds, findAllChecked parts = .ok ds → ds = f.findAll) ∧
      ∀ e, findAllChecked parts = .error e → ∃ n g k, e = .duplicateModule n ∧
        [g, k].Sublist parts ∧ n ∈ g.names ∧ n ∈ k.names := by
  obtain ⟨l, hl⟩ := h.exists_actsAs
  refine ⟨h.pairwise_names, fun _ _ => hl.find_eq_some_iff, fun _ _ => find_eq_some_iff_leaves,
    fun _ hg => h.indistinguishable hg, ?_⟩
  rintro parts rfl
  have hparts := built_composed_iff.1 h
  exact ⟨findAllChecked_isOk_iff hparts, fun _ => findAllChecked_eq_findAll,
    fun _ => exists_of_findAllChecked_eq_error hparts⟩

def withExport : Library := .ofList [("m1", ⟨"m1", ∅, .ofList [("p1", .unqualified)], ∅⟩)]

def withoutExport : Library := .ofList [("m1", ⟨"m1", ∅, ∅, ∅⟩), ("m2", ⟨"m2", ∅, ∅, ∅⟩)]

def flat : Finder := compose (library withExport) (library withoutExport)

/-- The same leaves in another nesting, among leaves that hold nothing. -/
def nested : Finder :=
  compose (andThen [empty] (library withExport)) (compose (library withoutExport) empty)

theorem built_flat : flat.Built := by
  have h : Library.of withExport.values = .ok withExport := by rfl
  have h' : Library.of withoutExport.values = .ok withoutExport := by rfl
  exact built_compose_iff.2 ⟨.library h, .library h'⟩

theorem built_nested : nested.Built := by
  obtain ⟨h, h'⟩ := built_compose_iff.1 built_flat
  refine built_compose_iff.2 ⟨built_andThen_iff.2 ⟨?_, h⟩, built_compose_iff.2 ⟨h', .empty⟩⟩
  exact built_composed_iff.2 (by simp [Built.empty])

/-- Either nesting has `m1` from the first library, and the checked list refuses it. -/
theorem built_coherent_nested : nested.Built ∧ flat.Built ∧
    nested.filledLeaves = flat.filledLeaves ∧ nested.findAll = flat.findAll ∧
    nested.find "m1" = some ⟨"m1", ∅, .ofList [("p1", .unqualified)], ∅⟩ ∧
    ¬ ∃ ds, findAllChecked [library withExport, library withoutExport] = .ok ds := by
  have hl : nested.filledLeaves = flat.filledLeaves := by rfl
  obtain ⟨-, -, -, hsame, -⟩ := built_coherent built_nested
  obtain ⟨-, -, hfirst, -, hchecked⟩ := built_coherent built_flat
  obtain ⟨hfind, hall⟩ := hsame flat built_flat hl
  obtain ⟨hok, -⟩ := hchecked _ rfl
  refine ⟨built_nested, built_flat, hl, hall, ?_, ?_⟩
  · rw [hfind, hfirst]
    exact ⟨[], library withExport, [library withoutExport], rfl, by rfl, by simp⟩
  · rw [hok, List.pairwise_pair]
    intro hd
    exact hd (a := "m1") (by decide) (by decide)

end ModuleGraph.Finder
