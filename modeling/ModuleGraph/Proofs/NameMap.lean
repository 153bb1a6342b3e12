import Mathlib.Data.List.Dedup
import Mathlib.Data.List.Perm.Subperm
import Mathlib.Order.Bounds.Defs
import ModuleGraph.NameMap

/-! # Lookups in maps and sets of names

A key has at most one entry, so the answers of a map are its entries. What filtering, joining and
building from a list do to the answers follows from that.
-/

namespace ModuleGraph.NameMap

variable {α : Type}

theorem ascending_keys (m : NameMap α) : m.keys.Pairwise (· < ·) := by
  rw [keys, List.pairwise_map]
  exact m.ascending

theorem nodup_keys (m : NameMap α) : m.keys.Nodup :=
  List.nodup_iff_pairwise_ne.2 (m.ascending_keys.imp String.ne_of_lt)

theorem get?_eq_some_iff {m : NameMap α} {k : String} {v : α} :
    m.get? k = some v ↔ (k, v) ∈ m.entries := by
  obtain ⟨l, hl⟩ := m
  unfold get?
  induction l with
  | nil => simp
  | cons e l ih =>
    have he := List.pairwise_cons.1 hl
    rw [lookup_cons_if, List.mem_cons]
    split
    · next h =>
      have hn : (k, v) ∉ l := fun hm => String.lt_irrefl e.1 (h ▸ he.1 (k, v) hm)
      rw [or_iff_left hn, Prod.ext_iff, Option.some.injEq, eq_comm]
      exact (and_iff_right h).symm
    · next h =>
      have hn : (k, v) ≠ e := fun hm => h (congrArg Prod.fst hm)
      simpa [hn] using ih he.2

theorem mem_iff_exists {m : NameMap α} {k : String} : k ∈ m ↔ ∃ v, m.get? k = some v :=
  Option.isSome_iff_exists

theorem mem_of_get? {m : NameMap α} {k : String} {v : α} (h : m.get? k = some v) : k ∈ m :=
  mem_iff_exists.2 ⟨v, h⟩

theorem not_mem_iff {m : NameMap α} {k : String} : k ∉ m ↔ m.get? k = none := by
  rw [mem_iff, Bool.not_eq_true, Option.isSome_eq_false_iff, Option.isNone_iff_eq_none]

@[simp] theorem not_mem_empty (k : String) : k ∉ (∅ : NameMap α) := not_mem_iff.2 rfl

@[simp] theorem contains_iff {m : NameMap α} {k : String} : m.contains k = true ↔ k ∈ m := Iff.rfl

@[simp] theorem mem_keys {m : NameMap α} {k : String} : k ∈ m.keys ↔ k ∈ m := by
  simp [keys, mem_iff_exists, get?_eq_some_iff]

theorem not_mem_of_keys_eq_nil {m : NameMap α} (h : m.keys = []) (k : String) : k ∉ m := by
  rw [← mem_keys, h]
  exact List.not_mem_nil

theorem isEmpty_iff {m : NameMap α} : m.isEmpty = true ↔ ∀ k, k ∉ m := by
  rw [isEmpty, List.isEmpty_iff]
  constructor
  · intro h
    exact not_mem_of_keys_eq_nil (List.map_eq_nil_iff.2 h)
  · intro h
    refine List.eq_nil_iff_forall_not_mem.2 fun e he => h e.1 ?_
    exact mem_iff_exists.2 ⟨e.2, get?_eq_some_iff.2 he⟩

theorem isLeast_of_keys_eq_cons {m : NameMap α} {k : String} {l : List String}
    (h : m.keys = k :: l) : IsLeast {k | k ∈ m} k := by
  have hp := m.ascending_keys
  rw [h, List.pairwise_cons] at hp
  refine ⟨mem_keys.1 (h ▸ List.mem_cons_self), fun a ha => ?_⟩
  have hm : a ∈ k :: l := h ▸ mem_keys.2 ha
  rcases List.mem_cons.1 hm with rfl | hm
  · exact String.le_refl a
  · exact String.not_lt.1 (String.lt_asymm (hp.1 a hm))

theorem mem_values {m : NameMap α} {v : α} : v ∈ m.values ↔ ∃ k, m.get? k = some v := by
  simp [values, get?_eq_some_iff]

theorem length_keys (m : NameMap α) : m.keys.length = m.size := List.length_map ..

theorem length_le_size {m : NameMap α} {l : List String} (hd : l.Nodup) (hm : ∀ k ∈ l, k ∈ m) :
    l.length ≤ m.size := by
  rw [← length_keys]
  exact (List.subperm_of_subset hd fun k hk => mem_keys.2 (hm k hk)).length_le

theorem get?_filter (p : String → α → Bool) (m : NameMap α) (k : String) :
    (m.filter p).get? k = (m.get? k).filter (p k) := by
  ext v
  simp only [Option.filter_eq_some_iff, get?_eq_some_iff, filter, List.mem_filter]

theorem mem_erase {m : NameMap α} {k k' : String} : k' ∈ m.erase k ↔ k' ∈ m ∧ k' ≠ k := by
  simp [mem_iff_exists, erase, get?_filter, Option.filter_eq_some_iff]

theorem mem_foldl_insert {β : Type} {f : β → String} {g : β → α} {k : String} :
    ∀ {l : List β} {m : NameMap α},
      k ∈ l.foldl (fun m e => m.insert (f e) (g e)) m ↔ k ∈ m ∨ ∃ e ∈ l, k = f e
  | [], _ => by simp
  | d :: l, m => by
    rw [List.foldl_cons, mem_foldl_insert, mem_insert]
    simp only [List.exists_mem_cons_iff, or_assoc, or_left_comm]

theorem mem_union {m n : NameMap α} {k : String} : k ∈ m ∪ n ↔ k ∈ m ∨ k ∈ n := by
  have hn : (∃ e ∈ n.entries, k = e.1) ↔ k ∈ n := by
    simp [mem_iff_exists, get?_eq_some_iff]
  exact mem_foldl_insert.trans (or_congr_right hn)

@[simp] theorem mem_keySet {m : NameMap α} {k : String} : k ∈ m.keySet ↔ k ∈ m := by
  simp [mem_iff_exists, get?_eq_some_iff, keySet]

theorem perm_place {k : String} {v : α} :
    ∀ {l : List (String × α)}, (∀ e ∈ l, k ≠ e.1) → (place k v l).Perm ((k, v) :: l)
  | [], _ => .refl _
  | d :: l, h => by
    have hd := List.forall_mem_cons.1 h
    unfold place
    split
    · exact .refl _
    · rw [if_neg hd.1]
      exact ((perm_place hd.2).cons d).trans (.swap ..)

theorem values_insert_perm {m : NameMap α} {k : String} {v : α} (h : k ∉ m) :
    (m.insert k v).values.Perm (v :: m.values) := by
  refine (perm_place fun e he hk => h ?_).map (·.2)
  exact mem_of_get? (get?_eq_some_iff.2 (hk ▸ he : (k, e.2) ∈ m.entries))

theorem keys_congr {β : Type} {m : NameMap α} {n : NameMap β} (h : ∀ k, k ∈ m ↔ k ∈ n) :
    m.keys = n.keys := by
  have hk : m.keySet = n.keySet := ext_get? fun k => by
    by_cases hm : k ∈ m
    · obtain ⟨_, hs⟩ := mem_iff_exists.1 (mem_keySet.2 hm)
      obtain ⟨_, ht⟩ := mem_iff_exists.1 (mem_keySet.2 ((h k).1 hm))
      rw [hs, ht]
    · rw [not_mem_iff.1 (mt mem_keySet.1 hm), not_mem_iff.1 (mt mem_keySet.1 (mt (h k).2 hm))]
  have hm : m.keySet.keys = m.keys := by simp [keySet, keys]
  have hn : n.keySet.keys = n.keys := by simp [keySet, keys]
  rw [← hm, ← hn, hk]

theorem map_values {β : Type} (f : α → β) (g : String → β) (m : NameMap α)
    (h : ∀ k v, m.get? k = some v → f v = g k) : m.values.map f = m.keys.map g := by
  rw [values, keys, List.map_map, List.map_map]
  exact List.map_congr_left fun e he => h e.1 e.2 (get?_eq_some_iff.2 he)

theorem get?_mapValues {β : Type} (f : String → α → β) (m : NameMap α) (k : String) :
    (m.mapValues f).get? k = (m.get? k).map (f k) := by
  ext v
  simp only [Option.map_eq_some_iff, get?_eq_some_iff, mapValues, List.mem_map]
  constructor
  · rintro ⟨⟨k, a⟩, ha, he⟩
    cases he
    exact ⟨a, ha, rfl⟩
  · rintro ⟨a, ha, rfl⟩
    exact ⟨(k, a), ha, rfl⟩

theorem keys_mapValues {β : Type} (f : String → α → β) (m : NameMap α) :
    (m.mapValues f).keys = m.keys := by
  simp [keys, mapValues]

theorem values_mapValues {β : Type} (f : α → β) (m : NameMap α) :
    (m.mapValues fun _ a => f a).values = m.values.map f := by
  simp [values, mapValues]

theorem mapValues_insert {β : Type} (f : String → α → β) (m : NameMap α) (k : String) (v : α) :
    (m.insert k v).mapValues f = (m.mapValues f).insert k (f k v) := by
  apply ext_get?
  intro k'
  simp only [get?_mapValues, get?_insert]
  split
  · next h => rw [h, Option.map_some]
  · rfl

theorem get?_foldl_insert {l : List (String × α)} {m : NameMap α} {k : String} {v : α}
    (h : (l.map (·.1)).Nodup) :
    (l.foldl (fun m e => m.insert e.1 e.2) m).get? k = some v ↔
      (k, v) ∈ l ∨ k ∉ l.map (·.1) ∧ m.get? k = some v := by
  induction l generalizing m with
  | nil => simp
  | cons e l ih =>
    rw [List.map_cons, List.nodup_cons] at h
    rw [List.foldl_cons, ih h.2, get?_insert, List.map_cons]
    grind

/-- A list that gives no key twice is what its map answers. -/
theorem get?_ofList_iff {l : List (String × α)} {k : String} {v : α}
    (h : (l.map (·.1)).Nodup) : (ofList l).get? k = some v ↔ (k, v) ∈ l := by
  rw [ofList, get?_foldl_insert h]
  simp

end ModuleGraph.NameMap

namespace ModuleGraph.NameSet

theorem ext {s t : NameSet} (h : ∀ a, a ∈ s ↔ a ∈ t) : s = t :=
  NameMap.ext_get? fun a => by
    by_cases ha : a ∈ s
    · obtain ⟨_, hs⟩ := NameMap.mem_iff_exists.1 ha
      obtain ⟨_, ht⟩ := NameMap.mem_iff_exists.1 ((h a).1 ha)
      rw [hs, ht]
    · rw [NameMap.not_mem_iff.1 ha, NameMap.not_mem_iff.1 fun ht => ha ((h a).2 ht)]

@[simp] theorem mem_toList {s : NameSet} {a : String} : a ∈ s.toList ↔ a ∈ s := NameMap.mem_keys

theorem nodup_toList (s : NameSet) : s.toList.Nodup := NameMap.nodup_keys s

@[simp] theorem mem_ofList {l : List String} {a : String} : a ∈ ofList l ↔ a ∈ l := by
  have h : a ∈ ofList l ↔ a ∈ (∅ : NameSet) ∨ ∃ b ∈ l, a = b := NameMap.mem_foldl_insert
  simpa using h

theorem size_ofList (l : List String) : (ofList l).size = l.dedup.length := by
  have hp : (ofList l).toList.Perm l.dedup :=
    (List.perm_ext_iff_of_nodup (nodup_toList _) l.nodup_dedup).2 fun a => by simp
  rw [← hp.length_eq]
  exact (NameMap.length_keys _).symm

theorem ofList_toList (s : NameSet) : ofList s.toList = s :=
  ext fun _ => mem_ofList.trans mem_toList

theorem toList_injective : Function.Injective toList :=
  Function.LeftInverse.injective ofList_toList

end ModuleGraph.NameSet
