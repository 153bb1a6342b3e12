/-! # Finite maps and sets of names

A map keeps its entries strictly ascending by key, in code-point order. Every listing of a
map is therefore sorted, and two maps with the same answers are equal (`NameMap.ext_get?`).
A set of names is a map to `Unit`.
-/

namespace ModuleGraph

universe u

structure NameMap (α : Type u) where
  entries : List (String × α)
  ascending : entries.Pairwise (fun a b => a.1 < b.1)
  deriving DecidableEq

namespace NameMap

variable {α : Type u}

theorem ext_entries {m n : NameMap α} (h : m.entries = n.entries) : m = n := by
  cases m; cases n; cases h; rfl

def empty : NameMap α := ⟨[], .nil⟩

instance : EmptyCollection (NameMap α) := ⟨empty⟩
instance : Inhabited (NameMap α) := ⟨∅⟩

def get? (m : NameMap α) (k : String) : Option α := m.entries.lookup k

def contains (m : NameMap α) (k : String) : Bool := (m.get? k).isSome

instance : Membership String (NameMap α) := ⟨fun m k => m.contains k = true⟩
instance (k : String) (m : NameMap α) : Decidable (k ∈ m) :=
  inferInstanceAs (Decidable (m.contains k = true))

def keys (m : NameMap α) : List String := m.entries.map (·.1)

def values (m : NameMap α) : List α := m.entries.map (·.2)

def size (m : NameMap α) : Nat := m.entries.length

def isEmpty (m : NameMap α) : Bool := m.entries.isEmpty

/-- Places an entry in an ascending list, over one with the same key. -/
def place (k : String) (v : α) : List (String × α) → List (String × α)
  | [] => [(k, v)]
  | e :: rest =>
    if k < e.1 then (k, v) :: e :: rest
    else if k = e.1 then (k, v) :: rest
    else e :: place k v rest

theorem eq_or_mem_of_mem_place {k : String} {v : α} {e : String × α} :
    ∀ {l : List (String × α)}, e ∈ place k v l → e = (k, v) ∨ e ∈ l
  | [], h => by simpa [place] using h
  | d :: rest, h => by
    unfold place at h
    split at h
    · simpa using h
    · split at h
      · rcases List.mem_cons.1 h with h | h
        · exact .inl h
        · exact .inr (List.mem_cons_of_mem _ h)
      · rcases List.mem_cons.1 h with h | h
        · exact .inr (h ▸ List.mem_cons_self)
        · exact (eq_or_mem_of_mem_place h).imp id (List.mem_cons_of_mem _)

theorem lt_of_not_lt_of_ne {a b : String} (h : ¬ a < b) (hne : a ≠ b) : b < a :=
  Std.lt_of_le_of_ne (String.not_lt.1 h) hne.symm

theorem pairwise_place (k : String) (v : α) :
    ∀ {l : List (String × α)}, l.Pairwise (fun a b => a.1 < b.1) →
      (place k v l).Pairwise (fun a b => a.1 < b.1)
  | [], _ => by simp [place]
  | d :: rest, h => by
    have hd := List.pairwise_cons.1 h
    unfold place
    split
    · next hlt =>
      refine List.pairwise_cons.2 ⟨fun e he => ?_, h⟩
      rcases List.mem_cons.1 he with rfl | he
      · exact hlt
      · exact String.lt_trans hlt (hd.1 e he)
    · next hlt =>
      split
      · next heq => exact List.pairwise_cons.2 ⟨fun e he => heq ▸ hd.1 e he, hd.2⟩
      · next hne =>
        refine List.pairwise_cons.2 ⟨fun e he => ?_, pairwise_place k v hd.2⟩
        rcases eq_or_mem_of_mem_place he with rfl | he
        · exact lt_of_not_lt_of_ne hlt hne
        · exact hd.1 e he

def insert (m : NameMap α) (k : String) (v : α) : NameMap α :=
  ⟨place k v m.entries, pairwise_place k v m.ascending⟩

/-- The map of a list of pairs; of two with one key the later one stays. -/
def ofList (l : List (String × α)) : NameMap α := l.foldl (fun m e => m.insert e.1 e.2) ∅

def filter (p : String → α → Bool) (m : NameMap α) : NameMap α :=
  ⟨m.entries.filter (fun e => p e.1 e.2), m.ascending.filter _⟩

def mapValues {β : Type u} (f : String → α → β) (m : NameMap α) : NameMap β :=
  ⟨m.entries.map (fun e => (e.1, f e.1 e.2)),
    List.pairwise_map.2 (m.ascending.imp fun h => h)⟩

def erase (m : NameMap α) (k : String) : NameMap α := m.filter (fun k' _ => k' != k)

/-- The entries of both maps; where both have a key, the value of the second. -/
def union (m n : NameMap α) : NameMap α := n.entries.foldl (fun m e => m.insert e.1 e.2) m

instance : Union (NameMap α) := ⟨union⟩

theorem lookup_cons_if (k : String) (e : String × α) (l : List (String × α)) :
    (e :: l).lookup k = if k = e.1 then some e.2 else l.lookup k := by
  rw [List.lookup_cons]
  by_cases h : k = e.1
  · simp [h]
  · simp [h, beq_false_of_ne h]

theorem lookup_place (k : String) (v : α) (k' : String) :
    ∀ l : List (String × α),
      (place k v l).lookup k' = if k' = k then some v else l.lookup k'
  | [] => by rw [place, lookup_cons_if, List.lookup_nil]
  | d :: rest => by
    unfold place
    split
    · rw [lookup_cons_if]
    · split
      · next heq =>
        simp only [lookup_cons_if, heq]
        split <;> rfl
      · next hne =>
        rw [lookup_cons_if, lookup_cons_if, lookup_place k v k' rest]
        by_cases h : k' = k
        · simp [h, hne]
        · simp [h]

theorem lookup_eq_none_of_lt {k : String} :
    ∀ {l : List (String × α)}, (∀ e ∈ l, k < e.1) → l.lookup k = none
  | [], _ => rfl
  | d :: rest, h => by
    have hd : k ≠ d.1 := fun he => String.lt_irrefl k (he ▸ h d List.mem_cons_self)
    rw [lookup_cons_if, if_neg hd]
    exact lookup_eq_none_of_lt fun e he => h e (List.mem_cons_of_mem _ he)

theorem eq_of_lookup_eq : ∀ {l m : List (String × α)},
    l.Pairwise (fun a b => a.1 < b.1) → m.Pairwise (fun a b => a.1 < b.1) →
    (∀ k, l.lookup k = m.lookup k) → l = m
  | [], [], _, _, _ => rfl
  | [], e :: m, _, _, h => by simpa [lookup_cons_if] using h e.1
  | e :: l, [], _, _, h => by simpa [lookup_cons_if] using h e.1
  | d :: l, e :: m, hl, hm, h => by
    have hd := List.pairwise_cons.1 hl
    have he := List.pairwise_cons.1 hm
    have below {a b : String × α} {r : List (String × α)} (hr : ∀ x ∈ r, b.1 < x.1)
        (hlt : a.1 < b.1) : (b :: r).lookup a.1 = none :=
      lookup_eq_none_of_lt fun x hx => by
        rcases List.mem_cons.1 hx with rfl | hx
        · exact hlt
        · exact String.lt_trans hlt (hr x hx)
    have key : d.1 = e.1 := by
      refine Classical.byContradiction fun hne => ?_
      by_cases hlt : d.1 < e.1
      · simpa [below he.1 hlt, lookup_cons_if] using h d.1
      · simpa [below hd.1 (lt_of_not_lt_of_ne hlt hne), lookup_cons_if] using h e.1
    have value : d.2 = e.2 := by simpa [lookup_cons_if, key] using h d.1
    have rest : l = m := eq_of_lookup_eq hd.2 he.2 fun k => by
      by_cases hk : k = d.1
      · rw [lookup_eq_none_of_lt (hk ▸ hd.1), lookup_eq_none_of_lt (hk ▸ key ▸ he.1)]
      · simpa [lookup_cons_if, hk, key ▸ hk] using h k
    exact congr (congrArg _ (Prod.ext key value)) rest

theorem ext_get? {m n : NameMap α} (h : ∀ k, m.get? k = n.get? k) : m = n :=
  ext_entries (eq_of_lookup_eq m.ascending n.ascending h)

@[simp] theorem get?_empty (k : String) : (∅ : NameMap α).get? k = none := rfl

theorem get?_insert (m : NameMap α) (k : String) (v : α) (k' : String) :
    (m.insert k v).get? k' = if k' = k then some v else m.get? k' :=
  lookup_place k v k' m.entries

theorem mem_iff {k : String} {m : NameMap α} : k ∈ m ↔ (m.get? k).isSome = true := Iff.rfl

theorem mem_insert {k k' : String} {v : α} {m : NameMap α} :
    k' ∈ m.insert k v ↔ k' = k ∨ k' ∈ m := by
  rw [mem_iff, get?_insert, mem_iff]
  by_cases h : k' = k <;> simp [h]

end NameMap

abbrev NameSet := NameMap Unit

namespace NameSet

def toList (s : NameSet) : List String := s.keys

def insert (s : NameSet) (a : String) : NameSet := NameMap.insert s a ()

def ofList (l : List String) : NameSet := l.foldl insert ∅

theorem mem_insert {a b : String} {s : NameSet} : b ∈ s.insert a ↔ b = a ∨ b ∈ s :=
  NameMap.mem_insert

end NameSet

def NameMap.keySet {α : Type u} (m : NameMap α) : NameSet :=
  ⟨m.entries.map (fun e => (e.1, ())), List.pairwise_map.2 (m.ascending.imp fun h => h)⟩

end ModuleGraph
