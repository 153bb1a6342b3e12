import ModuleGraph.Configuration.Edges
import ModuleGraph.Proofs.Configuration.Lookup

/-! # What further reads add

A configuration derived with edges has the modules and parents it was derived from. It reads the
edges in addition, those from a module to itself apart, and no more.
-/

namespace ModuleGraph.Configuration

/-- An edge that starts in a module of the configuration itself and ends in a visible one. -/
def Joins (c : Configuration) (e : String × String) : Prop :=
  e.1 ∈ c.modules ∧ c.isVisible e.2 = true

instance (c : Configuration) (e : String × String) : Decidable (c.Joins e) :=
  inferInstanceAs (Decidable (_ ∧ _))

variable {c c' : Configuration} {reads : NameMap NameSet} {a b n m source target : String}
  {edges : List (String × String)} {stamp : Nat}

theorem mem_addEdge : m ∈ ((addEdge reads source target).get? n).getD ∅ ↔
    m ∈ (reads.get? n).getD ∅ ∨ (n, m) = (source, target) ∧ n ≠ m := by
  rw [addEdge, Prod.mk.injEq]
  split
  · next h =>
    subst h
    refine (or_iff_left ?_).symm
    rintro ⟨⟨rfl, rfl⟩, hne⟩
    exact hne rfl
  · next h =>
    rw [NameMap.get?_insert]
    split
    · next hn =>
      subst hn
      rw [Option.getD_some, NameSet.mem_insert]
      grind
    · next hn => simp [hn]

theorem mem_foldl_addEdge : m ∈ ((edges.foldl (fun reads e => addEdge reads e.1 e.2)
    reads).get? n).getD ∅ ↔ m ∈ (reads.get? n).getD ∅ ∨ (n, m) ∈ edges ∧ n ≠ m := by
  induction edges generalizing reads with
  | nil => simp
  | cons e edges ih =>
    rw [List.foldl_cons, ih, mem_addEdge, List.mem_cons, or_assoc, ← or_and_right]

theorem mem_addEdge_keys :
    n ∈ addEdge reads source target ↔ n ∈ reads ∨ n = source ∧ source ≠ target := by
  rw [addEdge]
  split
  · next h => simp [h]
  · next h => rw [NameMap.mem_insert, or_comm, and_iff_left h]

theorem mem_foldl_addEdge_keys :
    n ∈ edges.foldl (fun reads e => addEdge reads e.1 e.2) reads ↔
      n ∈ reads ∨ ∃ e ∈ edges, n = e.1 ∧ e.1 ≠ e.2 := by
  induction edges generalizing reads with
  | nil => simp
  | cons e edges ih =>
    rw [List.foldl_cons, ih, mem_addEdge_keys, or_assoc, List.exists_mem_cons_iff]

/-- Deriving goes wrong at the first edge that joins nothing, and changes nothing but the stamp and
the reads if there is none. -/
theorem withEdges_eq (c : Configuration) (stamp : Nat) (edges : List (String × String)) :
    c.withEdges stamp edges = match edges.find? fun e => ¬ c.Joins e with
      | some e => .error (.unknownReadsEdge e.1 e.2)
      | none => .ok { c with
          stamp, reads := edges.foldl (fun reads e => addEdge reads e.1 e.2) c.reads } := by
  rw [withEdges]
  generalize c.reads = reads
  induction edges generalizing reads with
  | nil => rfl
  | cons e edges ih =>
    rw [List.foldlM_cons, List.foldl_cons]
    by_cases he : c.isLocal e.1 = true ∧ c.isVisible e.2 = true
    · have hj : c.Joins e := he
      rw [List.find?_cons_of_neg (by simp [hj]), ← ih]
      dsimp only
      rw [if_pos he]
      rfl
    · have hj : ¬ c.Joins e := he
      rw [List.find?_cons_of_pos (by simp [hj])]
      dsimp only
      rw [if_neg he]
      rfl

theorem withEdges_eq_ok_iff : c.withEdges stamp edges = .ok c' ↔
    (∀ e ∈ edges, c.Joins e) ∧
      c' = { c with
        stamp, reads := edges.foldl (fun reads e => addEdge reads e.1 e.2) c.reads } := by
  have hf : (∀ e ∈ edges, c.Joins e) ↔ (edges.find? fun e => ¬ c.Joins e) = none := by simp
  rw [withEdges_eq, hf]
  cases edges.find? fun e => ¬ c.Joins e with
  | some e => exact iff_of_false nofun fun h => nomatch h.1
  | none => rw [Except.ok.injEq, and_iff_right rfl, eq_comm]

/-- Deriving with edges changes nothing but the stamp and the reads. -/
theorem ok_of_withEdges (h : c.withEdges stamp edges = .ok c') :
    c' = { c with stamp := stamp, reads := c'.reads } ∧
      ∀ n m, m ∈ (c'.reads.get? n).getD ∅ ↔
        m ∈ (c.reads.get? n).getD ∅ ∨ (n, m) ∈ edges ∧ n ≠ m := by
  obtain ⟨-, rfl⟩ := withEdges_eq_ok_iff.1 h
  exact ⟨rfl, fun n m => mem_foldl_addEdge⟩

theorem parents_of_withEdges (h : c.withEdges stamp edges = .ok c') : c'.parents = c.parents := by
  rw [(ok_of_withEdges h).1]

theorem modules_of_withEdges (h : c.withEdges stamp edges = .ok c') : c'.modules = c.modules := by
  rw [(ok_of_withEdges h).1]

theorem find?_withEdges (h : c.withEdges stamp edges = .ok c') (n : String) :
    c'.find? n = c.find? n :=
  find?_congr (parents_of_withEdges h) (modules_of_withEdges h) n

theorem isVisible_withEdges (h : c.withEdges stamp edges = .ok c') (n : String) :
    c'.isVisible n = c.isVisible n := by
  rw [isVisible, find?_withEdges h, isVisible]

/-- No edge starts in a parent, so what the modules there read stays as it was. -/
theorem doesRead_withEdges (h : c.withEdges stamp edges = .ok c') :
    c'.doesRead a b = true ↔ c.doesRead a b = true ∨ (a, b) ∈ edges ∧ a ≠ b := by
  have hm := modules_of_withEdges h
  by_cases ha : a ∈ c.modules
  · rw [doesRead_local (hm ▸ ha), doesRead_local ha, (ok_of_withEdges h).2]
  · have hab : (a, b) ∉ edges := fun he => ha ((withEdges_eq_ok_iff.1 h).1 (a, b) he).1
    rw [doesRead_congr (ownerOf?_congr (parents_of_withEdges h) (hm ▸ ha) ha)]
    exact (or_iff_left fun hn => hab hn.1).symm

end ModuleGraph.Configuration
