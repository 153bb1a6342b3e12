import ModuleGraph.Proofs.Resolution.Order
import ModuleGraph.Resolution.Reads

/-! # The reads of modules in order

In an order of dependencies each module finds what all it requires read. The reads found on the way
are therefore a solution of one equation for all modules at once: a module reads what it requires
and what those read, itself apart.
-/

namespace ModuleGraph

variable {parentReads? : String → Option NameSet} {before before' : NameMap NameSet}
  {modules : Library} {done : List String} {d : Descriptor} {n m : String}

theorem mem_foldl_reads {g : String → NameSet} : ∀ {l : List String} {s : NameSet},
    m ∈ l.foldl (fun reads n => reads.insert n ∪ g n) s ↔ m ∈ s ∨ ∃ k ∈ l, m = k ∨ m ∈ g k
  | [], _ => by simp
  | k :: l, s => by
    rw [List.foldl_cons, mem_foldl_reads, NameMap.mem_union, NameSet.mem_insert,
      List.exists_mem_cons_iff]
    simp only [or_assoc, or_left_comm]

theorem mem_readsAfter : m ∈ readsAfter parentReads? before d ↔
    m ≠ d.name ∧ ∃ k ∈ d.requires,
      m = k ∨ m ∈ ((before.get? k).or (parentReads? k)).getD ∅ := by
  rw [readsAfter, NameMap.mem_erase, mem_foldl_reads, and_comm]
  simp

theorem readsAfter_congr (h : ∀ k ∈ d.requires, before.get? k = before'.get? k) :
    readsAfter parentReads? before d = readsAfter parentReads? before' d := by
  refine NameSet.ext fun m => ?_
  simp only [mem_readsAfter]
  refine and_congr_right fun _ => exists_congr fun k => and_congr_right fun hk => ?_
  rw [h k hk]

theorem readsInOrder_snoc (h : modules.get? n = some d) :
    readsInOrder parentReads? modules (done ++ [n]) =
      (readsInOrder parentReads? modules done).insert n
        (readsAfter parentReads? (readsInOrder parentReads? modules done) d) := by
  simp [readsInOrder, h]

theorem mem_readsInOrder (h : Order.Legal modules done) :
    n ∈ readsInOrder parentReads? modules done ↔ n ∈ done := by
  induction h with
  | nil => simp [readsInOrder]
  | snoc _ hm _ _ ih =>
    obtain ⟨d, hd⟩ := NameMap.mem_iff_exists.1 hm
    rw [readsInOrder_snoc hd, NameMap.mem_insert, ih]
    simp [or_comm]

/-- What a module reads follows from the reads of all modules, itself and later ones included. -/
theorem get?_readsInOrder (h : Order.Legal modules done) (hn : n ∈ done)
    (hd : modules.get? n = some d) :
    (readsInOrder parentReads? modules done).get? n =
      some (readsAfter parentReads? (readsInOrder parentReads? modules done) d) := by
  induction h generalizing n d with
  | nil => cases hn
  | @snoc done k hl hm hk hr ih =>
    obtain ⟨e, he⟩ := NameMap.mem_iff_exists.1 hm
    -- Nothing up to the last module requires that one, so adding its reads changes none before.
    have hlast : ∀ j f, j ∈ done ++ [k] → modules.get? j = some f → k ∉ f.requires := by
      intro j f hj hf hkf
      have hjk : modules.Requires j k := ⟨f, hf, hkf, hm⟩
      rcases List.mem_append.1 hj with hj | hj
      · exact hk (hl.mem_of_requires hj hjk)
      · exact hk (hr k (List.mem_singleton.1 hj ▸ hjk))
    have hsame : readsAfter parentReads? (readsInOrder parentReads? modules (done ++ [k])) d =
        readsAfter parentReads? (readsInOrder parentReads? modules done) d := by
      refine readsAfter_congr fun j hj => ?_
      rw [readsInOrder_snoc he, NameMap.get?_insert, if_neg]
      rintro rfl
      exact hlast n d hn hd hj
    rw [hsame, readsInOrder_snoc he, NameMap.get?_insert]
    rcases List.mem_append.1 hn with hn | hn
    · have hnk : n ≠ k := fun he => hk (he ▸ hn)
      rw [if_neg hnk, ih hn hd]
    · obtain rfl := List.mem_singleton.1 hn
      obtain rfl := Option.some.inj (hd.symm.trans he)
      rw [if_pos rfl]

end ModuleGraph
