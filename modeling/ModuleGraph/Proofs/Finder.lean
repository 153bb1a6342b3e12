import Mathlib.Data.List.Perm.Subperm
import ModuleGraph.Finder
import ModuleGraph.Proofs.NameMap

/-! # What finders have on offer

Whatever a finder answers is in its stock. So descriptors with distinct names that a finder
answered require together no more names than its load.
-/

namespace ModuleGraph

namespace Descriptor

variable {as bs : List Descriptor}

theorem totalRequires_perm (h : as.Perm bs) : totalRequires as = totalRequires bs := by
  refine h.foldr_eq' (fun a _ b _ n => ?_) 0
  exact Nat.add_left_comm ..

theorem totalRequires_le_of_sublist (h : as.Sublist bs) :
    totalRequires as ≤ totalRequires bs := by
  induction h with
  | slnil => exact Nat.le_refl _
  | cons _ _ ih => exact Nat.le_trans ih (Nat.le_add_left ..)
  | cons_cons _ _ ih => exact Nat.add_le_add_left ih _

theorem totalRequires_le_of_subset (hd : as.Nodup) (h : as ⊆ bs) :
    totalRequires as ≤ totalRequires bs := by
  obtain ⟨cs, hp, hs⟩ := List.subperm_of_subset hd h
  exact totalRequires_perm hp ▸ totalRequires_le_of_sublist hs

end Descriptor

namespace Finder

variable {name : String} {d : Descriptor}

mutual

theorem mem_stock_of_find : ∀ {f : Finder}, find name f = some d → d ∈ stock f
  | empty, h => by simp [find] at h
  | library modules, h => by
    rw [find] at h
    rw [stock, NameMap.mem_values]
    exact ⟨name, h⟩
  | filed entries, h => by
    rw [find, List.lookup_eq_some_iff] at h
    obtain ⟨l, r, he, -⟩ := h
    rw [stock, he]
    simp
  | composed parts, h => mem_stockOfAll_of_findFirst h

theorem mem_stockOfAll_of_findFirst :
    ∀ {fs : List Finder}, findFirst name fs = some d → d ∈ stockOfAll fs
  | [], h => by simp [findFirst] at h
  | f :: fs, h => by
    rw [findFirst, Option.or_eq_some_iff] at h
    rw [stockOfAll, List.mem_append]
    rcases h with h | ⟨-, h⟩
    · exact .inl (mem_stock_of_find h)
    · exact .inr (mem_stockOfAll_of_findFirst h)

end

end Finder
end ModuleGraph
