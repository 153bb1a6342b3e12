import Mathlib.Data.List.Nodup
import ModuleGraph.Proofs.Finder
import ModuleGraph.Resolution.Walk

/-! # What a walk finds

A walk sees exactly the names that its roots reach, each once, and sorts them by what they stand
for. It takes at most as many names off its queue as there are roots and requires of selected
modules, since nothing else is ever put there.
-/

namespace ModuleGraph.Walk

/-- The names that roots reach: the roots, and what a new module among them requires. -/
inductive Reached (look : String → Lookup) (roots : NameSet) : String → Prop
  | root {n : String} : n ∈ roots → Reached look roots n
  | required {n m : String} {d : Descriptor} {s : Bool} : Reached look roots n →
      look n = .found d s → m ∈ d.requires → Reached look roots m

/-- A name that the walk has seen or has yet to see. -/
def Meets (w : Walk) (n : String) : Prop := n ∈ w.seen ∨ n ∈ w.queue.map (·.1)

variable {look : String → Lookup} {roots : NameSet} {w : Walk} {n m k : String}
  {r? : Option String} {q : List (String × Option String)} {d : Descriptor} {s : Bool}

theorem step_of_seen (hq : w.queue = (n, r?) :: q) (hn : n ∈ w.seen) :
    step look w = { w with queue := q } := by
  simp [step, hq, hn]

theorem step_of_unseen (hq : w.queue = (n, r?) :: q) (hn : n ∉ w.seen) :
    step look w = visit look { w with queue := q } n r? := by
  simp [step, hq, hn]

@[simp] theorem seen_visit : (visit look w n r?).seen = w.seen ++ [n] := by
  unfold visit
  cases look n <;> rfl

theorem mem_queue_visit : k ∈ (visit look w n r?).queue.map (·.1) ↔
    k ∈ w.queue.map (·.1) ∨
      k ∉ w.seen ++ [n] ∧ ∃ d s, look n = .found d s ∧ k ∈ d.requires := by
  unfold visit
  cases look n <;> simp [and_comm]

theorem selected_visit_of_found (h : look n = .found d s) :
    (visit look w n r?).selected = w.selected.insert n d := by
  simp [visit, h]

theorem selected_visit_of_not_found (h : ∀ d s, look n ≠ .found d s) :
    (visit look w n r?).selected = w.selected := by
  unfold visit
  cases hl : look n with
  | found d s => exact (h d s hl).elim
  | inherited => rfl
  | missing => rfl

theorem mem_missing_visit :
    k ∈ (visit look w n r?).missing ↔ k ∈ w.missing ∨ k = n ∧ look n = .missing := by
  unfold visit
  cases look n <;> simp [NameMap.mem_insert, or_comm]

theorem mem_shadowed_visit : k ∈ (visit look w n r?).shadowed ↔
    k ∈ w.shadowed ∨ k = n ∧ ∃ d, look n = .found d true := by
  unfold visit
  cases look n with
  | found d s => cases s <;> simp [NameSet.mem_insert, or_comm]
  | inherited => simp
  | missing => simp

structure Inv (look : String → Lookup) (roots : NameSet) (w : Walk) : Prop where
  seen_nodup : w.seen.Nodup
  seen_reached : ∀ n ∈ w.seen, Reached look roots n
  queue_reached : ∀ n ∈ w.queue.map (·.1), Reached look roots n
  meets_roots : ∀ n ∈ roots, w.Meets n
  meets_requires : ∀ n ∈ w.seen, ∀ d s, look n = .found d s → ∀ m ∈ d.requires, w.Meets m
  selected_iff : ∀ n d, w.selected.get? n = some d ↔ n ∈ w.seen ∧ ∃ s, look n = .found d s
  missing_iff : ∀ n, n ∈ w.missing ↔ n ∈ w.seen ∧ look n = .missing
  shadowed_iff : ∀ n, n ∈ w.shadowed ↔ n ∈ w.seen ∧ ∃ d, look n = .found d true

theorem inv_start (look : String → Lookup) (roots : NameSet) : Inv look roots (start roots) where
  seen_nodup := .nil
  seen_reached := by simp [start]
  queue_reached := by
    intro n hn
    exact .root (by simpa [start] using hn)
  meets_roots := by
    intro n hn
    exact .inr (by simpa [start] using hn)
  meets_requires := by simp [start]
  selected_iff := by simp [start]
  missing_iff := by simp [start]
  shadowed_iff := by simp [start]

theorem Meets.skip (hq : w.queue = (n, r?) :: q) (hn : n ∈ w.seen) (h : w.Meets m) :
    Meets { w with queue := q } m := by
  rcases h with h | h
  · exact .inl h
  · rw [hq, List.map_cons, List.mem_cons] at h
    rcases h with rfl | h
    · exact .inl hn
    · exact .inr h

theorem Inv.skip (i : Inv look roots w) (hq : w.queue = (n, r?) :: q) (hn : n ∈ w.seen) :
    Inv look roots { w with queue := q } :=
  { i with
    queue_reached := by
      intro m hm
      exact i.queue_reached m (by rw [hq]; exact List.mem_cons_of_mem _ hm)
    meets_roots := fun m hm => (i.meets_roots m hm).skip hq hn
    meets_requires := fun k hk d s hl m hm => (i.meets_requires k hk d s hl m hm).skip hq hn }

theorem Meets.visit (hq : w.queue = (n, r?) :: q) (h : w.Meets m) :
    (visit look { w with queue := q } n r?).Meets m := by
  rw [Meets, seen_visit, mem_queue_visit, List.mem_append, List.mem_singleton]
  rcases h with h | h
  · exact .inl (.inl h)
  · rw [hq, List.map_cons, List.mem_cons] at h
    rcases h with h | h
    · exact .inl (.inr h)
    · exact .inr (.inl h)

theorem Inv.seen_of_selected (i : Inv look roots w) (h : n ∈ w.selected) : n ∈ w.seen := by
  obtain ⟨d, hd⟩ := NameMap.mem_iff_exists.1 h
  exact ((i.selected_iff n d).1 hd).1

theorem Inv.visit (i : Inv look roots w) (hq : w.queue = (n, r?) :: q) (hn : n ∉ w.seen) :
    Inv look roots (visit look { w with queue := q } n r?) := by
  have hr : Reached look roots n := i.queue_reached n (by simp [hq])
  constructor
  case seen_nodup =>
    rw [seen_visit, List.nodup_append]
    refine ⟨i.seen_nodup, List.nodup_singleton n, fun a ha b hb => ?_⟩
    rintro rfl
    exact hn (List.mem_singleton.1 hb ▸ ha)
  case seen_reached =>
    intro m hm
    rw [seen_visit, List.mem_append, List.mem_singleton] at hm
    rcases hm with hm | rfl
    · exact i.seen_reached m hm
    · exact hr
  case queue_reached =>
    intro m hm
    rcases mem_queue_visit.1 hm with hm | ⟨-, d, s, hl, hm⟩
    · exact i.queue_reached m (by rw [hq]; exact List.mem_cons_of_mem _ hm)
    · exact .required hr hl hm
  case meets_roots => exact fun m hm => (i.meets_roots m hm).visit hq
  case meets_requires =>
    intro k hk d s hl m hm
    rw [seen_visit, List.mem_append, List.mem_singleton] at hk
    rcases hk with hk | rfl
    · exact (i.meets_requires k hk d s hl m hm).visit hq
    · rw [Meets, mem_queue_visit, seen_visit]
      by_cases h : m ∈ w.seen ++ [k]
      · exact .inl h
      · exact .inr (.inr ⟨h, d, s, hl, hm⟩)
  case selected_iff =>
    intro m d
    have hm := i.selected_iff m d
    rw [seen_visit, List.mem_append, List.mem_singleton]
    by_cases hf : ∃ e t, look n = .found e t
    · obtain ⟨e, t, hl⟩ := hf
      rw [selected_visit_of_found hl, NameMap.get?_insert]
      grind
    · rw [selected_visit_of_not_found fun e t hl => hf ⟨e, t, hl⟩, hm]
      grind
  case missing_iff =>
    intro m
    rw [seen_visit, List.mem_append, List.mem_singleton, mem_missing_visit, i.missing_iff]
    grind
  case shadowed_iff =>
    intro m
    rw [seen_visit, List.mem_append, List.mem_singleton, mem_shadowed_visit, i.shadowed_iff]
    grind

theorem Inv.step (i : Inv look roots w) : Inv look roots (step look w) := by
  cases hq : w.queue with
  | nil => simpa [Walk.step, hq] using i
  | cons e q =>
    by_cases hn : e.1 ∈ w.seen
    · rw [step_of_seen hq hn]; exact i.skip hq hn
    · rw [step_of_unseen hq hn]; exact i.visit hq hn

/-- What a step keeps, counting the names taken off the queue, a run keeps. A run ends with an
empty queue or has taken as many names as it may. -/
theorem run_induction {p : Nat → Walk → Prop}
    (hs : ∀ k w, w.queue ≠ [] → p k w → p (k + 1) (step look w)) :
    ∀ {l k : Nat} {w : Walk}, p k w →
      ∃ j ≤ l, p (k + j) (run look l w) ∧ ((run look l w).queue = [] ∨ j = l)
  | 0, k, w, h => ⟨0, Nat.le_refl 0, h, .inr rfl⟩
  | l + 1, k, w, h => by
    by_cases hq : w.queue = []
    · exact ⟨0, Nat.zero_le _, by simpa [run, hq] using h, .inl (by simp [run, hq])⟩
    · obtain ⟨j, hj, hp, he⟩ := run_induction hs (l := l) (hs k w hq h)
      have hr : run look (l + 1) w = run look l (step look w) := by simp [run, hq]
      rw [hr]
      refine ⟨j + 1, Nat.succ_le_succ hj, ?_, he.imp id (congrArg (· + 1))⟩
      rwa [Nat.add_comm j 1, ← Nat.add_assoc]

theorem run_of_queue_nil {l : Nat} (h : w.queue = []) : run look l w = w := by
  cases l <;> simp [run, h]

theorem run_add (l j : Nat) (w : Walk) : run look (l + j) w = run look j (run look l w) := by
  induction l generalizing w with
  | zero => rw [Nat.zero_add, run]
  | succ l ih =>
    by_cases hq : w.queue = []
    · rw [run_of_queue_nil hq, run_of_queue_nil hq, run_of_queue_nil hq]
    · have hr : ∀ i, run look (i + 1) w = run look i (step look w) := by simp [run, hq]
      rw [Nat.add_right_comm, hr, hr, ih]

/-- A walk that has ended stays as it is, whatever else it may take. -/
theorem run_eq_of_le {l l' : Nat} (hl : l ≤ l') (hq : (run look l w).queue = []) :
    run look l' w = run look l w := by
  obtain ⟨j, rfl⟩ := Nat.exists_eq_add_of_le hl
  rw [run_add, run_of_queue_nil hq]

/-- The names taken off the queue and those still in it are roots or came with the requires of a
selected module. -/
def Paid (roots : NameSet) (taken : Nat) (w : Walk) : Prop :=
  taken + w.queue.length ≤ roots.size + Descriptor.totalRequires w.selected.values

theorem length_queue_visit (hn : n ∉ w.selected) :
    (visit look w n r?).queue.length + Descriptor.totalRequires w.selected.values ≤
      w.queue.length + Descriptor.totalRequires (visit look w n r?).selected.values := by
  cases hl : look n with
  | found d s =>
    have hf := d.requires.toList.length_filter_le fun m => m ∉ w.seen ++ [n]
    have hr : d.requires.toList.length = d.requires.size := NameMap.length_keys _
    rw [selected_visit_of_found hl,
      Descriptor.totalRequires_perm (NameMap.values_insert_perm hn)]
    simp only [visit, hl, List.length_append, List.length_map, Descriptor.totalRequires,
      List.foldr_cons]
    omega
  | inherited => simp [visit, hl]
  | missing => simp [visit, hl]

theorem Paid.step {t : Nat} (i : Inv look roots w) (hq : w.queue ≠ []) (h : Paid roots t w) :
    Paid roots (t + 1) (step look w) := by
  obtain ⟨⟨n, r?⟩, q, hq⟩ := List.exists_cons_of_ne_nil hq
  rw [Paid, hq, List.length_cons] at h
  by_cases hn : n ∈ w.seen
  · rw [step_of_seen hq hn, Paid]
    dsimp only
    omega
  · have hns : n ∉ w.selected := fun hm => hn (i.seen_of_selected hm)
    have hv := @length_queue_visit look { w with queue := q } n r? hns
    rw [step_of_unseen hq hn, Paid]
    dsimp only at hv
    omega

theorem paid_start (roots : NameSet) : Paid roots 0 (start roots) := by
  have hr : roots.toList.length = roots.size := NameMap.length_keys _
  simp only [Paid, start, List.length_map]
  omega

/-- A walk that may take as many names as its roots and all modules on offer give ends with an
empty queue. -/
theorem run_start {l : Nat}
    (hl : ∀ w, Inv look roots w → roots.size + Descriptor.totalRequires w.selected.values ≤ l) :
    Inv look roots (run look l (start roots)) ∧ (run look l (start roots)).queue = [] := by
  obtain ⟨j, -, ⟨i, hj⟩, he⟩ := run_induction (l := l)
    (p := fun t w => Inv look roots w ∧ Paid roots t w)
    (fun t w hq h => ⟨h.1.step, h.2.step h.1 hq⟩) ⟨inv_start look roots, paid_start roots⟩
  refine ⟨i, he.elim id fun he => List.length_eq_zero_iff.1 ?_⟩
  have hb := hl _ i
  rw [Paid] at hj
  omega

theorem Inv.seen_iff (i : Inv look roots w) (hq : w.queue = []) :
    n ∈ w.seen ↔ Reached look roots n := by
  have hm : ∀ m, w.Meets m → m ∈ w.seen := fun m h => h.elim id (by simp [hq])
  constructor
  · exact i.seen_reached n
  · intro h
    induction h with
    | root h => exact hm _ (i.meets_roots _ h)
    | required _ hl h ih => exact hm _ (i.meets_requires _ ih _ _ hl _ h)

end ModuleGraph.Walk
