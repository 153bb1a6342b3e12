import Mathlib.Data.List.Chain
import Mathlib.Data.List.Nodup
import Mathlib.Logic.Relation
import ModuleGraph.Proofs.NameMap
import ModuleGraph.Resolution.Order

/-! # Orders and cycles

The search through the requires of modules ends in one of two ways. It lists every module after
those it requires, which shows that there is no cycle, or it gives a cycle.
-/

namespace ModuleGraph

def Library.Requires (modules : Library) (n m : String) : Prop :=
  ∃ d, modules.get? n = some d ∧ m ∈ d.requires ∧ m ∈ modules

namespace Order

open Relation

inductive Legal (modules : Library) : List String → Prop
  | nil : Legal modules []
  | snoc {done : List String} {n : String} : Legal modules done → n ∈ modules → n ∉ done →
      (∀ m, modules.Requires n m → m ∈ done) → Legal modules (done ++ [n])

/-- A way along requires that ends where it starts and comes to no other module twice. -/
def IsCycle (modules : Library) (path : List String) : Prop :=
  ∃ n inner, path = n :: inner ++ [n] ∧ (n :: inner).Nodup ∧ path.IsChain modules.Requires

variable {modules : Library} {path done names : List String} {n m : String} {d : Descriptor}
  {s s' : Search}

theorem Legal.nodup (h : Legal modules done) : done.Nodup := by
  induction h with
  | nil => exact .nil
  | snoc _ _ hn _ ih => simpa using ih.concat hn

theorem Legal.mem_modules (h : Legal modules done) (hn : n ∈ done) : n ∈ modules := by
  induction h with
  | nil => cases hn
  | snoc _ hm _ _ ih =>
    rcases List.mem_append.1 hn with hn | hn
    · exact ih hn
    · exact List.mem_singleton.1 hn ▸ hm

theorem Legal.mem_of_requires (h : Legal modules done) (hn : n ∈ done)
    (hr : modules.Requires n m) : m ∈ done := by
  induction h with
  | nil => cases hn
  | snoc _ _ _ hd ih =>
    rcases List.mem_append.1 hn with hn | hn
    · exact List.mem_append_left _ (ih hn)
    · exact List.mem_append_left _ (hd m (List.mem_singleton.1 hn ▸ hr))

theorem Legal.mem_of_transGen (h : Legal modules done) (hn : n ∈ done)
    (hr : TransGen modules.Requires n m) : m ∈ done := by
  induction hr with
  | single hr => exact h.mem_of_requires hn hr
  | tail _ hr ih => exact h.mem_of_requires ih hr

/-- What holds of a module if it holds of all that it requires holds of every module listed. -/
theorem Legal.induction {p : String → Prop} (h : Legal modules done)
    (hp : ∀ n ∈ modules, (∀ m, modules.Requires n m → p m) → p n) : ∀ n ∈ done, p n := by
  induction h with
  | nil => simp
  | @snoc done k _ hk _ hd ih =>
    intro n hn
    rcases List.mem_append.1 hn with hn | hn
    · exact ih n hn
    · obtain rfl := List.mem_singleton.1 hn
      exact hp n hk fun m hm => ih m (hd m hm)

theorem Legal.acyclic (h : Legal modules done) (hn : n ∈ done) :
    ¬ TransGen modules.Requires n n := by
  induction h with
  | nil => cases hn
  | @snoc done k hl hk hnk hd ih =>
    rcases List.mem_append.1 hn with hn | hn
    · exact ih hn
    · obtain rfl := List.mem_singleton.1 hn
      intro hc
      obtain ⟨m, hm, hr⟩ := TransGen.head'_iff.1 hc
      -- A way back to the last module would stay among those listed before it.
      rcases reflTransGen_iff_eq_or_transGen.1 hr with rfl | hr
      · exact hnk (hd _ hm)
      · exact hnk (hl.mem_of_transGen (hd m hm) hr)

theorem mem_of_transGen_requires (h : TransGen modules.Requires n m) : n ∈ modules := by
  obtain ⟨k, ⟨d, hd, -⟩, -⟩ := TransGen.head'_iff.1 h
  exact NameMap.mem_of_get? hd

theorem Legal.not_cycle (h : Legal modules done) (hm : ∀ n, n ∈ done ↔ n ∈ modules) (n : String) :
    ¬ TransGen modules.Requires n n :=
  fun hc => h.acyclic ((hm n).2 (mem_of_transGen_requires hc)) hc

/-- What a module requires is listed before it. -/
theorem Legal.sublist (h : Legal modules done) (hn : n ∈ done) (hr : modules.Requires n m) :
    [m, n].Sublist done := by
  induction h with
  | nil => cases hn
  | snoc _ _ _ hd ih =>
    rcases List.mem_append.1 hn with hn | hn
    · exact List.sublist_append_of_sublist_left (ih hn)
    · obtain rfl := List.mem_singleton.1 hn
      exact (List.singleton_sublist.2 (hd m hr)).append_right [n]

theorem transGen_of_isChain {inner : List String}
    (h : (n :: inner ++ [n]).IsChain modules.Requires) : TransGen modules.Requires n n := by
  have hp : (n :: inner ++ [n]).Pairwise (TransGen modules.Requires) :=
    (h.imp fun _ _ => TransGen.single).pairwise
  exact (List.pairwise_cons.1 hp).1 n (by simp)

theorem IsCycle.transGen (h : IsCycle modules path) : ∃ n, TransGen modules.Requires n n := by
  obtain ⟨n, inner, rfl, -, hc⟩ := h
  exact ⟨n, transGen_of_isChain hc⟩

/-- What holds of a search at every step: the modules that are pending are those on the path, and
those finished are listed after all that they require. -/
structure Search.Inv (modules : Library) (s : Search) : Prop where
  pending : ∀ n, n ∈ s.pending ↔ n ∈ s.path
  visited : ∀ n, n ∈ s.visited ↔ n ∈ s.path ∨ n ∈ s.order
  chain : s.path.IsChain modules.Requires
  nodup : s.path.Nodup
  mem : ∀ n ∈ s.path, n ∈ modules
  legal : Legal modules s.order
  apart : ∀ n ∈ s.path, n ∉ s.order

/-- A search that has gone through names and is back on the path where it was. -/
structure Search.Extends (modules : Library) (s : Search) (names : List String) (s' : Search) :
    Prop where
  inv : s'.Inv modules
  path : s'.path = s.path
  subset : s.order ⊆ s'.order
  listed : ∀ n ∈ names, n ∈ modules → n ∈ s'.order

/-- The two ways in which a search can end. Neither depends on the position that stands for a
module missing on the path. -/
inductive Ends (modules : Library) (s : Search) (names : List String)
    (r : Nat → Except ResolutionError Search) : Prop
  | lists {s' : Search} : (∀ absent, r absent = .ok s') → s.Extends modules names s' →
      Ends modules s names r
  | cycles {cycle : List String} : (∀ absent, r absent = .error (.cycleDetected cycle)) →
      IsCycle modules cycle → Ends modules s names r

theorem Search.inv_empty : Search.Inv modules {} where
  pending := fun n => iff_of_false (NameMap.not_mem_empty n) List.not_mem_nil
  visited := fun n => iff_of_false (NameMap.not_mem_empty n) (by simp)
  chain := .nil
  nodup := .nil
  mem := by simp
  legal := .nil
  apart := by simp

theorem Search.Inv.not_mem (h : s.Inv modules) (hn : n ∉ s.visited) :
    n ∉ s.path ∧ n ∉ s.order :=
  not_or.1 (mt (h.visited n).2 hn)

theorem Search.Inv.length_le (h : s.Inv modules) : s.path.length ≤ modules.size :=
  NameMap.length_le_size h.nodup h.mem

/-- Coming to a new module that the last one on the path requires. -/
theorem Search.Inv.enter (h : s.Inv modules) (hm : n ∈ modules) (hn : n ∉ s.visited)
    (hr : ∀ k ∈ s.path.getLast?, modules.Requires k n) : (s.enter n).Inv modules where
  pending := by
    intro k
    simp [Search.enter, NameSet.mem_insert, h.pending, or_comm]
  visited := by
    intro k
    simp [Search.enter, NameSet.mem_insert, h.visited, or_left_comm, or_assoc]
  chain := by
    refine List.isChain_append.2 ⟨h.chain, List.isChain_singleton n, ?_⟩
    simpa using hr
  nodup := by
    have hp := h.nodup.concat (h.not_mem hn).1
    rwa [List.concat_eq_append] at hp
  mem := by
    intro k hk
    rcases List.mem_append.1 hk with hk | hk
    · exact h.mem k hk
    · exact List.mem_singleton.1 hk ▸ hm
  legal := h.legal
  apart := by
    intro k hk
    rcases List.mem_append.1 hk with hk | hk
    · exact h.apart k hk
    · exact List.mem_singleton.1 hk ▸ (h.not_mem hn).2

/-- A module whose requires are all listed is finished, and the search is back where it was before
it came to the module. -/
theorem Search.Inv.leave (h : (s.enter n).Inv modules) (hd : modules.get? n = some d)
    (he : (s.enter n).Extends modules d.requires.toList s') :
    s.Extends modules [n] (s'.leave n) := by
  have hpath : s'.path = s.path ++ [n] := he.path
  have hn : n ∉ s.path := by
    have hp : (s.path ++ [n]).Nodup := h.nodup
    exact fun hn => (List.nodup_append.1 hp).2.2 n hn n (by simp) rfl
  have hlast : (s'.leave n).path = s.path := by
    rw [Search.leave, hpath, List.dropLast_concat]
  refine ⟨?_, hlast, fun k hk => List.mem_append_left _ (he.subset hk), by simp [Search.leave]⟩
  exact {
    pending := by
      intro k
      rw [hlast, Search.leave, NameMap.mem_erase, he.inv.pending, hpath]
      grind
    visited := by
      intro k
      rw [hlast, Search.leave, he.inv.visited, hpath]
      simp only [List.mem_append, List.mem_singleton, or_assoc, or_comm (a := k = n)]
    chain := hlast ▸ h.chain.left_of_append
    nodup := hlast ▸ (List.nodup_append.1 h.nodup).1
    mem := fun k hk => h.mem k (List.mem_append_left _ (hlast ▸ hk))
    legal := by
      refine .snoc he.inv.legal (h.mem n (by simp [Search.enter])) ?_ ?_
      · exact he.inv.apart n (by simp [hpath])
      · rintro m ⟨e, hd', hm, hmm⟩
        obtain rfl := Option.some.inj (hd.symm.trans hd')
        exact he.listed m (NameSet.mem_toList.2 hm) hmm
    apart := by
      intro k hk
      rw [hlast] at hk
      have hkn : k ≠ n := fun hkn => hn (hkn ▸ hk)
      simpa [Search.leave, hkn] using he.inv.apart k (by simp [hpath, hk]) }

/-- A pending module that is required again closes a cycle. Its position is that on the path. -/
theorem Search.Inv.exists_cycle (h : s.Inv modules) (hl : s.path.getLast? = some n)
    (hr : modules.Requires n m) (hm : m ∈ s.pending) :
    ∃ cycle, (∀ absent, s.cycle absent m = cycle) ∧ IsCycle modules cycle := by
  obtain ⟨before, rest, hp, hb⟩ := List.eq_append_cons_of_mem ((h.pending m).1 hm)
  have hi : s.path.idxOf? m = some before.length := by
    rw [hp, List.idxOf?_eq_some_iff]
    refine ⟨by simp, by simp, fun j hj he => hb ?_⟩
    rw [List.getElem_append_left hj] at he
    exact he ▸ List.getElem_mem hj
  have hd : s.path.drop before.length = m :: rest := by rw [hp, List.drop_left]
  refine ⟨m :: rest ++ [m], fun absent => ?_, m, rest, rfl, ?_, ?_⟩
  · rw [Search.cycle, hi, Option.getD_some, hd]
  · exact hd ▸ h.nodup.sublist (List.drop_sublist ..)
  · refine List.isChain_append.2 ⟨hd ▸ h.chain.drop .., List.isChain_singleton m, ?_⟩
    intro x hx y hy
    have hx' : s.path.getLast? = some x := by
      rw [hp, List.getLast?_append, Option.mem_def.1 hx, Option.some_or]
    obtain rfl := Option.some.inj (hl.symm.trans hx')
    obtain rfl := Option.some.inj hy
    exact hr

theorem ends_foldlM {f : Nat → Search → String → Except ResolutionError Search}
    (hf : ∀ n ∈ names, ∀ s', s'.Inv modules → s'.path = s.path →
      Ends modules s' [n] (f · s' n))
    (hs : s.Inv modules) : Ends modules s names fun absent => names.foldlM (f absent) s := by
  induction names generalizing s with
  | nil => exact .lists (fun _ => rfl) ⟨hs, rfl, List.Subset.refl _, by simp⟩
  | cons n names ih =>
    cases hf n List.mem_cons_self s hs rfl with
    | cycles hr hc =>
      refine .cycles (fun absent => ?_) hc
      rw [List.foldlM_cons, hr absent]
      rfl
    | @lists s' hr hn =>
      have hrest := ih (fun m hm s'' hi hp =>
        hf m (List.mem_cons_of_mem _ hm) s'' hi (hp.trans hn.path)) hn.inv
      have hcons : ∀ absent, (n :: names).foldlM (f absent) s = names.foldlM (f absent) s' := by
        intro absent
        rw [List.foldlM_cons, hr absent]
        rfl
      cases hrest with
      | cycles hrs hc => exact .cycles (fun absent => (hcons absent).trans (hrs absent)) hc
      | lists hrs hns =>
        refine .lists (fun absent => (hcons absent).trans (hrs absent))
          ⟨hns.inv, hns.path.trans hn.path, fun k hk => hns.subset (hn.subset hk), ?_⟩
        intro k hk hm
        rcases List.mem_cons.1 hk with rfl | hk
        · exact hns.subset (hn.listed k (by simp) hm)
        · exact hns.listed k hk hm

theorem Search.Inv.extends_of_listed (h : s.Inv modules) (hn : n ∈ modules → n ∈ s.order) :
    s.Extends modules [n] s :=
  ⟨h, rfl, List.Subset.refl _, by simpa using hn⟩

theorem ends_visit : ∀ {depth : Nat} {s : Search} {n : String}, (s.enter n).Inv modules →
    s.Inv modules → modules.size ≤ depth + s.path.length →
      Ends modules s [n] fun absent => visit absent modules depth s n
  | 0, s, n, h, _, hd => by
    -- The path has no more modules than there are, so that the depth is not used up.
    have hl : (s.path ++ [n]).length ≤ modules.size := h.length_le
    rw [List.length_append, List.length_singleton] at hl
    omega
  | depth + 1, s, n, h, hs, hd => by
    obtain ⟨d, hn⟩ := NameMap.mem_iff_exists.1 (h.mem n (by simp [Search.enter]))
    have hstep : ∀ m ∈ d.requires.toList, ∀ t : Search, t.Inv modules →
        t.path = (s.enter n).path → Ends modules t [m] fun absent =>
          if m ∉ modules then .ok t
          else if m ∈ t.pending then .error (.cycleDetected (t.cycle absent m))
          else if m ∈ t.visited then .ok t
          else visit absent modules depth t m := by
      intro m hm t ht hp
      have hlast : t.path.getLast? = some n := by simp [hp, Search.enter]
      by_cases hmm : m ∈ modules
      swap
      · exact .lists (fun _ => if_pos hmm) (ht.extends_of_listed fun h => (hmm h).elim)
      have hr : modules.Requires n m := ⟨d, hn, NameSet.mem_toList.1 hm, hmm⟩
      simp only [hmm, not_true_eq_false, if_false]
      by_cases hmp : m ∈ t.pending
      · obtain ⟨cycle, hc, hcycle⟩ := ht.exists_cycle hlast hr hmp
        exact .cycles (fun absent => by rw [if_pos hmp, hc]) hcycle
      simp only [hmp, if_false]
      by_cases hmv : m ∈ t.visited
      · have ho := ((ht.visited m).1 hmv).resolve_left (mt (ht.pending m).2 hmp)
        exact .lists (fun _ => if_pos hmv) (ht.extends_of_listed fun _ => ho)
      simp only [hmv, if_false]
      refine ends_visit (ht.enter hmm hmv (by simpa [hlast] using hr)) ht ?_
      simp only [hp, Search.enter, List.length_append, List.length_singleton]
      omega
    have hf := ends_foldlM hstep h
    simp only [visit, hn, Option.map_some, Option.getD_some]
    cases hf with
    | cycles hr hc => exact .cycles (fun absent => by rw [hr absent]; rfl) hc
    | lists hr hx => exact .lists (fun absent => by rw [hr absent]; rfl) (h.leave hn hx)

theorem ends_search (modules : Library) :
    Ends modules {} modules.keys fun absent => search absent modules := by
  refine ends_foldlM (fun n hn s hs hp => ?_) Search.inv_empty
  have hm := NameMap.mem_keys.1 hn
  by_cases hv : n ∈ s.visited
  · have ho := ((hs.visited n).1 hv).resolve_left (by simp [hp])
    exact .lists (fun _ => if_pos hv) (hs.extends_of_listed fun _ => ho)
  · simp only [hv, if_false]
    exact ends_visit (hs.enter hm hv (by simp [hp])) hs (Nat.le_add_right ..)

theorem search_absent (modules : Library) (absent : Nat) :
    search absent modules = search 0 modules := by
  cases ends_search modules with
  | lists hr _ => rw [hr, hr 0]
  | cycles hr _ => rw [hr, hr 0]

theorem dependencyOrder_cases (modules : Library) :
    (∃ order, dependencyOrder modules = .ok order ∧ Legal modules order ∧
      ∀ n, n ∈ order ↔ n ∈ modules) ∨
    ∃ cycle, dependencyOrder modules = .error (.cycleDetected cycle) ∧
      IsCycle modules cycle := by
  rw [dependencyOrder]
  cases ends_search modules with
  | lists hr hx =>
    refine .inl ⟨_, by rw [hr 0]; rfl, hx.inv.legal, fun n => ⟨hx.inv.legal.mem_modules, ?_⟩⟩
    exact fun hn => hx.listed n (NameMap.mem_keys.2 hn) hn
  | cycles hr hc => exact .inr ⟨_, by rw [hr 0]; rfl, hc⟩

theorem legal_of_dependencyOrder (h : dependencyOrder modules = .ok done) :
    Legal modules done ∧ ∀ n, n ∈ done ↔ n ∈ modules := by
  rcases dependencyOrder_cases modules with ⟨order, ho, hl⟩ | ⟨cycle, hc, -⟩
  · exact Except.ok.inj (ho.symm.trans h) ▸ hl
  · cases hc.symm.trans h

theorem isCycle_of_dependencyOrder {e : ResolutionError}
    (h : dependencyOrder modules = .error e) :
    ∃ cycle, e = .cycleDetected cycle ∧ IsCycle modules cycle := by
  rcases dependencyOrder_cases modules with ⟨order, ho, -⟩ | ⟨cycle, hc, hcycle⟩
  · cases ho.symm.trans h
  · exact ⟨cycle, Except.error.inj (h.symm.trans hc), hcycle⟩

theorem exists_dependencyOrder_iff :
    (∃ done, dependencyOrder modules = .ok done) ↔ ∀ n, ¬ TransGen modules.Requires n n := by
  constructor
  · rintro ⟨done, h⟩
    obtain ⟨hl, hm⟩ := legal_of_dependencyOrder h
    exact hl.not_cycle hm
  · intro h
    rcases dependencyOrder_cases modules with ⟨order, ho, -⟩ | ⟨cycle, -, hc⟩
    · exact ⟨order, ho⟩
    · obtain ⟨n, hn⟩ := hc.transGen
      exact (h n hn).elim

/-- Without a cycle there is an order that lists each module once, after all that it requires. With
one the search gives a cycle: modules that each require the next, the first one again at the end
and no other twice. It finds every module that it comes back to on its path, so that the position
for a module missing there is never used. -/
theorem dependencyOrder_outcome (modules : Library) :
    ((∀ n, ¬ TransGen modules.Requires n n) ↔ ∃ order, dependencyOrder modules = .ok order ∧
      order.Nodup ∧ (∀ n, n ∈ order ↔ n ∈ modules) ∧
      ∀ n m, modules.Requires n m → [m, n].Sublist order) ∧
    ((∃ n, TransGen modules.Requires n n) ↔ ∃ n ∈ modules, ∃ inner,
      dependencyOrder modules = .error (.cycleDetected (n :: inner ++ [n])) ∧
      (n :: inner).Nodup ∧ (n :: inner ++ [n]).IsChain modules.Requires) ∧
    ∀ absent, search absent modules = search 0 modules := by
  refine ⟨⟨fun h => ?_, ?_⟩, ⟨fun h => ?_, ?_⟩, search_absent modules⟩
  · obtain ⟨order, ho⟩ := exists_dependencyOrder_iff.2 h
    obtain ⟨hl, hm⟩ := legal_of_dependencyOrder ho
    refine ⟨order, ho, hl.nodup, hm, fun n m hr => hl.sublist ((hm n).2 ?_) hr⟩
    exact mem_of_transGen_requires (.single hr)
  · rintro ⟨order, ho, -⟩
    exact exists_dependencyOrder_iff.1 ⟨order, ho⟩
  · obtain ⟨k, hk⟩ := h
    rcases dependencyOrder_cases modules with ⟨order, ho, -⟩ | ⟨cycle, he, n, inner, rfl, hn, hc⟩
    · exact (exists_dependencyOrder_iff.1 ⟨order, ho⟩ k hk).elim
    · exact ⟨n, mem_of_transGen_requires (transGen_of_isChain hc), inner, he, hn, hc⟩
  · rintro ⟨n, -, inner, -, -, hc⟩
    exact ⟨n, transGen_of_isChain hc⟩

end Order
end ModuleGraph
