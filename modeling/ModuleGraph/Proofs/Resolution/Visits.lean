import Mathlib.Data.Nat.Find
import ModuleGraph.Proofs.Resolution.Outcome

/-! # The order of visits

Roots and visited modules put names on offer, and the next name visited is the first on offer that
was not visited yet. A walk keeps to this order, and the order keeps to distances: every name comes
before all that are farther from the roots.
-/

namespace ModuleGraph

def Lookup.required : Lookup → List String
  | found d _ => d.requires.toList
  | inherited => []
  | missing => []

namespace Walk

/-- The names on offer: the roots in order, then what each visited module requires, with its
name. -/
def offers (look : String → Lookup) (roots : NameSet) (visited : List String) :
    List (String × Option String) :=
  roots.toList.map (fun n => (n, none)) ++
    visited.flatMap fun m => (look m).required.map fun n => (n, some m)

inductive Visits (look : String → Lookup) (roots : NameSet) : List String → Prop
  | nil : Visits look roots []
  | snoc {visited : List String} {n : String} {m? : Option String} :
      Visits look roots visited →
      (offers look roots visited).find? (fun e => e.1 ∉ visited) = some (n, m?) →
      Visits look roots (visited ++ [n])

/-- The queue holds what is on offer and not seen, in this order, and a missing name is told with
the module that offered it first. -/
structure InOrder (look : String → Lookup) (roots : NameSet) (w : Walk) : Prop where
  visits : Visits look roots w.seen
  unseen : w.queue.filter (fun e => e.1 ∉ w.seen) =
    (offers look roots w.seen).filter fun e => e.1 ∉ w.seen
  missing : ∀ n m?, w.missing.get? n = some m? →
    (offers look roots w.seen).find? (fun e => e.1 = n) = some (n, m?)

variable {look : String → Lookup} {roots : NameSet} {w : Walk} {n m : String}
  {m? : Option String} {q : List (String × Option String)} {visited visited' : List String}

theorem offers_snoc : offers look roots (visited ++ [n]) =
    offers look roots visited ++ (look n).required.map fun k => (k, some n) := by
  simp [offers]

/-- The first name on offer of some kind is a root, or else what the first visited module that
requires any of the kind requires of it. -/
theorem find?_offers_iff {p : String → Bool} :
    (offers look roots visited).find? (fun e => p e.1) = some (n, m?) ↔
      m? = none ∧ roots.toList.find? p = some n ∨
      (∀ k ∈ roots, p k = false) ∧ ∃ before m after, visited = before ++ m :: after ∧
        m? = some m ∧ (look m).required.find? p = some n ∧
        ∀ a ∈ before, ∀ k ∈ (look a).required, p k = false := by
  rw [offers, List.find?_append, List.find?_map, List.find?_flatMap, Option.or_eq_some_iff]
  refine or_congr ?_ (and_congr ?_ ?_)
  · cases m? with
    | none =>
      have hp : ((fun e : String × Option String => p e.1) ∘ fun k => (k, none)) = p := rfl
      rw [hp]
      simp
    | some m => simp
  · simp
  · rw [List.findSome?_eq_some_iff]
    simp only [List.find?_map, Function.comp_def, Option.map_eq_some_iff, Prod.mk.injEq,
      Option.map_eq_none_iff, List.find?_eq_none, Bool.not_eq_true]
    constructor
    · rintro ⟨before, m, after, hv, ⟨k, hk, rfl, rfl⟩, hb⟩
      exact ⟨before, m, after, hv, rfl, hk, hb⟩
    · rintro ⟨before, m, after, hv, rfl, hk, hb⟩
      exact ⟨before, m, after, hv, ⟨n, hk, rfl, rfl⟩, hb⟩

theorem inOrder_start (look : String → Lookup) (roots : NameSet) :
    InOrder look roots (start roots) where
  visits := .nil
  unseen := by simp [start, offers]
  missing := by simp [start]

theorem InOrder.skip (i : InOrder look roots w) (hq : w.queue = (n, m?) :: q) (hn : n ∈ w.seen) :
    InOrder look roots { w with queue := q } :=
  { i with unseen := by simpa [hq, hn] using i.unseen }

/-- The name at the head of the queue is the first on offer that was not seen. -/
theorem InOrder.find?_offers (i : InOrder look roots w) (hq : w.queue = (n, m?) :: q)
    (hn : n ∉ w.seen) :
    (offers look roots w.seen).find? (fun e => e.1 ∉ w.seen) = some (n, m?) := by
  rw [← List.head?_filter, ← i.unseen, hq, List.filter_cons_of_pos (by simpa using hn),
    List.head?_cons]

theorem queue_visit : (visit look w n m?).queue =
    w.queue ++ ((look n).required.filter fun k => k ∉ w.seen ++ [n]).map fun k => (k, some n) := by
  unfold visit
  cases look n <;> simp [Lookup.required]

theorem get?_missing_visit {k : String} {k? : Option String}
    (h : (visit look w n m?).missing.get? k = some k?) :
    w.missing.get? k = some k? ∨ k = n ∧ k? = m? := by
  unfold visit at h
  cases hl : look n <;> simp only [hl, NameMap.get?_insert] at h <;> grind

theorem filter_snoc (l : List (String × Option String)) :
    l.filter (fun e => e.1 ∉ visited ++ [n]) =
      (l.filter fun e => e.1 ∉ visited).filter fun e => e.1 ≠ n := by
  rw [List.filter_filter]
  congr 1
  funext e
  simp [and_comm]

/-- The first entry that was not visited is the first of its name. -/
theorem find?_fst_eq {l : List (String × Option String)}
    (h : l.find? (fun e => e.1 ∉ visited) = some (n, m?)) :
    l.find? (fun e => e.1 = n) = some (n, m?) := by
  obtain ⟨hn, before, after, rfl, hb⟩ := List.find?_eq_some_iff_append.1 h
  refine List.find?_eq_some_iff_append.2 ⟨by simp, before, after, rfl, fun e he => ?_⟩
  have hv : e.1 ∈ visited := by simpa using hb e he
  have hne : e.1 ≠ n := fun hen => by simp [← hen, hv] at hn
  simpa using hne

theorem InOrder.visit (i : InOrder look roots w) (hq : w.queue = (n, m?) :: q)
    (hn : n ∉ w.seen) : InOrder look roots (visit look { w with queue := q } n m?) := by
  have hf := i.find?_offers hq hn
  constructor
  case visits =>
    rw [seen_visit]
    exact .snoc i.visits hf
  case unseen =>
    have hold : q.filter (fun e => e.1 ∉ w.seen ++ [n]) =
        (offers look roots w.seen).filter fun e => e.1 ∉ w.seen ++ [n] := by
      rw [filter_snoc, filter_snoc, ← i.unseen, hq]
      simp [hn]
    rw [seen_visit, queue_visit, offers_snoc, List.filter_append, List.filter_append]
    dsimp only
    rw [hold]
    simp [List.filter_map, Function.comp_def]
  case missing =>
    intro k k? hk
    rw [seen_visit, offers_snoc, List.find?_append]
    rcases get?_missing_visit hk with hk | ⟨rfl, rfl⟩
    · rw [i.missing k k? hk, Option.some_or]
    · rw [find?_fst_eq hf, Option.some_or]

theorem InOrder.step (i : InOrder look roots w) : InOrder look roots (step look w) := by
  cases hq : w.queue with
  | nil => simpa [Walk.step, hq] using i
  | cons e q =>
    by_cases hn : e.1 ∈ w.seen
    · rw [step_of_seen hq hn]; exact i.skip hq hn
    · rw [step_of_unseen hq hn]; exact i.visit hq hn

theorem inOrder_run (look : String → Lookup) (roots : NameSet) (l : Nat) :
    InOrder look roots (run look l (start roots)) := by
  obtain ⟨j, -, i, -⟩ := run_induction (l := l) (k := 0) (p := fun _ w => InOrder look roots w)
    (fun _ _ _ i => i.step) (inOrder_start look roots)
  exact i

theorem Visits.nodup (h : Visits look roots visited) : visited.Nodup := by
  induction h with
  | nil => exact .nil
  | @snoc visited n _ _ hf ih =>
    have hn : n ∉ visited := by simpa using List.find?_some hf
    rw [List.nodup_append]
    refine ⟨ih, List.nodup_singleton n, fun a ha b hb => ?_⟩
    rintro rfl
    exact hn (List.mem_singleton.1 hb ▸ ha)

/-- There is one order of visits; of two lists in it, one goes on from the other. -/
theorem Visits.isPrefix (h : Visits look roots visited) (h' : Visits look roots visited')
    (hl : visited.length ≤ visited'.length) : visited <+: visited' := by
  induction h' generalizing visited with
  | nil =>
    obtain rfl := List.eq_nil_of_length_eq_zero (Nat.le_zero.1 hl)
    exact List.prefix_rfl
  | @snoc visited' n' _ h' hf' ih =>
    by_cases hle : visited.length ≤ visited'.length
    · exact (ih h hle).trans (List.prefix_append ..)
    · cases h with
      | nil => exact (hle (Nat.zero_le _)).elim
      | @snoc visited n _ h hf =>
        simp only [List.length_append, List.length_singleton] at hl hle
        have hv : visited = visited' := (ih h (by omega)).eq_of_length (by omega)
        subst hv
        obtain rfl : n = n' := by simpa using congrArg (Option.map Prod.fst) (hf.symm.trans hf')
        exact List.prefix_rfl

end Walk

namespace Resolver

open Walk

/-- Roots come at distance zero, and what a new module requires one farther than the module. -/
inductive ReachesIn (r : Resolver) (roots : List String) : Nat → String → Prop
  | root {n : String} : n ∈ roots → ReachesIn r roots 0 n
  | required {k : Nat} {n m : String} {d : Descriptor} : ReachesIn r roots k n → r.IsNew n d →
      m ∈ d.requires → ReachesIn r roots (k + 1) m

def Distance (r : Resolver) (roots : List String) (n : String) (k : Nat) : Prop :=
  IsLeast {k | r.ReachesIn roots k n} k

structure VisitingOrder (r : Resolver) (roots order : List String) : Prop where
  visits : Visits r.look (.ofList roots) order
  mem_iff : ∀ n, n ∈ order ↔ r.Reaches roots n

/-- Every way from a root to the second name is at least as long as one to the first. -/
def NoFarther (r : Resolver) (roots : List String) (a b : String) : Prop :=
  ∀ k, r.ReachesIn roots k b → ∃ j ≤ k, r.ReachesIn roots j a

variable {r : Resolver} {roots : List String} {n m a b : String} {m? : Option String}
  {visited order : List String} {d e : Descriptor} {j k : Nat}

theorem mem_required_iff : m ∈ (r.look n).required ↔ ∃ d, r.IsNew n d ∧ m ∈ d.requires := by
  simp only [← exists_look_eq_found_iff]
  cases r.look n <;> simp [Lookup.required]

theorem Reaches.exists_distance (h : r.Reaches roots n) : ∃ k, r.Distance roots n k := by
  have hk : ∃ k, r.ReachesIn roots k n := by
    induction h with
    | root hn => exact ⟨0, .root hn⟩
    | required _ hd hm ih =>
      obtain ⟨k, hk⟩ := ih
      exact ⟨k + 1, .required hk hd hm⟩
  classical
  exact ⟨Nat.find hk, Nat.find_spec hk, fun _ => Nat.find_min' hk⟩

/-- On the way to a name that was not visited, a root or a require of a visited module is the
first that was not. -/
theorem ReachesIn.exists_offer (h : r.ReachesIn roots k b) (hb : b ∉ visited) :
    (∃ n ∈ roots, n ∉ visited) ∨ ∃ j < k, ∃ m ∈ visited, r.ReachesIn roots j m ∧
      ∃ n ∈ (r.look m).required, n ∉ visited := by
  induction h with
  | root hn => exact .inl ⟨_, hn, hb⟩
  | @required k n m d hr hd hm ih =>
    by_cases hn : n ∈ visited
    · exact .inr ⟨k, k.lt_succ_self, n, hn, hr, m, mem_required_iff.2 ⟨d, hd, hm⟩, hb⟩
    · rcases ih hn with h | ⟨j, hj, h⟩
      · exact .inl h
      · exact .inr ⟨j, hj.trans k.lt_succ_self, h⟩

/-- The next name visited is no farther than any that is left. -/
theorem noFarther_of_find?_offers (hp : visited.Pairwise (r.NoFarther roots))
    (hf : (offers r.look (.ofList roots) visited).find? (fun e => e.1 ∉ visited) = some (n, m?))
    (hb : b ∉ visited) : r.NoFarther roots n b := by
  intro k hk
  rcases (find?_offers_iff (p := fun n => n ∉ visited)).1 hf with
    ⟨-, hn⟩ | ⟨hroots, before, m, after, rfl, -, hn, hbefore⟩
  · have hr : n ∈ roots := by simpa using List.mem_of_find?_eq_some hn
    exact ⟨0, k.zero_le, .root hr⟩
  · obtain ⟨d, hd, hnd⟩ := mem_required_iff.1 (List.mem_of_find?_eq_some hn)
    rcases hk.exists_offer hb with ⟨a, ha, hav⟩ | ⟨j, hj, a, ha, hja, x, hx, hxv⟩
    · exact (of_decide_eq_false (hroots a (NameSet.mem_ofList.2 ha)) hav).elim
    -- `a` still has something on offer, so it does not stand before `m`, which is no farther.
    · have hma : ∃ i ≤ j, r.ReachesIn roots i m := by
        rcases List.mem_append.1 ha with ha | ha
        · exact (of_decide_eq_false (hbefore a ha x hx) hxv).elim
        · rcases List.mem_cons.1 ha with rfl | ha
          · exact ⟨j, le_rfl, hja⟩
          · have hpa := (List.pairwise_append.1 hp).2.1
            exact (List.pairwise_cons.1 hpa).1 a ha j hja
      obtain ⟨i, hi, him⟩ := hma
      exact ⟨i + 1, by omega, .required him hd hnd⟩

/-- Visited names stand in the order of their distances, and none is farther than one that is
left. -/
theorem pairwise_noFarther (h : Visits r.look (.ofList roots) visited) :
    visited.Pairwise (r.NoFarther roots) ∧
      ∀ a ∈ visited, ∀ b, b ∉ visited → r.NoFarther roots a b := by
  induction h with
  | nil => exact ⟨.nil, fun a ha => (List.not_mem_nil ha).elim⟩
  | @snoc visited n m? h hf ih =>
    obtain ⟨hp, hleft⟩ := ih
    have hn : n ∉ visited := by simpa using List.find?_some hf
    constructor
    · rw [List.pairwise_append]
      refine ⟨hp, List.pairwise_singleton .., fun a ha b hb => ?_⟩
      obtain rfl := List.mem_singleton.1 hb
      exact hleft a ha b hn
    · intro a ha b hb
      rw [List.mem_append, not_or] at hb
      rcases List.mem_append.1 ha with ha | ha
      · exact hleft a ha b hb.1
      · obtain rfl := List.mem_singleton.1 ha
        exact noFarther_of_find?_offers hp hf hb.1

theorem NoFarther.distance_le (h : r.NoFarther roots a b) (ha : r.Distance roots a j)
    (hb : r.Distance roots b k) : j ≤ k := by
  obtain ⟨i, hi, hia⟩ := h k hb.1
  exact (ha.2 hia).trans hi

theorem VisitingOrder.unique {order' : List String} (h : r.VisitingOrder roots order)
    (h' : r.VisitingOrder roots order') : order = order' := by
  have hp : order.Perm order' := by
    rw [List.perm_ext_iff_of_nodup h.visits.nodup h'.visits.nodup]
    intro n
    rw [h.mem_iff, h'.mem_iff]
  exact (h.visits.isPrefix h'.visits hp.length_eq.le).eq_of_length hp.length_eq

theorem visitingOrder_walk (r : Resolver) (roots : List String) :
    r.VisitingOrder roots (r.walk (.ofList roots)).seen where
  visits := (inOrder_run ..).visits
  mem_iff := fun _ => seen_walk_iff

end Resolver
end ModuleGraph
