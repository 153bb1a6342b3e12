import Mathlib.Data.Finset.Card
import Mathlib.Logic.Function.Iterate
import ModuleGraph.Proofs.Resolution.Order
import ModuleGraph.Proofs.Resolution.Selection

/-! # The loops of a resolution end

A walk takes names off a queue that grows as it goes, and the search for an order goes from a module
to those it requires, which may lead around in circles. Here both are taken without the bounds of
their definitions, as loops that go on for as long as there is something to do, and they end on all
modules. Each name that a walk handles and each module that a search enters is new to it, and the
bounds are never used up.
-/

namespace ModuleGraph

namespace Walk

variable {look : String → Lookup} {w : Walk} {n : String} {i j : Nat}

def Handles (w : Walk) (n : String) : Prop :=
  w.queue.head?.map (·.1) = some n ∧ n ∉ w.seen

theorem seen_subset_step (look : String → Lookup) (w : Walk) : w.seen ⊆ (step look w).seen := by
  cases hq : w.queue with
  | nil => simp [step, hq]
  | cons e q =>
    by_cases hn : e.1 ∈ w.seen
    · simp [step_of_seen hq hn]
    · simp [step_of_unseen hq hn]

theorem Handles.mem_seen_step (h : w.Handles n) : n ∈ (step look w).seen := by
  obtain ⟨hh, hn⟩ := h
  cases hq : w.queue with
  | nil => simp [hq] at hh
  | cons e q =>
    obtain rfl : e.1 = n := by simpa [hq] using hh
    simp [step_of_unseen hq hn]

theorem seen_subset_iterate (look : String → Lookup) (w : Walk) (hij : i ≤ j) :
    ((step look)^[i] w).seen ⊆ ((step look)^[j] w).seen := by
  induction j, hij using Nat.le_induction with
  | base => exact List.Subset.refl _
  | succ j _ ih =>
    rw [Function.iterate_succ_apply']
    exact List.Subset.trans ih (seen_subset_step look _)

/-- A name that was handled is seen from then on. -/
theorem Handles.le (hi : ((step look)^[i] w).Handles n) (hj : ((step look)^[j] w).Handles n) :
    j ≤ i := by
  refine Nat.le_of_not_lt fun hlt => hj.2 (seen_subset_iterate look w hlt ?_)
  rw [Function.iterate_succ_apply']
  exact hi.mem_seen_step

/-- A walk after a number of names taken off its queue, which was never empty before. -/
structure Taken (look : String → Lookup) (roots : NameSet) (k : Nat) (w : Walk) : Prop where
  eq : w = (step look)^[k] (start roots)
  inv : Inv look roots w
  paid : Paid roots k w
  busy : ∀ i < k, ((step look)^[i] (start roots)).queue ≠ []

theorem taken_start (look : String → Lookup) (roots : NameSet) :
    Taken look roots 0 (start roots) where
  eq := rfl
  inv := inv_start look roots
  paid := paid_start roots
  busy := nofun

theorem Taken.step {roots : NameSet} {k : Nat} (hq : w.queue ≠ []) (h : Taken look roots k w) :
    Taken look roots (k + 1) (step look w) where
  eq := by rw [h.eq, Function.iterate_succ_apply']
  inv := h.inv.step
  paid := h.paid.step h.inv hq
  busy i hi := by
    rcases Nat.lt_succ_iff_lt_or_eq.1 hi with hi | rfl
    · exact h.busy i hi
    · exact h.eq ▸ hq

end Walk

namespace Order

/-- The loops of the search: through all modules, and through what one of them requires. -/
inductive Loop where
  | modules
  | requires

/-- What a loop does about a name: it passes over it, finds that it closes a cycle, or enters it. -/
inductive Turn where
  | pass
  | close
  | enter

def turn (modules : Library) : Loop → Search → String → Turn
  | .modules, s, n => if n ∈ s.visited then .pass else .enter
  | .requires, s, n =>
    if n ∉ modules then .pass
    else if n ∈ s.pending then .close
    else if n ∈ s.visited then .pass
    else .enter

def required (modules : Library) (n : String) : List String :=
  ((modules.get? n).map (·.requires.toList)).getD []

/-- A loop through names from a search on, to the last name or to an error, with the modules that it
enters in this order. Nothing bounds how deep it goes. -/
inductive Runs (absent : Nat) (modules : Library) :
    Loop → Search → List String → List String → Except ResolutionError Search → Prop
  | nil {l : Loop} {s : Search} : Runs absent modules l s [] [] (.ok s)
  | pass {l : Loop} {s : Search} {n : String} {names entered : List String}
      {r : Except ResolutionError Search} : turn modules l s n = .pass →
      Runs absent modules l s names entered r → Runs absent modules l s (n :: names) entered r
  | close {l : Loop} {s : Search} {n : String} {names : List String} :
      turn modules l s n = .close →
      Runs absent modules l s (n :: names) [] (.error (.cycleDetected (s.cycle absent n)))
  | enter {l : Loop} {s s' : Search} {n : String} {names inner entered : List String}
      {r : Except ResolutionError Search} : turn modules l s n = .enter →
      Runs absent modules .requires (s.enter n) (required modules n) inner (.ok s') →
      Runs absent modules l (s'.leave n) names entered r →
      Runs absent modules l s (n :: names) (n :: inner ++ entered) r
  | fail {l : Loop} {s : Search} {n : String} {names inner : List String} {e : ResolutionError} :
      turn modules l s n = .enter →
      Runs absent modules .requires (s.enter n) (required modules n) inner (.error e) →
      Runs absent modules l s (n :: names) (n :: inner) (.error e)

/-- Modules entered from a search on: each was new, and nothing else is visited at the end. -/
structure Enters (s : Search) (entered : List String) (r : Except ResolutionError Search) :
    Prop where
  nodup : entered.Nodup
  new : ∀ n ∈ entered, n ∉ s.visited
  visited : ∀ s', r = .ok s' → ∀ n, n ∈ s'.visited ↔ n ∈ s.visited ∨ n ∈ entered

variable {absent : Nat} {modules : Library} {l : Loop} {s s' : Search} {n : String}
  {names entered inner : List String} {r r' : Except ResolutionError Search} {e : ResolutionError}

theorem not_mem_visited_of_turn (h : turn modules l s n = .enter) : n ∉ s.visited := by
  cases l <;> simp only [turn] at h <;> split_ifs at h <;> assumption

theorem mem_of_turn (h : turn modules l s n = .enter) (hn : l = .modules → n ∈ modules) :
    n ∈ modules := by
  cases l with
  | modules => exact hn rfl
  | requires =>
    simp only [turn] at h
    split_ifs at h with hm
    exact hm

theorem mem_visited_enter {m : String} : m ∈ (s.enter n).visited ↔ m = n ∨ m ∈ s.visited :=
  NameSet.mem_insert

theorem Enters.cons (hn : n ∉ s.visited) (h : Enters (s.enter n) inner (.ok s'))
    (h' : Enters (s'.leave n) entered r) : Enters s (n :: inner ++ entered) r := by
  have hv : ∀ m, m ∈ (s'.leave n).visited ↔ (m = n ∨ m ∈ s.visited) ∨ m ∈ inner := by
    intro m
    rw [← mem_visited_enter]
    exact h.visited s' rfl m
  have hi : ∀ m ∈ inner, m ≠ n ∧ m ∉ s.visited := by
    intro m hm
    simpa [mem_visited_enter] using h.new m hm
  have he : ∀ m ∈ entered, (m ≠ n ∧ m ∉ s.visited) ∧ m ∉ inner := by
    intro m hm
    simpa [hv] using h'.new m hm
  constructor
  case nodup =>
    rw [List.nodup_append, List.nodup_cons]
    refine ⟨⟨fun hm => (hi n hm).1 rfl, h.nodup⟩, h'.nodup, fun a ha b hb => ?_⟩
    rintro rfl
    rcases List.mem_cons.1 ha with rfl | ha
    · exact (he a hb).1.1 rfl
    · exact (he a hb).2 ha
  case new => grind
  case visited =>
    intro t ht m
    rw [h'.visited t ht, hv, List.mem_append, List.mem_cons]
    grind

theorem Enters.cons_error (hn : n ∉ s.visited) (h : Enters (s.enter n) inner (.error e)) :
    Enters s (n :: inner) (.error e) := by
  have hi : ∀ m ∈ inner, m ≠ n ∧ m ∉ s.visited := by
    intro m hm
    simpa [mem_visited_enter] using h.new m hm
  refine ⟨List.nodup_cons.2 ⟨fun hm => (hi n hm).1 rfl, h.nodup⟩, ?_, nofun⟩
  grind

theorem Runs.enters (h : Runs absent modules l s names entered r) : Enters s entered r := by
  induction h with
  | nil => exact ⟨.nil, by simp, fun s' h n => by simp [Except.ok.inj h]⟩
  | pass _ _ ih => exact ih
  | close _ => exact ⟨.nil, by simp, nofun⟩
  | enter ht _ _ ihi ih => exact ihi.cons (not_mem_visited_of_turn ht) ih
  | fail ht _ ih => exact ih.cons_error (not_mem_visited_of_turn ht)

theorem Runs.mem_modules (h : Runs absent modules l s names entered r)
    (hn : l = .modules → ∀ n ∈ names, n ∈ modules) : ∀ n ∈ entered, n ∈ modules := by
  induction h with
  | nil | close _ => simp
  | pass _ _ ih => exact ih fun hl m hm => hn hl m (List.mem_cons_of_mem _ hm)
  | @enter l s s' n _ _ _ _ ht _ _ ihi ih =>
    have hm : n ∈ modules := mem_of_turn ht fun hl => hn hl n List.mem_cons_self
    intro k hk
    rcases List.mem_append.1 hk with hk | hk
    · rcases List.mem_cons.1 hk with rfl | hk
      · exact hm
      · exact ihi nofun k hk
    · exact ih (fun hl m hm => hn hl m (List.mem_cons_of_mem _ hm)) k hk
  | @fail l s n _ _ _ ht _ ih =>
    have hm : n ∈ modules := mem_of_turn ht fun hl => hn hl n List.mem_cons_self
    intro k hk
    rcases List.mem_cons.1 hk with rfl | hk
    · exact hm
    · exact ih nofun k hk

def unvisited (modules : Library) (s : Search) : Finset String :=
  {n ∈ modules.keys.toFinset | n ∉ s.visited}

theorem unvisited_ssubset (hm : n ∈ modules) (hn : n ∉ s.visited) (hv : n ∈ s'.visited)
    (hs : ∀ m ∈ s.visited, m ∈ s'.visited) : unvisited modules s' ⊂ unvisited modules s := by
  refine Finset.ssubset_iff_of_subset ?_ |>.2 ⟨n, ?_, ?_⟩
  · exact Finset.monotone_filter_right _ fun m _ h hm => h (hs m hm)
  · simpa [unvisited] using ⟨hm, hn⟩
  · simpa [unvisited] using fun _ => hv

/-- Entering a module leaves fewer to enter, and passing over a name leaves fewer names, so that a
loop comes to its end. -/
theorem exists_runs (absent : Nat) (modules : Library) (l : Loop) (s : Search)
    (names : List String) (hn : l = .modules → ∀ n ∈ names, n ∈ modules) :
    ∃ entered r, Runs absent modules l s names entered r := by
  match names with
  | [] => exact ⟨_, _, .nil⟩
  | n :: names =>
    have hrest : l = .modules → ∀ m ∈ names, m ∈ modules :=
      fun hl m hm => hn hl m (List.mem_cons_of_mem _ hm)
    cases ht : turn modules l s n with
    | pass =>
      obtain ⟨entered, r, h⟩ := exists_runs absent modules l s names hrest
      exact ⟨_, _, .pass ht h⟩
    | close => exact ⟨_, _, .close ht⟩
    | enter =>
      have hm : n ∈ modules := mem_of_turn ht fun hl => hn hl n List.mem_cons_self
      have hv : n ∉ s.visited := not_mem_visited_of_turn ht
      have hin : (unvisited modules (s.enter n)).card < (unvisited modules s).card :=
        Finset.card_lt_card (unvisited_ssubset hm hv (mem_visited_enter.2 (.inl rfl))
          fun m h => mem_visited_enter.2 (.inr h))
      obtain ⟨inner, r, hi⟩ :=
        exists_runs absent modules .requires (s.enter n) (required modules n) nofun
      cases r with
      | error e => exact ⟨_, _, .fail ht hi⟩
      | ok s' =>
        have hsub : ∀ m, m ∈ (s.enter n).visited → m ∈ (s'.leave n).visited :=
          fun m h => (hi.enters.visited s' rfl m).2 (.inl h)
        have hout : (unvisited modules (s'.leave n)).card < (unvisited modules s).card :=
          Finset.card_lt_card (unvisited_ssubset hm hv (hsub n (mem_visited_enter.2 (.inl rfl)))
            fun m h => hsub m (mem_visited_enter.2 (.inr h)))
        obtain ⟨entered, r, h⟩ := exists_runs absent modules l (s'.leave n) names hrest
        exact ⟨_, _, .enter ht hi h⟩
termination_by ((unvisited modules s).card, names.length)

theorem Runs.unique (h : Runs absent modules l s names entered r) {entered' : List String}
    (h' : Runs absent modules l s names entered' r') : entered' = entered ∧ r' = r := by
  induction h generalizing entered' r' with
  | nil =>
    cases h'
    exact ⟨rfl, rfl⟩
  | pass ht _ ih =>
    cases h' with
    | pass _ h' => exact ih h'
    | close ht' | enter ht' _ _ | fail ht' _ => cases ht.symm.trans ht'
  | close ht =>
    cases h' with
    | close _ => exact ⟨rfl, rfl⟩
    | pass ht' _ | enter ht' _ _ | fail ht' _ => cases ht.symm.trans ht'
  | enter ht _ _ ihi ih =>
    cases h' with
    | pass ht' _ | close ht' => cases ht.symm.trans ht'
    | enter _ hi' h' =>
      obtain ⟨rfl, hs⟩ := ihi hi'
      obtain rfl := Except.ok.inj hs
      obtain ⟨rfl, rfl⟩ := ih h'
      exact ⟨rfl, rfl⟩
    | fail _ hi' => cases (ihi hi').2
  | fail ht _ ih =>
    cases h' with
    | pass ht' _ | close ht' => cases ht.symm.trans ht'
    | enter _ hi' _ => cases (ih hi').2
    | fail _ hi' =>
      obtain ⟨rfl, he⟩ := ih hi'
      exact ⟨rfl, he⟩

/-- What a loop does about a name where a search may go to a depth. -/
def act (absent : Nat) (modules : Library) (depth : Nat) (l : Loop) (s : Search) (n : String) :
    Except ResolutionError Search :=
  match turn modules l s n with
  | .pass => .ok s
  | .close => .error (.cycleDetected (s.cycle absent n))
  | .enter => visit absent modules depth s n

theorem visit_succ (absent : Nat) (modules : Library) (depth : Nat) (s : Search) (n : String) :
    visit absent modules (depth + 1) s n =
      ((required modules n).foldlM (act absent modules depth .requires) (s.enter n)).map
        (·.leave n) := by
  have ha : act absent modules depth .requires = fun s n =>
      if n ∉ modules then .ok s
      else if n ∈ s.pending then .error (.cycleDetected (s.cycle absent n))
      else if n ∈ s.visited then .ok s
      else visit absent modules depth s n := by
    funext s n
    rw [act, turn]
    split_ifs <;> rfl
  rw [ha]
  rfl

theorem search_eq_foldlM (absent : Nat) (modules : Library) :
    search absent modules =
      modules.keys.foldlM (act absent modules modules.size .modules) {} := by
  have ha : act absent modules modules.size .modules = fun s n =>
      if n ∈ s.visited then .ok s else visit absent modules modules.size s n := by
    funext s n
    rw [act, turn]
    split_ifs <;> rfl
  rw [ha]
  rfl

/-- A depth of as many modules as a loop enters is not used up. -/
theorem Runs.foldlM_eq (h : Runs absent modules l s names entered r) {depth : Nat}
    (hd : entered.length ≤ depth) : names.foldlM (act absent modules depth l) s = r := by
  induction h generalizing depth with
  | nil => rfl
  | pass ht _ ih =>
    rw [List.foldlM_cons, act, ht]
    exact ih hd
  | close ht =>
    rw [List.foldlM_cons, act, ht]
    rfl
  | enter ht _ _ ihi ih =>
    obtain ⟨depth, rfl⟩ := Nat.exists_eq_succ_of_ne_zero (by grind : depth ≠ 0)
    rw [List.foldlM_cons, act, ht]
    dsimp only
    rw [visit_succ, ihi (by grind)]
    exact ih (by grind)
  | fail ht _ ih =>
    obtain ⟨depth, rfl⟩ := Nat.exists_eq_succ_of_ne_zero (by grind : depth ≠ 0)
    rw [List.foldlM_cons, act, ht]
    dsimp only
    rw [visit_succ, ih (by grind)]
    rfl

end Order

namespace Resolver

def walkAfter (r : Resolver) (roots : List String) (pops : Nat) : Walk :=
  (Walk.step r.look)^[pops] (.start (.ofList roots))

/-- A walk ends with an empty queue once it has taken as many names as there are roots and requires
of the modules selected, or fewer. -/
theorem exists_pops (r : Resolver) (roots : List String) :
    ∃ pops ≤ roots.dedup.length + Descriptor.totalRequires (r.walk (.ofList roots)).selected.values,
      (∀ i < pops, (r.walkAfter roots i).queue ≠ []) ∧ (r.walkAfter roots pops).queue = [] ∧
      r.walkAfter roots pops = r.walk (.ofList roots) := by
  obtain ⟨pops, -, h, -⟩ := Walk.run_induction (l := r.walkBound (.ofList roots))
    (fun _ _ => Walk.Taken.step) (Walk.taken_start r.look (.ofList roots))
  have ht : Walk.Taken r.look (.ofList roots) pops (r.walk (.ofList roots)) := by
    rwa [Nat.zero_add] at h
  have hq : (r.walk (.ofList roots)).queue = [] := (inv_walk r _).2
  have hp := ht.paid
  rw [Walk.Paid, hq, List.length_nil, Nat.add_zero, NameSet.size_ofList] at hp
  have he : r.walkAfter roots pops = r.walk (.ofList roots) := ht.eq.symm
  exact ⟨pops, hp, ht.busy, he ▸ hq, he⟩

/-- Taken without bounds, the loops of a resolution end, whatever there is to find and whatever
the modules require. The walk empties its queue by as many names as there are roots and requires of
the modules selected, or fewer, and looks up no name twice. The search for an order has one way to
go, on which it enters no module twice. -/
theorem loops_end (r : Resolver) (roots : List String) (absent : Nat) (modules : Library) :
    (∃ pops ≤
        roots.dedup.length + Descriptor.totalRequires (r.walk (.ofList roots)).selected.values,
      (∀ i < pops, (r.walkAfter roots i).queue ≠ []) ∧ (r.walkAfter roots pops).queue = [] ∧
      r.walkAfter roots pops = r.walk (.ofList roots) ∧
      ∀ n i j, (r.walkAfter roots i).Handles n → (r.walkAfter roots j).Handles n → i = j) ∧
    ∃ entered result,
      (∀ names x, Order.Runs absent modules .modules {} modules.keys names x ↔
        names = entered ∧ x = result) ∧
      entered.Nodup ∧ (∀ n ∈ entered, n ∈ modules) ∧ Order.search absent modules = result := by
  constructor
  · obtain ⟨pops, hle, hbusy, hq, he⟩ := exists_pops r roots
    exact ⟨pops, hle, hbusy, hq, he, fun n i j hi hj => Nat.le_antisymm (hj.le hi) (hi.le hj)⟩
  · obtain ⟨entered, result, h⟩ :=
      Order.exists_runs absent modules .modules {} modules.keys fun _ n => NameMap.mem_keys.1
    have hm := h.mem_modules fun _ n => NameMap.mem_keys.1
    refine ⟨entered, result, fun names x => ⟨h.unique, ?_⟩, h.enters.nodup, hm, ?_⟩
    · rintro ⟨rfl, rfl⟩
      exact h
    · rw [Order.search_eq_foldlM]
      exact h.foldlM_eq (NameMap.length_le_size h.enters.nodup hm)

end Resolver
end ModuleGraph
