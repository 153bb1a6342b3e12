import Mathlib.Order.Bounds.Defs
import ModuleGraph.Proofs.Finder.Library
import ModuleGraph.Proofs.Resolution.Walk
import ModuleGraph.Resolution.Resolver

/-! # Which modules are selected

What a name stands for is said without the walk: a new module, one of a parent, or nothing. The
modules selected are the new ones among the names that the roots reach, and selecting fails for the
least name that is missing or, if none is, for the least that hides a module of a parent.
-/

namespace ModuleGraph

/-- The modules that a walk at its end has selected, unless a name is missing or shadowed. -/
def Walk.selection (w : Walk) : Except ResolutionError Library :=
  match w.missing.entries, w.shadowed.toList with
  | (name, requiredBy) :: _, _ => .error (.moduleNotFound name requiredBy)
  | [], name :: _ => .error (.duplicateModule name)
  | [], [] => .ok w.selected

namespace Resolver

def IsInherited (r : Resolver) (n : String) : Prop := ∃ p ∈ r.parents, p.isVisible n = true

/-- The new module that a name stands for. The second finder is asked only for names that neither
the finder nor a parent has. -/
inductive IsNew (r : Resolver) (n : String) : Descriptor → Prop
  | first {d : Descriptor} : r.finder.find n = some d → d.name = n → IsNew r n d
  | second {d : Descriptor} : (∀ e, r.finder.find n = some e → e.name ≠ n) →
      ¬ r.IsInherited n → r.afterFinder.find n = some d → d.name = n → IsNew r n d

/-- The roots and all that new modules among the names reached require. -/
inductive Reaches (r : Resolver) (roots : List String) : String → Prop
  | root {n : String} : n ∈ roots → Reaches r roots n
  | required {n m : String} {d : Descriptor} : Reaches r roots n → r.IsNew n d →
      m ∈ d.requires → Reaches r roots m

def Selects (r : Resolver) (roots : List String) (n : String) (d : Descriptor) : Prop :=
  r.Reaches roots n ∧ r.IsNew n d

def Lacks (r : Resolver) (roots : List String) (n : String) : Prop :=
  r.Reaches roots n ∧ ¬ r.IsInherited n ∧ ∀ d, ¬ r.IsNew n d

/-- A name reached that the finder answers although a parent has a module for it. -/
def Shadows (r : Resolver) (roots : List String) (n : String) : Prop :=
  r.Reaches roots n ∧ r.IsInherited n ∧ ∃ d, r.finder.find n = some d ∧ d.name = n

variable {r : Resolver} {roots : List String} {n : String} {d e : Descriptor} {s : Bool}
  {modules : Library}

theorem Reaches.trans {roots' : List String} (h : r.Reaches roots n)
    (hr : ∀ k ∈ roots, r.Reaches roots' k) : r.Reaches roots' n := by
  induction h with
  | root hn => exact hr _ hn
  | required _ hd hm ih => exact .required ih hd hm

theorem Reaches.mono {roots' : List String} (h : r.Reaches roots n) (hs : roots ⊆ roots') :
    r.Reaches roots' n :=
  h.trans fun _ hk => .root (hs hk)

theorem answer?_eq_some_iff {f : Finder} :
    answer? f n = some d ↔ f.find n = some d ∧ d.name = n := by
  rw [answer?, Option.filter_eq_some_iff, decide_eq_true_eq]

theorem answer?_eq_none_iff {f : Finder} :
    answer? f n = none ↔ ∀ d, f.find n = some d → d.name ≠ n := by
  simp [Option.eq_none_iff_forall_ne_some, answer?_eq_some_iff]

theorem isNew_iff : r.IsNew n d ↔ answer? r.finder n = some d ∨
    answer? r.finder n = none ∧ ¬ r.IsInherited n ∧ answer? r.afterFinder n = some d := by
  simp only [answer?_eq_some_iff, answer?_eq_none_iff]
  constructor
  · rintro (⟨hf, hd⟩ | ⟨hn, hi, ha, hd⟩)
    · exact .inl ⟨hf, hd⟩
    · exact .inr ⟨hn, hi, ha, hd⟩
  · rintro (⟨hf, hd⟩ | ⟨hn, hi, ha, hd⟩)
    · exact .first hf hd
    · exact .second hn hi ha hd

theorem IsNew.name (h : r.IsNew n d) : d.name = n := by
  cases h <;> assumption

theorem IsNew.mem_stock (h : r.IsNew n d) : d ∈ r.finder.stock ++ r.afterFinder.stock := by
  rw [List.mem_append]
  cases h with
  | first hf _ => exact .inl (Finder.mem_stock_of_find hf)
  | second _ _ ha _ => exact .inr (Finder.mem_stock_of_find ha)

theorem isInherited_iff : (r.parents.any (·.isVisible n)) = true ↔ r.IsInherited n :=
  List.any_eq_true

theorem look_eq_found_iff :
    r.look n = .found d s ↔ r.IsNew n d ∧ (s = true ↔ r.IsInherited n) := by
  rw [isNew_iff, ← isInherited_iff, look]
  cases hf : answer? r.finder n with
  | some e => grind
  | none =>
    cases hi : r.parents.any (·.isVisible n) <;> cases ha : answer? r.afterFinder n <;> simp

theorem exists_look_eq_found_iff : (∃ s, r.look n = .found d s) ↔ r.IsNew n d := by
  simp only [look_eq_found_iff, exists_and_left, and_iff_left_iff_imp]
  intro _
  by_cases hi : r.IsInherited n
  · exact ⟨true, by simp [hi]⟩
  · exact ⟨false, by simp [hi]⟩

theorem look_eq_missing_iff :
    r.look n = .missing ↔ ¬ r.IsInherited n ∧ ∀ d, ¬ r.IsNew n d := by
  simp only [isNew_iff, ← isInherited_iff, look]
  cases hf : answer? r.finder n with
  | some e => simp
  | none =>
    cases hi : r.parents.any (·.isVisible n) <;> cases ha : answer? r.afterFinder n <;> simp

theorem reached_iff {n : String} :
    Walk.Reached r.look (.ofList roots) n ↔ r.Reaches roots n := by
  constructor
  · intro h
    induction h with
    | root hn => exact .root (NameSet.mem_ofList.1 hn)
    | required _ hl hm ih => exact .required ih (exists_look_eq_found_iff.1 ⟨_, hl⟩) hm
  · intro h
    induction h with
    | root hn => exact .root (NameSet.mem_ofList.2 hn)
    | @required n m d _ hd hm ih =>
      obtain ⟨s, hl⟩ := exists_look_eq_found_iff.2 hd
      exact .required ih hl hm

/-- The requires of all modules that a walk selects are on offer. -/
theorem totalRequires_selected_le {w : Walk} {start : NameSet} (i : Walk.Inv r.look start w) :
    start.size + Descriptor.totalRequires w.selected.values ≤ r.walkBound start := by
  have hn : ∀ n d, w.selected.get? n = some d → r.IsNew n d := by
    intro n d hd
    exact exists_look_eq_found_iff.1 ((i.selected_iff n d).1 hd).2
  have hown : w.selected.OwnNames := fun n d hd => (hn n d hd).name
  have hnodup : w.selected.values.Nodup :=
    .of_map (·.name) (hown.map_name_values ▸ NameMap.nodup_keys w.selected)
  have hle := Descriptor.totalRequires_le_of_subset hnodup fun d hd => by
    obtain ⟨n, hd⟩ := NameMap.mem_values.1 hd
    exact (hn n d hd).mem_stock
  rw [Descriptor.totalRequires_append, ← Finder.load_eq_totalRequires,
    ← Finder.load_eq_totalRequires] at hle
  rw [walkBound]
  omega

theorem inv_walk (r : Resolver) (roots : NameSet) :
    Walk.Inv r.look roots (r.walk roots) ∧ (r.walk roots).queue = [] :=
  Walk.run_start fun _ => totalRequires_selected_le

theorem walk_eq_run {roots : NameSet} {l : Nat} (hl : r.walkBound roots ≤ l) :
    r.walk roots = Walk.run r.look l (.start roots) :=
  (Walk.run_eq_of_le hl (inv_walk r roots).2).symm

/-- Two walks may be bounded by different numbers. What holds of them whenever both take as many
names as they may holds of the two at their ends. -/
theorem walk_pair {r' : Resolver} {roots roots' : NameSet} {P : Walk → Walk → Prop}
    (h : ∀ l, P (Walk.run r.look l (.start roots)) (Walk.run r'.look l (.start roots'))) :
    P (r.walk roots) (r'.walk roots') := by
  rw [walk_eq_run (Nat.le_max_left (r.walkBound roots) (r'.walkBound roots')),
    walk_eq_run (Nat.le_max_right (r.walkBound roots) (r'.walkBound roots'))]
  exact h _

theorem seen_walk_iff : n ∈ (r.walk (.ofList roots)).seen ↔ r.Reaches roots n := by
  obtain ⟨i, hq⟩ := inv_walk r (.ofList roots)
  rw [i.seen_iff hq, reached_iff]

theorem selected_walk_iff :
    (r.walk (.ofList roots)).selected.get? n = some d ↔ r.Selects roots n d := by
  rw [(inv_walk r _).1.selected_iff, seen_walk_iff, exists_look_eq_found_iff, Selects]

theorem missing_walk_iff : n ∈ (r.walk (.ofList roots)).missing ↔ r.Lacks roots n := by
  rw [(inv_walk r _).1.missing_iff, seen_walk_iff, look_eq_missing_iff, Lacks]

theorem shadowed_walk_iff : n ∈ (r.walk (.ofList roots)).shadowed ↔ r.Shadows roots n := by
  rw [(inv_walk r _).1.shadowed_iff, seen_walk_iff, Shadows]
  refine and_congr_right fun _ => ?_
  simp only [look_eq_found_iff, true_iff]
  constructor
  · rintro ⟨d, hd, hi⟩
    cases hd with
    | first hf hd => exact ⟨hi, d, hf, hd⟩
    | second _ hn _ _ => exact (hn hi).elim
  · rintro ⟨hi, d, hf, hd⟩
    exact ⟨d, .first hf hd, hi⟩

theorem select_eq (r : Resolver) (roots : NameSet) :
    r.select roots = (r.walk roots).selection := rfl

theorem select_cases (r : Resolver) (roots : List String) :
    (∃ n m, r.select (.ofList roots) = .error (.moduleNotFound n m) ∧
      IsLeast {n | r.Lacks roots n} n) ∨
    ((∀ n, ¬ r.Lacks roots n) ∧ ∃ n, r.select (.ofList roots) = .error (.duplicateModule n) ∧
      IsLeast {n | r.Shadows roots n} n) ∨
    ((∀ n, ¬ r.Lacks roots n) ∧ (∀ n, ¬ r.Shadows roots n) ∧
      ∃ modules, r.select (.ofList roots) = .ok modules ∧
        ∀ n d, modules.get? n = some d ↔ r.Selects roots n d) := by
  simp only [← missing_walk_iff, ← shadowed_walk_iff, ← selected_walk_iff, select]
  rcases hm : (r.walk (.ofList roots)).missing.entries with _ | ⟨⟨n, m⟩, l⟩
  · have hk : (r.walk (.ofList roots)).missing.keys = [] := by rw [NameMap.keys, hm, List.map_nil]
    have hn := NameMap.not_mem_of_keys_eq_nil hk
    rcases hs : (r.walk (.ofList roots)).shadowed.toList with _ | ⟨n, l⟩
    · exact .inr (.inr ⟨hn, NameMap.not_mem_of_keys_eq_nil hs, _, rfl, fun _ _ => Iff.rfl⟩)
    · exact .inr (.inl ⟨hn, n, rfl, NameMap.isLeast_of_keys_eq_cons hs⟩)
  · have hk : (r.walk (.ofList roots)).missing.keys = n :: l.map (·.1) := by
      rw [NameMap.keys, hm, List.map_cons]
    exact .inl ⟨n, m, rfl, NameMap.isLeast_of_keys_eq_cons hk⟩

end Resolver
end ModuleGraph
