import Mathlib.Order.WellFounded
import ModuleGraph.Proofs.Configuration.Stack

/-! # Requires come to an end

All that visible modules require is visible, and requires never lead back to where they started,
however many parents there are and whatever names they share. Where two lookups are asked in turn
and the first finds all that its modules require, requires that have come to the first stay with
it. So no cycle goes through both, and none through a configuration and its parents.
-/

namespace ModuleGraph

open Relation

/-- A name is looked up as a module that requires another name. -/
def Needs (look : String → Option Descriptor) (a b : String) : Prop :=
  ∃ d, look a = some d ∧ b ∈ d.requires

/-- A lookup that finds all that its modules require, with requires that come to an end. -/
structure Grounded (look : String → Option Descriptor) : Prop where
  closed : ∀ a b, Needs look a b → (look b).isSome
  founded : WellFounded fun b a => Needs look a b

section Lookups

variable {f g look : String → Option Descriptor} {a b n : String}

theorem needs_or_of_left (h : (f a).isSome) :
    Needs (fun n => (f n).or (g n)) a b ↔ Needs f a b := by
  obtain ⟨d, hd⟩ := Option.isSome_iff_exists.1 h
  simp only [Needs, hd, Option.some_or]

theorem needs_or_of_right (h : f a = none) :
    Needs (fun n => (f n).or (g n)) a b ↔ Needs g a b := by
  simp only [Needs, h, Option.none_or]

theorem Grounded.acc_or_of_left (hf : Grounded f) (hn : (f n).isSome) :
    Acc (fun b a => Needs (fun n => (f n).or (g n)) a b) n := by
  induction hf.founded.apply n with
  | intro n _ ih =>
    refine .intro n fun m hm => ?_
    rw [needs_or_of_left hn] at hm
    exact ih m hm (hf.closed n m hm)

/-- The second lookup need not find all that its modules require. -/
theorem Grounded.founded_or (hf : Grounded f) (hg : WellFounded fun b a => Needs g a b) :
    WellFounded fun b a => Needs (fun n => (f n).or (g n)) a b := by
  constructor
  intro n
  induction hg.apply n with
  | intro n _ ih =>
    cases hn : f n with
    | some d => exact hf.acc_or_of_left (hn ▸ rfl)
    | none =>
      -- Requires go on in the second lookup until they come to a name that the first one finds.
      refine .intro n fun m hm => ih m ?_
      rwa [needs_or_of_right hn] at hm

theorem Grounded.or (hf : Grounded f) (hg : Grounded g) :
    Grounded fun n => (f n).or (g n) where
  closed := by
    intro a b h
    rw [Option.isSome_or, Bool.or_eq_true]
    cases ha : f a with
    | some d =>
      rw [needs_or_of_left (ha ▸ rfl)] at h
      exact .inl (hf.closed a b h)
    | none =>
      rw [needs_or_of_right ha] at h
      exact .inr (hg.closed a b h)
  founded := hf.founded_or hg.founded

theorem grounded_none : Grounded fun _ => none where
  closed := by
    rintro a b ⟨d, hd, -⟩
    cases hd
  founded := by
    constructor
    intro n
    refine .intro n ?_
    rintro m ⟨d, hd, -⟩
    cases hd

theorem Grounded.not_cycle (h : Grounded look) (n : String) : ¬ TransGen (Needs look) n n := by
  intro hc
  rw [← transGen_swap] at hc
  exact h.founded.transGen.irrefl.irrefl n hc

end Lookups

namespace Configuration

variable {c : Configuration} {a b n : String} {ps : List Configuration}

theorem grounded_searchAll (h : ∀ p ∈ ps, Grounded fun n => p.find? n) :
    Grounded fun n => searchAll (fun c => c.modules.get? n) ps := by
  induction ps with
  | nil => exact grounded_none
  | cons p ps ih =>
    rw [List.forall_mem_cons] at h
    exact h.1.or (ih h.2)

theorem Coherent.founded (h : c.Coherent) :
    WellFounded fun b a => Needs c.modules.get? a b := by
  constructor
  intro n
  induction n using h.induction with
  | inherited n hn =>
    refine .intro n ?_
    rintro m ⟨d, hd, -⟩
    exact (hn (NameMap.mem_of_get? hd)).elim
  | required n d hd ih =>
    refine .intro n ?_
    rintro m ⟨e, he, hm⟩
    obtain rfl := Option.some.inj (hd.symm.trans he)
    exact ih m hm

/-- No parent has a local name, so parents may as well be asked first. -/
theorem Coherent.find?_eq_or (h : c.Coherent) (n : String) :
    c.find? n = (searchAll (fun c => c.modules.get? n) c.parents).or (c.modules.get? n) := by
  rw [find?, search_eq]
  cases hd : c.modules.get? n with
  | none => rw [Option.none_or, Option.or_none]
  | some d =>
    have hp : searchAll (fun c => c.modules.get? n) c.parents = none := by
      rw [searchAll_eq_findSome?, List.findSome?_eq_none_iff]
      intro p hp
      have hv := h.apart n (NameMap.mem_of_get? hd) p hp
      rwa [isVisible, Option.not_isSome_iff_eq_none] at hv
    rw [hp, Option.some_or, Option.none_or]

theorem Reachable.isVisible_of_needs (h : c.Reachable) (hn : Needs (fun n => c.find? n) a b) :
    c.isVisible b = true := by
  obtain ⟨d, hd, hb⟩ := hn
  obtain ⟨o, ho, hd⟩ := find?_eq_some_iff.1 hd
  obtain ⟨hs, -⟩ := standsOn_of_ownerOf? ho
  exact hs.isVisible (h.isVisible_of_requires ho hd hb)

theorem Reachable.grounded (h : c.Reachable) : Grounded fun n => c.find? n := by
  induction c using Configuration.induction with
  | step c ih =>
    refine ⟨fun a b => h.isVisible_of_needs, ?_⟩
    have hp : Grounded fun n => searchAll (fun c => c.modules.get? n) c.parents :=
      grounded_searchAll fun p hp => ih p hp (h.parent hp)
    simp only [h.coherent.find?_eq_or]
    exact hp.founded_or h.coherent.founded

/-- In every configuration that can be made, all that visible modules require is visible, and no
visible module comes back to itself along requires of visible modules. -/
theorem requires_closed_and_acyclic (h : c.Reachable) :
    (∀ n d, c.find? n = some d → ∀ m ∈ d.requires, c.isVisible m = true) ∧
      ∀ n, ¬ TransGen c.Requires n n := by
  constructor
  · intro n d hd m hm
    exact h.isVisible_of_needs ⟨d, hd, hm⟩
  · intro n hn
    refine h.grounded.not_cycle n (TransGen.mono ?_ n n hn)
    rintro a b ⟨d, hd, hb, -⟩
    exact ⟨d, hd, hb⟩

def forward : Configuration :=
  Resolver.configure ⟨.empty, .empty, []⟩ 6
    (.ofList [("a", ⟨"a", .ofList ["b"], ∅, ∅⟩), ("b", ⟨"b", ∅, ∅, ∅⟩)]) ["b", "a"]

def backward : Configuration :=
  Resolver.configure ⟨.empty, .empty, []⟩ 7
    (.ofList [("a", ⟨"a", ∅, ∅, ∅⟩), ("b", ⟨"b", .ofList ["a"], ∅, ∅⟩)]) ["a", "b"]

/-- A configuration on two parents whose requires go opposite ways between the same names. -/
def crossed : Configuration := Resolver.configure ⟨.empty, .empty, [forward, backward]⟩ 8 ∅ []

theorem reachable_forward : forward.Reachable :=
  @Reachable.resolve ⟨.library forward.modules, .empty, []⟩ 6 ["a"] _ (by simp) (by rfl)

theorem reachable_backward : backward.Reachable :=
  @Reachable.resolve ⟨.library backward.modules, .empty, []⟩ 7 ["b"] _ (by simp) (by rfl)

theorem reachable_crossed : crossed.Reachable :=
  @Reachable.resolve ⟨.empty, .empty, [forward, backward]⟩ 8 [] _
    (by simp [reachable_forward, reachable_backward]) (by rfl)

theorem crossed_closed_and_acyclic : crossed.Reachable ∧ forward.Requires "a" "b" ∧
    backward.Requires "b" "a" ∧ crossed.isVisible "b" = true ∧
      ¬ TransGen crossed.Requires "a" "a" := by
  obtain ⟨hc, ha⟩ := requires_closed_and_acyclic reachable_crossed
  have hf : forward.Requires "a" "b" := ⟨⟨"a", .ofList ["b"], ∅, ∅⟩, by rfl, by decide, by decide⟩
  have hb : backward.Requires "b" "a" := ⟨⟨"b", .ofList ["a"], ∅, ∅⟩, by rfl, by decide, by decide⟩
  have hv := hc "a" ⟨"a", .ofList ["b"], ∅, ∅⟩ (by rfl) "b" (by decide)
  exact ⟨reachable_crossed, hf, hb, hv, ha "a"⟩

end Configuration
end ModuleGraph
