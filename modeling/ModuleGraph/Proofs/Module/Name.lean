import Mathlib.Data.List.Basic
import ModuleGraph.Module.Name

/-! # Names between separators

No separator of a text is part of a name. A list that is written with separators can therefore be
read back from the text.
-/

namespace ModuleGraph

section Separator

variable {α : Type} {a : α} {sep : List α}

/-- A text is cut in one way only at the first place of an element. -/
theorem cut_inj {x y r s : List α} (hx : a ∉ x) (hy : a ∉ y) (h : x ++ a :: r = y ++ a :: s) :
    x = y ∧ r = s := by
  induction x generalizing y with
  | nil =>
    cases y with
    | nil => exact ⟨rfl, (List.cons.inj h).2⟩
    | cons b y => exact (hy ((List.cons.inj h).1 ▸ List.mem_cons_self)).elim
  | cons b x ih =>
    cases y with
    | nil => exact (hx ((List.cons.inj h).1 ▸ List.mem_cons_self)).elim
    | cons c y =>
      obtain ⟨rfl, hxy⟩ := List.cons.inj h
      obtain ⟨rfl, hrs⟩ :=
        ih (List.not_mem_of_not_mem_cons hx) (List.not_mem_of_not_mem_cons hy) hxy
      exact ⟨rfl, hrs⟩

theorem mem_of_mem_intercalate : ∀ {xs : List (List α)}, a ∈ sep.intercalate xs →
    a ∈ sep ∨ ∃ x ∈ xs, a ∈ x
  | [], h => by simp at h
  | [x], h => .inr ⟨x, List.mem_singleton_self x, by simpa using h⟩
  | x :: y :: xs, h => by
    rw [List.intercalate_cons_cons, List.mem_append, List.mem_append] at h
    rcases h with (h | h) | h
    · exact .inr ⟨x, List.mem_cons_self, h⟩
    · exact .inl h
    · rcases mem_of_mem_intercalate h with h | ⟨z, hz, ha⟩
      · exact .inl h
      · exact .inr ⟨z, List.mem_cons_of_mem x hz, ha⟩

theorem intercalate_inj : ∀ {xs ys : List (List α)}, (∀ x ∈ xs, a ∉ x) → (∀ y ∈ ys, a ∉ y) →
    xs ≠ [] → ys ≠ [] → (a :: sep).intercalate xs = (a :: sep).intercalate ys → xs = ys
  | [], _, _, _, h, _, _ => (h rfl).elim
  | _, [], _, _, _, h, _ => (h rfl).elim
  | [x], [y], _, _, _, _, h => by simpa using h
  | [x], y :: y' :: ys, hx, _, _, _, h => by
    rw [List.intercalate_singleton, List.intercalate_cons_cons] at h
    simp [h] at hx
  | x :: x' :: xs, [y], _, hy, _, _, h => by
    rw [List.intercalate_singleton, List.intercalate_cons_cons] at h
    simp [← h] at hy
  | x :: x' :: xs, y :: y' :: ys, hx, hy, _, _, h => by
    rw [List.forall_mem_cons] at hx hy
    rw [List.intercalate_cons_cons, List.intercalate_cons_cons, List.append_assoc,
      List.append_assoc] at h
    obtain ⟨rfl, ht⟩ := cut_inj hx.1 hy.1 h
    rw [intercalate_inj hx.2 hy.2 (List.cons_ne_nil x' xs) (List.cons_ne_nil y' ys)
      (List.append_cancel_left ht)]

theorem flatMap_append_eq_intercalate (xs : List (List α)) :
    xs.flatMap (· ++ sep) = sep.intercalate (xs ++ [[]]) := by
  induction xs with
  | nil => simp
  | cons x xs ih =>
    rw [List.flatMap_cons, List.cons_append,
      List.intercalate_cons_of_ne_nil (List.append_ne_nil_of_right_ne_nil xs (by simp)), ih]

theorem flatMap_append_inj {xs ys : List (List α)} (hx : ∀ x ∈ xs, a ∉ x) (hy : ∀ y ∈ ys, a ∉ y)
    (h : xs.flatMap (· ++ a :: sep) = ys.flatMap (· ++ a :: sep)) : xs = ys := by
  rw [flatMap_append_eq_intercalate, flatMap_append_eq_intercalate] at h
  refine List.append_cancel_right (intercalate_inj ?_ ?_ (by simp) (by simp) h)
  · simpa [or_imp, forall_and] using hx
  · simpa [or_imp, forall_and] using hy

theorem eq_of_map_eq {β : Type} {f : α → β} {P : α → Prop}
    (hf : ∀ a b, P a → P b → f a = f b → a = b) : ∀ {l m : List α}, (∀ a ∈ l, P a) →
      (∀ b ∈ m, P b) → l.map f = m.map f → l = m
  | [], [], _, _, _ => rfl
  | [], b :: m, _, _, h => by cases h
  | a :: l, [], _, _, h => by cases h
  | a :: l, b :: m, hl, hm, h => by
    rw [List.forall_mem_cons] at hl hm
    obtain ⟨hab, ht⟩ := List.cons.inj h
    rw [hf a b hl.1 hm.1 hab, eq_of_map_eq hf hl.2 hm.2 ht]

end Separator

variable {n : String} {c : Char}

theorem isIdentifierPart_of_mem {part : List Char} (h : isIdentifier part = true)
    (hc : c ∈ part) : isIdentifierPart c = true := by
  cases part with
  | nil => cases hc
  | cons b part =>
    rw [isIdentifier, Bool.and_eq_true, List.all_eq_true] at h
    rcases List.mem_cons.1 hc with rfl | hc
    · rw [isIdentifierPart, h.1, Bool.true_or]
    · exact h.2 c hc

/-- A name has no other characters than dots and those of identifiers. -/
theorem not_mem_of_isQualifiedName (h : isQualifiedName n = true) (hdot : c ≠ '.')
    (hpart : isIdentifierPart c = false) : c ∉ n.toList := by
  intro hc
  have hn : ['.'].intercalate (n.toList.splitOn '.') = n.toList := List.intercalate_splitOn '.'
  rw [isQualifiedName, List.all_eq_true] at h
  rw [← hn] at hc
  rcases mem_of_mem_intercalate hc with hc | ⟨part, hm, hc⟩
  · exact hdot (List.mem_singleton.1 hc)
  · have hp := isIdentifierPart_of_mem (h part hm) hc
    rw [hpart] at hp
    cases hp

end ModuleGraph
