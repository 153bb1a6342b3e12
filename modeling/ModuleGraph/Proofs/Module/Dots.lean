import ModuleGraph.Proofs.Module.Name

/-! # Dots in names

A qualified name is cut at all of its dots and a type name at its last one only. No identifier has
a dot in it, so the two fit: where a name is cut makes no difference to whether it is qualified.
-/

namespace ModuleGraph

open Text

/-- A letter, `_` or `$`, followed by any number of these and of numbers. -/
def IsIdentifier (s : String) : Prop :=
  ∃ c cs, s.toList = c :: cs ∧ (c = '_' ∨ c = '$' ∨ isAlphabetic c = true) ∧
    ∀ d ∈ cs, d = '_' ∨ d = '$' ∨ isAlphabetic d = true ∨ isNumeric d = true

variable {a b n p s : String} {c : Char} {cs : List Char}

theorem isIdentifierStart_iff :
    isIdentifierStart c = true ↔ c = '_' ∨ c = '$' ∨ isAlphabetic c = true := by
  simp [isIdentifierStart, or_assoc]

theorem isIdentifierPart_iff : isIdentifierPart c = true ↔
    c = '_' ∨ c = '$' ∨ isAlphabetic c = true ∨ isNumeric c = true := by
  rw [isIdentifierPart, Bool.or_eq_true, isIdentifierStart_iff, or_assoc, or_assoc]

theorem isIdentifier_iff : isIdentifier s.toList = true ↔ IsIdentifier s := by
  rw [IsIdentifier]
  cases s.toList with
  | nil => simp [isIdentifier]
  | cons c cs => simp [isIdentifier, isIdentifierStart_iff, isIdentifierPart_iff]

theorem dot_not_mem_of_isIdentifier (h : isIdentifier cs = true) : '.' ∉ cs := by
  intro hm
  have hdot : isIdentifierPart '.' = false := by decide
  cases hdot.symm.trans (isIdentifierPart_of_mem h hm)

theorem toList_append_dot (a b : String) : (a ++ "." ++ b).toList = a.toList ++ '.' :: b.toList := by
  simp

theorem isQualifiedName_iff : isQualifiedName s = true ↔
    ∃ parts : List String, parts ≠ [] ∧ (∀ part ∈ parts, IsIdentifier part) ∧
      s = ".".intercalate parts := by
  rw [isQualifiedName, List.all_eq_true]
  constructor
  · intro h
    refine ⟨(s.toList.splitOn '.').map String.ofList, ?_, ?_, ?_⟩
    · simp [List.splitOn_ne_nil]
    · refine List.forall_mem_map.2 fun part hp => isIdentifier_iff.1 ?_
      rw [String.toList_ofList]
      exact h part hp
    · rw [← String.toList_inj, String.toList_intercalate, List.map_map]
      simp only [Function.comp_def, String.toList_ofList, List.map_id']
      exact (List.intercalate_splitOn '.').symm
  · rintro ⟨parts, hne, hid, rfl⟩ part hp
    have hdot : ∀ cs ∈ parts.map String.toList, '.' ∉ cs := List.forall_mem_map.2 fun q hq =>
      dot_not_mem_of_isIdentifier (isIdentifier_iff.2 (hid q hq))
    rw [String.toList_intercalate] at hp
    have hsplit := List.splitOn_intercalate '.' hdot (by simpa using hne)
    obtain ⟨q, hq, rfl⟩ := List.mem_map.1 (hsplit ▸ hp)
    exact isIdentifier_iff.2 (hid q hq)

theorem isQualifiedName_append_dot : isQualifiedName (a ++ "." ++ b) = true ↔
    isQualifiedName a = true ∧ isQualifiedName b = true := by
  rw [isQualifiedName, toList_append_dot, List.splitOn_append_cons_self, List.all_append,
    Bool.and_eq_true, isQualifiedName, isQualifiedName]

/-- A name with a dot is cut in two at its last one. -/
theorem exists_eq_append_dot (h : '.' ∈ s.toList) : ∃ p c, s = p ++ "." ++ c ∧ '.' ∉ c.toList := by
  obtain ⟨c, p, hs, hc⟩ := List.eq_append_cons_of_mem (List.mem_reverse.2 h)
  refine ⟨.ofList p.reverse, .ofList c.reverse, ?_, by simpa using hc⟩
  rw [← String.toList_inj, toList_append_dot, String.toList_ofList, String.toList_ofList,
    ← List.reverse_reverse s.toList, hs]
  simp

theorem dropWhile_reverse_append (h : '.' ∉ n.toList) (cs : List Char) :
    (n.toList.reverse ++ cs).dropWhile (· != '.') = cs.dropWhile (· != '.') := by
  refine List.dropWhile_append_of_pos fun d hd => ?_
  rw [bne_iff_ne]
  rintro rfl
  exact h (List.mem_reverse.1 hd)

theorem packageOf_append_dot (h : '.' ∉ n.toList) : packageOf (p ++ "." ++ n) = p := by
  rw [packageOf, toList_append_dot, List.reverse_append, List.reverse_cons, List.append_assoc,
    dropWhile_reverse_append h]
  simp

theorem packageOf_of_not_mem (h : '.' ∉ s.toList) : packageOf s = "" := by
  rw [packageOf, ← List.append_nil s.toList.reverse, dropWhile_reverse_append h]
  rfl

theorem isQualifiedName_packageOf (h : isQualifiedName s = true) (hdot : '.' ∈ s.toList) :
    isQualifiedName (packageOf s) = true := by
  obtain ⟨p, c, rfl, hc⟩ := exists_eq_append_dot hdot
  rw [packageOf_append_dot hc]
  exact (isQualifiedName_append_dot.1 h).1

end ModuleGraph
