import ModuleGraph.Proofs.Toml.Assignment
import ModuleGraph.Toml.Document

/-! # Documents read back

A document that is written line by line is read back as the lines. Assignments of names of one part
each, all different, make a table of the names in that order.
-/

namespace ModuleGraph.Toml

variable {c : Char} {t cs cs' rest : List Char} {k : String} {v : Value} {line : Line}
  {ls ls' : List Line} {bound : Nat} {es entries root : Entries} {l : List (Key × Value)}
  {items : List Entries}

structure IsLine (t : List Char) (line : Line) : Prop where
  start : ∃ c t', t = c :: t' ∧ isBlank c = false ∧ c ≠ '#' ∧ c ≠ '\n' ∧ c ≠ '\r' ∧
    c ≠ '\ufeff'
  content : ∀ rest, readContent (t ++ '\n' :: rest) = some (line, '\n' :: rest)

inductive Writes : List Char → List Line → Prop
  | nil : Writes [] []
  | blank {cs : List Char} {ls : List Line} : Writes cs ls → Writes ('\n' :: cs) ls
  | line {t cs : List Char} {line : Line} {ls : List Line} : IsLine t line → Writes cs ls →
      Writes (t ++ '\n' :: cs) (line :: ls)

theorem Writes.append (h : Writes cs ls) (h' : Writes cs' ls') :
    Writes (cs ++ cs') (ls ++ ls') := by
  induction h with
  | nil => exact h'
  | blank _ ih => exact .blank ih
  | line hl _ ih =>
    rw [List.append_assoc]
    exact .line hl ih

theorem Writes.singleton (h : IsLine t line) : Writes (t ++ ['\n']) [line] := .line h .nil

theorem Writes.flatMap {α : Type} {text : α → List Char} {lines : α → List Line} {as : List α}
    (h : ∀ a ∈ as, Writes (text a) (lines a)) : Writes (as.flatMap text) (as.flatMap lines) := by
  induction as with
  | nil => exact .nil
  | cons a as ih =>
    obtain ⟨ha, h⟩ := List.forall_mem_cons.1 h
    exact ha.append (ih h)

theorem Writes.intercalate {α : Type} {text : α → List Char} {lines : α → List Line} {as : List α}
    (h : ∀ a ∈ as, Writes (text a) (lines a)) :
    Writes (['\n'].intercalate (as.map text)) (as.flatMap lines) := by
  induction as with
  | nil => exact .nil
  | cons a as ih =>
    obtain ⟨ha, h⟩ := List.forall_mem_cons.1 h
    cases as with
    | nil => simpa using ha
    | cons b as =>
      rw [List.map_cons, List.map_cons, List.intercalate_cons_cons, List.append_assoc]
      exact ha.append (.blank (ih h))

theorem endLine?_newline : endLine? ('\n' :: rest) = some rest := by
  simp [endLine?, isBlank, dropNewline?]

theorem Writes.readLines_eq (h : Writes cs ls) (hb : cs.length < bound) :
    readLines bound cs = some ls := by
  induction h generalizing bound with
  | nil =>
    obtain ⟨bound, rfl⟩ := Nat.exists_eq_succ_of_ne_zero (Nat.ne_zero_of_lt hb)
    rfl
  | blank _ ih =>
    obtain ⟨bound, rfl⟩ := Nat.exists_eq_succ_of_ne_zero (Nat.ne_zero_of_lt hb)
    rw [List.length_cons, Nat.succ_lt_succ_iff] at hb
    simp [readLines, isBlank, endLine?_newline, ih hb]
  | line hl _ ih =>
    obtain ⟨bound, rfl⟩ := Nat.exists_eq_succ_of_ne_zero (Nat.ne_zero_of_lt hb)
    rw [List.length_append, List.length_cons] at hb
    have hrest := ih (show _ < bound by omega)
    obtain ⟨c, t, rfl, hblank, hhash, hn, hr, -⟩ := hl.start
    have hcontent := hl.content
    simp only [List.cons_append] at hcontent ⊢
    simp [readLines, hblank, hhash, hn, hr, hcontent, endLine?_newline, hrest]

theorem Writes.dropMark_eq (h : Writes cs ls) : dropMark cs = cs := by
  cases h with
  | nil => rfl
  | blank _ => rfl
  | line hl _ =>
    obtain ⟨c, t, rfl, -, -, -, -, hc⟩ := hl.start
    unfold dropMark
    split
    · next h => exact (hc (List.cons.inj h).1).elim
    · rfl

theorem Writes.read?_eq (h : Writes cs ls) : read? (.ofList cs) = ofLines ls := by
  have hlines := h.readLines_eq (Nat.lt_succ_self _)
  simp [read?, h.dropMark_eq, hlines]

theorem readContent_of_ne (hc : c ≠ '[') : readContent (c :: cs) =
    (readAssignment readValue (c :: cs)).map fun (a, rest) => (.assignment a, rest) := by
  unfold readContent
  split
  · next h => exact (hc (List.cons.inj h).1).elim
  · next h => exact (hc (List.cons.inj h).1).elim
  · rfl

theorem isLine_assignment (hb : ∃ c t', t = c :: t' ∧ isBlank c = false)
    (hv : ∀ rest, readValue (t ++ '\n' :: rest) = some (v, '\n' :: rest)) :
    IsLine (keyText k ++ " = ".toList ++ t) (.assignment ([k], v)) := by
  obtain ⟨c, kt, hk, hblank, hbracket, hstart⟩ := exists_keyText_eq_cons_ne k
  refine ⟨⟨c, kt ++ " = ".toList ++ t, ?_, hblank, hstart⟩, fun rest => ?_⟩
  · rw [hk]
    rfl
  have hskip : (t ++ '\n' :: rest).dropWhile isBlank = t ++ '\n' :: rest := by
    obtain ⟨b, t', rfl, hb⟩ := hb
    exact List.dropWhile_cons_of_neg (by simp [hb])
  have hread : readAssignment readValue
      (keyText k ++ ' ' :: '=' :: ' ' :: (t ++ '\n' :: rest)) = _ :=
    readAssignment_keyText (hv rest) hskip
  have happend : keyText k ++ " = ".toList ++ t ++ '\n' :: rest =
      keyText k ++ ' ' :: '=' :: ' ' :: (t ++ '\n' :: rest) := by
    simp
  rw [happend]
  rw [hk, List.cons_append] at hread ⊢
  rw [readContent_of_ne hbracket, hread]
  rfl

/-! ### Tables -/

/-- The assignments that give each name of a table its value. -/
def assignments (entries : Entries) : List (Key × Value) := entries.map fun e => ([e.1], e.2)

theorem get?_eq_none_iff : es.get? k = none ↔ k ∉ es.map (·.1) := by
  rw [Entries.get?, List.lookup_eq_none_iff]
  constructor
  · intro h hk
    obtain ⟨e, he, rfl⟩ := List.mem_map.1 hk
    simpa using h e he
  · intro h e he
    rw [bne_iff_ne]
    rintro rfl
    exact h (List.mem_map_of_mem he)

theorem assign_singleton (h : es.get? k = none) :
    Entries.assign es ([k], v) = some (es ++ [(k, v)]) := by
  simp [Entries.assign, Entries.change, h]

theorem foldlM_assign (h : ((es ++ entries).map (·.1)).Nodup) :
    (assignments entries).foldlM Entries.assign es = some (es ++ entries) := by
  induction entries generalizing es with
  | nil => simp [assignments]
  | cons e entries ih =>
    have he : es.get? e.1 = none := by
      rw [List.map_append, List.nodup_append] at h
      rw [get?_eq_none_iff]
      intro hk
      exact h.2.2 _ hk _ List.mem_cons_self rfl
    rw [← List.singleton_append, ← List.append_assoc] at h
    rw [assignments, List.map_cons, List.foldlM_cons, assign_singleton he, ← assignments]
    simpa using ih h

theorem ofAssignments_assignments (h : (entries.map (·.1)).Nodup) :
    Entries.ofAssignments (assignments entries) = some entries :=
  foldlM_assign h

theorem splitAssignments_append (h : (splitAssignments ls).1 = []) :
    (splitAssignments (l.map .assignment ++ ls)).1 = l := by
  induction l with
  | nil => exact h
  | cons a l ih =>
    rw [List.map_cons, List.cons_append, splitAssignments, ih]

theorem extend_append : extend root (l.map .assignment ++ ls) = extend root ls := by
  induction l with
  | nil => rfl
  | cons a l ih => exact ih

def listed (k : String) (items : List Entries) : Entries :=
  if items = [] then [] else [(k, .tables items)]

theorem openElement_listed (h : (entries.map (·.1)).Nodup) :
    openElement [k] (assignments entries) (listed k items) =
      some (listed k (items ++ [entries])) := by
  have hof := ofAssignments_assignments h
  by_cases hi : items = []
  · simp [openElement, listed, hi, Entries.change, Entries.get?, Entries.set, hof]
  · simp [openElement, listed, hi, Entries.change, Entries.get?, Entries.set, hof]

theorem openTable_listed {k' : String} (hk : es.get? k' = none) (h : (entries.map (·.1)).Nodup) :
    openTable [k, k'] (assignments entries) (listed k (items ++ [es])) =
      some (listed k (items ++ [es ++ [(k', .table .header entries)]])) := by
  have hof : (assignments entries).foldlM Entries.assign [] = some entries := foldlM_assign h
  rw [Entries.get?] at hk
  simp [openTable, listed, Entries.change, Entries.get?, Entries.set, hof, hk]

end ModuleGraph.Toml
