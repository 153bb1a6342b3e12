import ModuleGraph.Proofs.Toml.Quoted
import ModuleGraph.Toml.Value.Reader

/-! # Keys and texts read back

A key of one name is read back with the name, bare or in quotes, and the texts of a list between
brackets are read back one by one.
-/

namespace ModuleGraph.Toml

variable {k s : String} {cs rest : List Char} {items : List String} {v : Value} {bound depth : Nat}

theorem exists_quote_eq_cons (style : QuoteStyle) (cs : List Char) :
    ∃ q t, quote style cs = q :: t ∧ (q = '"' ∨ q = '\'') := by
  cases style with
  | basic => exact ⟨_, _, rfl, .inl rfl⟩
  | literal => exact ⟨_, _, rfl, .inr rfl⟩
  | multilineBasic => exact ⟨_, _, rfl, .inl rfl⟩
  | multilineLiteral => exact ⟨_, _, rfl, .inr rfl⟩

/-! ### Keys -/

theorem exists_keyText_eq_cons (k : String) :
    ∃ c t, keyText k = c :: t ∧ (isBareKeyChar c = true ∨ c = '"' ∨ c = '\'') := by
  unfold keyText
  split
  · next h =>
    obtain ⟨c, t, ht⟩ := List.exists_cons_of_ne_nil h.1
    rw [ht, List.all_cons, Bool.and_eq_true] at h
    exact ⟨c, t, ht, .inl h.2.1⟩
  · obtain ⟨q, t, ht, hq⟩ := exists_quote_eq_cons (keyStyle k.toList) k.toList
    exact ⟨q, t, ht, .inr hq⟩

/-- A key starts with no character that the readers of lines look for. -/
theorem exists_keyText_eq_cons_ne (k : String) : ∃ c t, keyText k = c :: t ∧
    isBlank c = false ∧ c ≠ '[' ∧ c ≠ '#' ∧ c ≠ '\n' ∧ c ≠ '\r' ∧ c ≠ '\ufeff' := by
  obtain ⟨c, t, ht, hc⟩ := exists_keyText_eq_cons k
  refine ⟨c, t, ht, ?_⟩
  rcases hc with hc | rfl | rfl
  · refine ⟨?_, ?_, ?_, ?_, ?_, ?_⟩
    · by_contra hb
      simp only [isBlank, Bool.or_eq_true, decide_eq_true_eq, Bool.not_eq_false] at hb
      rcases hb with rfl | rfl <;> exact absurd hc (by decide)
    all_goals
      rintro rfl
      exact absurd hc (by decide)
  · decide
  · decide

theorem readName_bare (hne : cs ≠ []) (h : ∀ c ∈ cs, isBareKeyChar c = true) :
    readName (cs ++ ' ' :: rest) = some (.ofList cs, ' ' :: rest) := by
  have htake : (cs ++ ' ' :: rest).takeWhile isBareKeyChar = cs := by
    rw [List.takeWhile_append_of_pos h]
    simp [isBareKeyChar]
  have hdrop : (cs ++ ' ' :: rest).dropWhile isBareKeyChar = ' ' :: rest := by
    rw [List.dropWhile_append_of_pos h]
    simp [isBareKeyChar]
  obtain ⟨c, t, rfl⟩ := List.exists_cons_of_ne_nil hne
  have hc := h c List.mem_cons_self
  unfold readName
  split
  · next heq =>
    obtain ⟨rfl, -⟩ := List.cons.inj heq
    exact absurd hc (by decide)
  · next heq =>
    obtain ⟨rfl, -⟩ := List.cons.inj heq
    exact absurd hc (by decide)
  · rw [htake, hdrop]
    rfl

theorem readName_keyText : readName (keyText k ++ ' ' :: rest) = some (k, ' ' :: rest) := by
  unfold keyText
  split
  · next h =>
    rw [readName_bare h.1 (by simpa using h.2), String.ofList_toList]
  · have hk := holds_keyStyle k.toList
    have hl : keyStyle k.toList = .literal ∨ keyStyle k.toList = .basic := by
      unfold keyStyle
      split
      · exact .inl rfl
      · exact .inr rfl
    rcases hl with hl | hl
    · rw [hl] at hk
      simp [hl, quote, readName, readLiteral_append hk.2]
    · simp [hl, quote, readName, readBasic_basicBody]

theorem readPath_keyText : readPath (bound + 1) (keyText k ++ ' ' :: '=' :: rest) =
    some ([k], '=' :: rest) := by
  have hskip : (keyText k ++ ' ' :: '=' :: rest).dropWhile isBlank =
      keyText k ++ ' ' :: '=' :: rest := by
    obtain ⟨c, t, ht, hb, -⟩ := exists_keyText_eq_cons_ne k
    simp [ht, hb]
  have hrest : (' ' :: '=' :: rest).dropWhile isBlank = '=' :: rest := by
    simp [isBlank]
  simp [readPath, hskip, readName_keyText, hrest]

theorem readKey_keyText : readKey (keyText k ++ ' ' :: '=' :: rest) = some ([k], '=' :: rest) :=
  readPath_keyText

theorem readAssignment_keyText (hv : readValue cs = some (v, rest))
    (hb : cs.dropWhile isBlank = cs) :
    readAssignment readValue (keyText k ++ ' ' :: '=' :: ' ' :: cs) =
      some (([k], v), rest) := by
  have hskip : (' ' :: cs).dropWhile isBlank = cs := by
    rw [List.dropWhile_cons_of_pos (by decide), hb]
  simp [readAssignment, readKey_keyText, hskip, hv]

/-! ### Values -/

theorem exists_textValue_eq_cons (s : String) :
    ∃ q t, textValue s = q :: t ∧ (q = '"' ∨ q = '\'') :=
  exists_quote_eq_cons _ _

theorem skipSpace_cons {c : Char} (hb : isBlank c = false) (hn : c ≠ '\n') (hr : c ≠ '\r')
    (hc : c ≠ '#') : skipSpace false (c :: cs) = c :: cs := by
  rw [skipSpace.eq_def]
  simp [hb, hn, hr, hc]

theorem skipSpace_textValue : skipSpace false (textValue s ++ cs) = textValue s ++ cs := by
  obtain ⟨q, t, ht, rfl | rfl⟩ := exists_textValue_eq_cons s
  all_goals
    rw [ht]
    exact skipSpace_cons (by decide) (by decide) (by decide) (by decide)

theorem readNested_textValue (hd : rest.head? ≠ some '"') (hs : rest.head? ≠ some '\'') :
    readNested depth (textValue s ++ rest) = some (.text s, rest) := by
  have hread := readQuoted_quote (holds_valueStyle s.toList) hd hs
  rw [← textValue] at hread
  have hflat : readFlat (textValue s ++ rest) = some (.text s, rest) := by
    unfold readFlat
    obtain ⟨q, t, ht, rfl | rfl⟩ := exists_textValue_eq_cons s
    all_goals
      rw [ht, List.cons_append] at hread ⊢
      simp [hread]
  cases depth with
  | zero => exact hflat
  | succ depth =>
    rw [← hflat]
    obtain ⟨q, t, ht, rfl | rfl⟩ := exists_textValue_eq_cons s
    all_goals
      rw [ht]
      rfl

theorem readItems_space {item : List Char → Option (Value × List Char)} :
    readItems item bound (' ' :: cs) = readItems item bound cs := by
  have hskip : skipSpace false (' ' :: cs) = skipSpace false cs := by
    rw [skipSpace.eq_def]
    simp [isBlank]
  cases bound with
  | zero => rfl
  | succ bound => rw [readItems, hskip, readItems]

theorem skipSpace_bracket : skipSpace false (']' :: rest) = ']' :: rest :=
  skipSpace_cons (by decide) (by decide) (by decide) (by decide)

theorem readItems_last : readItems (readNested depth) (bound + 1) (textValue s ++ ']' :: rest) =
    some ([.text s], rest) := by
  have hread : readNested depth (textValue s ++ ']' :: rest) = some (.text s, ']' :: rest) :=
    readNested_textValue (by simp) (by simp)
  rw [readItems, skipSpace_textValue]
  obtain ⟨q, t, ht, rfl | rfl⟩ := exists_textValue_eq_cons s
  all_goals
    rw [ht, List.cons_append] at hread ⊢
    simp [hread, skipSpace_bracket]

theorem readItems_comma {vs : List Value}
    (h : readItems (readNested depth) bound cs = some (vs, rest)) :
    readItems (readNested depth) (bound + 1) (textValue s ++ ',' :: cs) =
      some (.text s :: vs, rest) := by
  have hread : readNested depth (textValue s ++ ',' :: cs) = some (.text s, ',' :: cs) :=
    readNested_textValue (by simp) (by simp)
  have hskip : skipSpace false (',' :: cs) = ',' :: cs :=
    skipSpace_cons (by decide) (by decide) (by decide) (by decide)
  rw [readItems, skipSpace_textValue]
  obtain ⟨q, t, ht, rfl | rfl⟩ := exists_textValue_eq_cons s
  all_goals
    rw [ht, List.cons_append] at hread ⊢
    simp [hread, hskip, h]

theorem readItems_intercalate
    (h : ([',', ' '].intercalate (items.map textValue)).length < bound) :
    readItems (readNested depth) bound
        ([',', ' '].intercalate (items.map textValue) ++ ']' :: rest) =
      some (items.map .text, rest) := by
  induction items generalizing bound with
  | nil =>
    obtain ⟨bound, rfl⟩ := Nat.exists_eq_succ_of_ne_zero (Nat.ne_zero_of_lt h)
    simp [List.intercalate, readItems, skipSpace_bracket]
  | cons s items ih =>
    obtain ⟨bound, rfl⟩ := Nat.exists_eq_succ_of_ne_zero (Nat.ne_zero_of_lt h)
    cases items with
    | nil =>
      rw [List.map_singleton, List.intercalate_singleton]
      exact readItems_last
    | cons s' items =>
      have hcons : [',', ' '].intercalate ((s :: s' :: items).map textValue) =
          textValue s ++ ',' :: ' ' :: [',', ' '].intercalate ((s' :: items).map textValue) := by
        simp [List.intercalate]
      -- An item takes the comma and the blank after it at least, so the bound outlasts the text.
      rw [hcons] at h ⊢
      rw [List.append_assoc]
      refine readItems_comma ?_
      refine readItems_space.trans (ih ?_)
      simp only [List.length_append, List.length_cons] at h
      omega

theorem readValue_array :
    readValue ('[' :: [',', ' '].intercalate (items.map textValue) ++ ']' :: rest) =
      some (.array (items.map .text), rest) := by
  have hlength : ([',', ' '].intercalate (items.map textValue)).length <
      ([',', ' '].intercalate (items.map textValue) ++ ']' :: rest).length + 1 := by
    simp only [List.length_append]
    omega
  exact congrArg (Option.map _) (readItems_intercalate hlength)

end ModuleGraph.Toml
