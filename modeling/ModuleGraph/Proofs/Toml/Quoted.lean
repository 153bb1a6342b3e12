import Mathlib.Data.List.TakeWhile
import ModuleGraph.Toml.Quoted
import ModuleGraph.Toml.Quoted.Reader

/-! # Quoted text read back

A text in quotes is read back as it was, whatever it holds, if the kind of its quotes can hold it.
Escapes are read one at a time. In the multi-line kinds a run of quotes is what needs care: the
reader looks up to five quotes ahead, and the body shows at most two of them in a row before any
other character.
-/

namespace ModuleGraph.Toml

variable {c e q : Char} {cs rest : List Char} {run : Nat} {style : QuoteStyle}

/-- Whether quotes of some kind can hold a text. The kinds with escapes can hold any. -/
def QuoteStyle.Holds : QuoteStyle → List Char → Prop
  | literal, cs => cs ≠ [] ∧ ∀ c ∈ cs, isPlain c = true ∧ c ≠ '\''
  | multilineLiteral, cs =>
    (∀ c ∈ cs, c = '\n' ∨ isPlain c = true) ∧ hasTriple '\'' cs = false
  | _, _ => True

theorem hexValue?_hexDigit : ∀ n < 16, hexValue? (hexDigit n) = some n := by decide

theorem codePoint?_hexDigits (h : isControl c = true) :
    codePoint? ['0', '0', hexDigit (c.toNat / 16), hexDigit (c.toNat % 16)] = some c := by
  have hc : c.toNat < 256 := by
    simp only [isControl, Bool.or_eq_true, decide_eq_true_eq, beq_iff_eq] at h
    omega
  have hz : hexValue? '0' = some 0 := by decide
  have hn : (c.toNat / 16) * 16 + c.toNat % 16 = c.toNat := by omega
  have hv : c.toNat.isValidChar := c.valid
  simp [codePoint?, hexNumber?, hz, hexValue?_hexDigit (c.toNat / 16) (by omega),
    hexValue?_hexDigit (c.toNat % 16) (by omega), hn, hv]

/-- The three shapes of a character in quotes with escapes. -/
theorem escape_cases (c : Char) :
    (∃ e, escape c = ['\\', e] ∧ shortEscape? e = some c) ∨
    (∃ h₁ h₂, escape c = ['\\', 'u', '0', '0', h₁, h₂] ∧
      codePoint? ['0', '0', h₁, h₂] = some c) ∨
    (escape c = [c] ∧ c ≠ '\\' ∧ c ≠ '\n' ∧ c ≠ '\r' ∧ isPlain c = true) := by
  generalize he : escape c = t
  unfold escape at he
  split at he
  · next h => exact .inl ⟨_, he.symm, by rw [h]; rfl⟩
  split at he
  · next h => exact .inl ⟨_, he.symm, by rw [h]; rfl⟩
  split at he
  · next h => exact .inl ⟨_, he.symm, by rw [h]; rfl⟩
  split at he
  · next h => exact .inl ⟨_, he.symm, by rw [h]; rfl⟩
  split at he
  · next h => exact .inl ⟨_, he.symm, by rw [h]; rfl⟩
  split at he
  · next h => exact .inl ⟨_, he.symm, by rw [h]; rfl⟩
  split at he
  · next h => exact .inr (.inl ⟨_, _, he.symm, codePoint?_hexDigits h⟩)
  · next hb _ _ hn _ hr h => exact .inr (.inr ⟨he.symm, hb, hn, hr, by simp [isPlain, h]⟩)

theorem exists_escape_eq_cons (h : c ≠ '"') :
    ∃ x t, escape c = x :: t ∧ x ≠ '"' ∧ x ≠ '\n' ∧ x ≠ '\r' := by
  rcases escape_cases c with ⟨e, he, -⟩ | ⟨_, _, he, -⟩ | ⟨he, -, hn, hr, -⟩
  · exact ⟨_, _, he, by decide⟩
  · exact ⟨_, _, he, by decide⟩
  · exact ⟨_, _, he, h, hn, hr⟩

/-- What the readers of strings with escapes have in common. -/
structure ReadsEscapes (read : List Char → Reading) : Prop where
  short : ∀ e c rest, shortEscape? e = some c → read ('\\' :: e :: rest) = (read rest).cons c
  code : ∀ h₁ h₂ h₃ h₄ c rest, codePoint? [h₁, h₂, h₃, h₄] = some c →
    read ('\\' :: 'u' :: h₁ :: h₂ :: h₃ :: h₄ :: rest) = (read rest).cons c
  plain : ∀ c rest, c ≠ '"' → c ≠ '\\' → c ≠ '\n' → c ≠ '\r' → isPlain c = true →
    read (c :: rest) = (read rest).cons c

theorem ReadsEscapes.escape {read : List Char → Reading} (h : ReadsEscapes read) (hc : c ≠ '"') :
    read (escape c ++ rest) = (read rest).cons c := by
  rcases escape_cases c with ⟨e, he, hs⟩ | ⟨_, _, he, hs⟩ | ⟨he, hb, hn, hr, hp⟩
  · rw [he]
    exact h.short _ _ _ hs
  · rw [he]
    exact h.code _ _ _ _ _ _ hs
  · rw [he]
    exact h.plain _ _ hc hb hn hr hp

/-! ### Quotes on one line -/

theorem readsEscapes_readBasic : ReadsEscapes readBasic where
  short e c rest h := by
    rw [readBasic.eq_def]
    simp [h]
  code _ _ _ _ c rest h := by
    have hu : shortEscape? 'u' = none := by decide
    rw [readBasic.eq_def]
    simp [hu, h]
  plain c rest hq hb _ _ h := by
    rw [readBasic.eq_def]
    simp [hq, hb, h]

theorem readBasic_basicBody (cs rest : List Char) :
    readBasic (basicBody cs ++ '"' :: rest) = some (cs, rest) := by
  induction cs with
  | nil =>
    rw [readBasic.eq_def]
    rfl
  | cons c cs ih =>
    rw [basicBody, List.flatMap_cons, List.append_assoc, ← basicBody]
    by_cases h : c = '"'
    · subst h
      rw [if_pos rfl]
      exact (readsEscapes_readBasic.short _ _ _ rfl).trans (congrArg (Reading.cons _) ih)
    · rw [if_neg h, readsEscapes_readBasic.escape h, ih]
      rfl

theorem readLiteral_append (h : ∀ c ∈ cs, isPlain c = true ∧ c ≠ '\'') :
    readLiteral (cs ++ '\'' :: rest) = some (cs, rest) := by
  induction cs with
  | nil => simp [readLiteral]
  | cons c cs ih =>
    obtain ⟨⟨hp, hq⟩, h⟩ := List.forall_mem_cons.1 h
    simp [readLiteral, hp, hq, ih h, Reading.cons]

/-! ### Runs of quotes -/

theorem takeWhile_beq_eq_nil (h : cs.head? ≠ some q) : cs.takeWhile (· == q) = [] := by
  cases cs with
  | nil => rfl
  | cons c cs => simpa [List.takeWhile_cons] using h

theorem all_beq_iff : cs.all (· == q) = true ↔ ∀ c ∈ cs, c = q := by
  simp only [List.all_eq_true, beq_iff_eq]

theorem length_takeWhile_beq_eq_iff :
    (cs.takeWhile (· == q)).length = cs.length ↔ ∀ c ∈ cs, c = q := by
  have hself : cs.takeWhile (· == q) = cs ↔ ∀ c ∈ cs, c = q := by
    simp [List.takeWhile_eq_self_iff]
  rw [← hself]
  exact ⟨(List.takeWhile_prefix _).eq_of_length, congrArg List.length⟩

/-- Where at most two quotes stand in a row, the string ends here only if the rest of its body is
nothing but quotes. -/
theorem closing?_append (cs : List Char) (hl : (cs.takeWhile (· == q)).length ≤ 2)
    (hr : rest.head? ≠ some q) :
    closing? q (cs ++ q :: q :: q :: rest) =
      if cs.all (· == q) then some (cs, rest) else none := by
  simp only [closing?, List.takeWhile_append, length_takeWhile_beq_eq_iff]
  by_cases h : ∀ c ∈ cs, c = q
  · rw [length_takeWhile_beq_eq_iff.2 h] at hl
    have hq : (q :: q :: q :: rest).takeWhile (· == q) = [q, q, q] := by
      simp [takeWhile_beq_eq_nil hr]
    have hrun : min 5 (cs ++ [q, q, q]).length = cs.length + 3 := by
      rw [List.length_append, List.length_cons, List.length_cons, List.length_cons,
        List.length_nil]
      omega
    have hcs : List.replicate cs.length q = cs := (List.eq_replicate_of_mem h).symm
    rw [if_pos h, if_pos (all_beq_iff.2 h), hq, hrun, if_pos (Nat.le_add_left 3 _), Nat.add_sub_cancel, hcs,
      ← List.drop_drop, List.drop_left]
    rfl
  · rw [if_neg h, if_neg (mt all_beq_iff.1 h), if_neg]
    omega

theorem not_hasTriple_of_cons (h : hasTriple q (c :: cs) = false) : hasTriple q cs = false := by
  match cs with
  | [] => rfl
  | [_] => rfl
  | a :: b :: cs =>
    rw [hasTriple, Bool.or_eq_false_iff] at h
    exact h.2

theorem length_takeWhile_of_not_hasTriple (h : hasTriple q cs = false) :
    (cs.takeWhile (· == q)).length ≤ 2 := by
  match cs with
  | [] => exact Nat.zero_le 2
  | [a] => exact (List.takeWhile_prefix _).length_le.trans (Nat.le_add_left 1 1)
  | [a, b] => exact (List.takeWhile_prefix _).length_le
  | a :: b :: c :: cs =>
    rw [hasTriple, Bool.or_eq_false_iff] at h
    simp only [List.takeWhile_cons, beq_iff_eq]
    grind

/-! ### Quotes over several lines -/

theorem readMultilineLiteral_quote : readMultilineLiteral ('\'' :: rest) =
    (closing? '\'' ('\'' :: rest)).or ((readMultilineLiteral rest).cons '\'') := by
  rw [readMultilineLiteral.eq_def]
  cases h : closing? '\'' ('\'' :: rest) <;> simp [h]

theorem readMultilineLiteral_append (hp : ∀ c ∈ cs, c = '\n' ∨ isPlain c = true)
    (ht : hasTriple '\'' cs = false) (hr : rest.head? ≠ some '\'') :
    readMultilineLiteral (cs ++ '\'' :: '\'' :: '\'' :: rest) = some (cs, rest) := by
  induction cs with
  | nil =>
    have hc : closing? '\'' ('\'' :: '\'' :: '\'' :: rest) = some ([], rest) :=
      (closing?_append [] (Nat.zero_le 2) hr).trans (if_pos (by simp))
    rw [List.nil_append, readMultilineLiteral.eq_def]
    simp [hc]
  | cons c cs ih =>
    obtain ⟨hc, hp⟩ := List.forall_mem_cons.1 hp
    have ih := ih hp (not_hasTriple_of_cons ht)
    by_cases hn : c = '\n'
    · rw [List.cons_append, readMultilineLiteral.eq_def]
      simp [hn, ih, Reading.cons]
    have hpc : isPlain c = true := hc.resolve_left hn
    have hcr : c ≠ '\r' := fun h => absurd (h ▸ hpc) (by decide)
    by_cases hq : c = '\''
    · have hl := closing?_append _ (length_takeWhile_of_not_hasTriple ht) hr
      subst hq
      rw [List.cons_append] at hl
      rw [List.cons_append, readMultilineLiteral_quote, hl, ih]
      split <;> rfl
    · rw [List.cons_append, readMultilineLiteral.eq_def]
      simp [hn, hcr, hq, hpc, ih, Reading.cons]

theorem endsLine_of_shortEscape? (h : shortEscape? e = some c) : endsLine (e :: rest) = false := by
  unfold shortEscape? at h
  split at h
  case h_8 => cases h
  all_goals rfl

theorem readsEscapes_readMultilineBasic : ReadsEscapes (readMultilineBasic false) where
  short e c rest h := by
    have hl : endsLine (e :: rest) = false := endsLine_of_shortEscape? h
    rw [readMultilineBasic.eq_def]
    simp [hl, h]
  code h₁ h₂ h₃ h₄ c rest h := by
    have hu : shortEscape? 'u' = none := by decide
    have hl : endsLine ('u' :: h₁ :: h₂ :: h₃ :: h₄ :: rest) = false := rfl
    rw [readMultilineBasic.eq_def]
    simp [hl, hu, h]
  plain c rest hq hb hn hr h := by
    rw [readMultilineBasic.eq_def]
    simp [hq, hb, hn, hr, h]

theorem readMultilineBasic_newline :
    readMultilineBasic false ('\n' :: rest) = (readMultilineBasic false rest).cons '\n' := by
  rw [readMultilineBasic.eq_def]
  simp

theorem readMultilineBasic_quote : readMultilineBasic false ('"' :: rest) =
    (closing? '"' ('"' :: rest)).or ((readMultilineBasic false rest).cons '"') := by
  rw [readMultilineBasic.eq_def]
  cases h : closing? '"' ('"' :: rest) <;> simp [h]

theorem length_takeWhile_multilineBody (cs : List Char) (h : run ≤ 2) :
    ((multilineBody run cs).takeWhile (· == '"')).length + run ≤ 2 := by
  induction cs generalizing run with
  | nil => simpa [multilineBody] using h
  | cons c cs ih =>
    unfold multilineBody
    split
    · split
      · next hr => simp [hr]
      · next hr =>
        have hrun : _ ≤ 2 := ih (show run + 1 ≤ 2 by omega)
        simp only [List.takeWhile_cons, beq_self_eq_true, if_pos, List.length_cons]
        omega
    · split
      · simpa using h
      · next hc _ =>
        obtain ⟨x, t, he, hx, -⟩ := exists_escape_eq_cons hc
        simpa [he, List.takeWhile_cons, hx] using h

theorem multilineBody_eq_self (h : ∀ c ∈ multilineBody run cs, c = '"') :
    multilineBody run cs = cs := by
  induction cs generalizing run with
  | nil => rfl
  | cons c cs ih =>
    unfold multilineBody at h ⊢
    split at h
    · next hc =>
      split at h
      · exact absurd (h '\\' List.mem_cons_self) (by decide)
      · next hr =>
        rw [if_pos hc, if_neg hr, ih (List.forall_mem_cons.1 h).2, hc]
    · next hc =>
      split at h
      · exact absurd (h '\n' List.mem_cons_self) (by decide)
      · obtain ⟨x, t, he, hx, -⟩ := exists_escape_eq_cons hc
        exact (hx (h x (by simp [he]))).elim

theorem readMultilineBasic_multilineBody (hr : rest.head? ≠ some '"') (h : run ≤ 2) :
    readMultilineBasic false (multilineBody run cs ++ '"' :: '"' :: '"' :: rest) =
      some (cs, rest) := by
  induction cs generalizing run with
  | nil =>
    have hc : closing? '"' ('"' :: '"' :: '"' :: rest) = some ([], rest) :=
      (closing?_append [] (Nat.zero_le 2) hr).trans (if_pos (by simp))
    rw [multilineBody, List.nil_append, readMultilineBasic.eq_def]
    simp [hc]
  | cons c cs ih =>
    by_cases hq : c = '"'
    · subst hq
      by_cases h2 : run = 2
      · rw [multilineBody, if_pos rfl, if_pos h2]
        exact (readsEscapes_readMultilineBasic.short _ _ _ rfl).trans
          (congrArg (Reading.cons _) (ih (Nat.zero_le 2)))
      · have hb : multilineBody run ('"' :: cs) = '"' :: multilineBody (run + 1) cs := by
          rw [multilineBody, if_pos rfl, if_neg h2]
        have hlen := length_takeWhile_multilineBody ('"' :: cs) h
        have hl := closing?_append _ (Nat.le_trans (Nat.le_add_right _ run) hlen) hr
        have hself := @multilineBody_eq_self ('"' :: cs) run
        rw [hb, List.cons_append] at hl
        rw [hb] at hself
        rw [hb, List.cons_append, readMultilineBasic_quote, hl, ih (by omega)]
        -- With only quotes left, the closing ones are found here and the rest is given back as it
        -- stands; otherwise the reader takes this quote and goes on.
        split
        · next hall => rw [hself (all_beq_iff.1 hall), Option.some_or]
        · rfl
    · rw [multilineBody, if_neg hq]
      split
      · next hn =>
        rw [List.cons_append, readMultilineBasic_newline, ih (Nat.zero_le 2), hn]
        rfl
      · rw [List.append_assoc, readsEscapes_readMultilineBasic.escape hq, ih (Nat.zero_le 2)]
        rfl

/-! ### All kinds of quotes -/

theorem dropOpening_of_head? (hn : cs.head? ≠ some '\n') (hr : cs.head? ≠ some '\r') :
    dropOpening cs = cs := by
  unfold dropOpening dropNewline?
  split
  · exact absurd rfl hn
  · exact absurd rfl hr
  · rfl

/-- The opening of a multi-line string hides the first line end of a text from the reader. -/
theorem dropOpening_opening {body : List Char}
    (h : '\n' ∉ cs → body.head? ≠ some '\n' ∧ body.head? ≠ some '\r') :
    dropOpening ((if cs.contains '\n' then ['\n'] else []) ++ body) = body := by
  by_cases hn : '\n' ∈ cs
  · rw [if_pos (by simpa using hn)]
    rfl
  · rw [if_neg (by simpa using hn), List.nil_append]
    exact dropOpening_of_head? (h hn).1 (h hn).2

theorem head?_multilineBody (h : '\n' ∉ cs) :
    (multilineBody run cs ++ '"' :: rest).head? ≠ some '\n' ∧
      (multilineBody run cs ++ '"' :: rest).head? ≠ some '\r' := by
  cases cs with
  | nil => simp [multilineBody]
  | cons c cs =>
    have hc : c ≠ '\n' := fun hc => h (hc ▸ List.mem_cons_self)
    by_cases hq : c = '"'
    · rw [multilineBody, if_pos hq]
      split <;> simp
    · obtain ⟨x, t, he, -, hx⟩ := exists_escape_eq_cons hq
      rw [multilineBody, if_neg hq, if_neg hc, he]
      simpa using hx

theorem head?_basicBody (cs : List Char) : (basicBody cs).head? ≠ some '"' := by
  cases cs with
  | nil => decide
  | cons c cs =>
    rw [basicBody, List.flatMap_cons]
    split
    · simp
    · next hq =>
      obtain ⟨x, t, he, hx, -⟩ := exists_escape_eq_cons hq
      simpa [he] using hx

theorem readQuoted_basic (hr : rest.head? ≠ some '"') :
    readQuoted ('"' :: basicBody cs ++ '"' :: rest) = some (cs, rest) := by
  have hread := readBasic_basicBody cs rest
  rw [← hread]
  cases hb : basicBody cs with
  | nil =>
    unfold readQuoted
    split <;> simp_all
  | cons b bs =>
    have hq : b ≠ '"' := by simpa [hb] using head?_basicBody cs
    unfold readQuoted
    split <;> simp_all

theorem readQuoted_literal (h : QuoteStyle.literal.Holds cs) :
    readQuoted ('\'' :: cs ++ '\'' :: rest) = some (cs, rest) := by
  obtain ⟨hne, hp⟩ := h
  have hread : readLiteral (cs ++ '\'' :: rest) = some (cs, rest) := readLiteral_append hp
  obtain ⟨c, cs, rfl⟩ := List.exists_cons_of_ne_nil hne
  have hc : c ≠ '\'' := (hp c List.mem_cons_self).2
  rw [← hread]
  unfold readQuoted
  split <;> simp_all

/-- A text is read back from any quotes that can hold it, whatever follows them but a quote. -/
theorem readQuoted_quote (h : style.Holds cs) (hd : rest.head? ≠ some '"')
    (hs : rest.head? ≠ some '\'') : readQuoted (quote style cs ++ rest) = some (cs, rest) := by
  cases style with
  | basic => simpa [quote] using readQuoted_basic hd
  | literal =>
    rw [← readQuoted_literal h]
    simp [quote]
  | multilineBasic =>
    have hopen : dropOpening ((if cs.contains '\n' then ['\n'] else []) ++
        (multilineBody 0 cs ++ '"' :: '"' :: '"' :: rest)) = _ :=
      dropOpening_opening head?_multilineBody
    have hread : readMultilineBasic false (multilineBody 0 cs ++ '"' :: '"' :: '"' :: rest) =
        some (cs, rest) := readMultilineBasic_multilineBody hd (Nat.zero_le 2)
    rw [← hread, ← hopen]
    simp [quote, readQuoted]
  | multilineLiteral =>
    obtain ⟨hp, ht⟩ := h
    have hopen : dropOpening ((if cs.contains '\n' then ['\n'] else []) ++
        (cs ++ '\'' :: '\'' :: '\'' :: rest)) = cs ++ '\'' :: '\'' :: '\'' :: rest := by
      refine dropOpening_opening fun hn => ?_
      cases cs with
      | nil => simp
      | cons c cs =>
        have hc : isPlain c = true :=
          (hp c List.mem_cons_self).resolve_left fun h => hn (h ▸ List.mem_cons_self)
        constructor
        · rintro ⟨⟩
          exact hn List.mem_cons_self
        · rintro ⟨⟩
          exact absurd hc (by decide)
    have hread := readMultilineLiteral_append hp ht hs
    rw [← hread, ← hopen]
    simp [quote, readQuoted]

theorem needsEscape_eq_false_iff :
    needsEscape cs = false ↔ ∀ c ∈ cs, c = '\n' ∨ isPlain c = true := by
  simp only [needsEscape, List.any_eq_false, Bool.and_eq_true, bne_iff_ne, ne_eq,
    Bool.not_eq_true', not_and, Bool.not_eq_false]
  exact forall₂_congr fun c _ => (or_iff_not_imp_left (a := c = '\n')).symm

theorem holds_valueStyle (cs : List Char) : (valueStyle cs).Holds cs := by
  unfold valueStyle
  split
  · trivial
  next hbasic =>
  split
  · next h =>
    simp only [Bool.and_eq_true, Bool.not_eq_true', needsEscape_eq_false_iff,
      List.contains_eq_mem, decide_eq_false_iff_not] at h
    obtain ⟨⟨hp, hq⟩, hn⟩ := h
    refine ⟨?_, fun c hc => ⟨?_, ?_⟩⟩
    · rintro rfl
      exact hbasic rfl
    · exact (hp c hc).resolve_left fun hcn => hn (hcn ▸ hc)
    · rintro rfl
      exact hq hc
  split
  · trivial
  split
  · next h =>
    rw [Bool.and_eq_true, Bool.not_eq_true', Bool.not_eq_true', needsEscape_eq_false_iff] at h
    exact h
  split <;> trivial

theorem holds_keyStyle (cs : List Char) : (keyStyle cs).Holds cs := by
  unfold keyStyle
  split
  · next h =>
    simp only [Bool.and_eq_true, Bool.not_eq_true', List.all_eq_true,
      List.contains_eq_mem, decide_eq_false_iff_not] at h
    obtain ⟨⟨hp, hq⟩, hsome⟩ := h
    refine ⟨?_, fun c hc => ⟨hp c hc, ?_⟩⟩
    · rintro rfl
      exact absurd hsome (by decide)
    · rintro rfl
      exact hq hc
  · trivial

end ModuleGraph.Toml
