import Mathlib.Data.List.TakeWhile
import ModuleGraph.CommandLine.Json
import ModuleGraph.Toml.Quoted.Reader

/-! # JSON read back

A reader for JSON, as far as it is of strings, natural numbers and `null`, in lists and objects. A
value is read back from its text as it was, so what the program prints tells the value and not only
how it looks.
-/

namespace ModuleGraph.CommandLine.Json

open Toml (Reading codePoint?)

/-- White space may stand before and behind every value and every mark. -/
def skipSpace (cs : List Char) : List Char := cs.dropWhile (· ∈ [' ', '\t', '\n', '\r'])

def shortEscape? (c : Char) : Option Char := if c = '/' then some '/' else Toml.shortEscape? c

/-- The rest of a string, after its opening quote. -/
def readString : List Char → Reading
  | [] => none
  | '"' :: cs => some ([], cs)
  | '\\' :: 'u' :: a :: b :: c :: d :: cs => do (readString cs).cons (← codePoint? [a, b, c, d])
  | '\\' :: e :: cs => do (readString cs).cons (← shortEscape? e)
  | c :: cs => if c.toNat < 0x20 then none else (readString cs).cons c

/-- A number, which starts with no zero but its only digit. -/
def readNumber (cs : List Char) : Option (Json × List Char) :=
  match cs.takeWhile Char.isDigit with
  | [] | '0' :: _ :: _ => none
  | ds => some (number (Nat.ofDigitChars 10 ds 0), cs.dropWhile Char.isDigit)

mutual

/-- A value and what follows it. Each value inside another takes from the fuel. -/
def readValue : Nat → List Char → Option (Json × List Char)
  | 0, _ => none
  | fuel + 1, cs =>
    match skipSpace cs with
    | '"' :: cs => (readString cs).map fun (s, cs) => (string (.ofList s), cs)
    | '[' :: cs =>
      match skipSpace cs with
      | ']' :: cs => some (list [], cs)
      | cs => (readItems fuel cs).map fun (vs, cs) => (list vs, cs)
    | '\x7b' :: cs =>
      match skipSpace cs with
      | '\x7d' :: cs => some (object [], cs)
      | cs => (readFields fuel cs).map fun (fs, cs) => (object fs, cs)
    | 'n' :: 'u' :: 'l' :: 'l' :: cs => some (null, cs)
    | cs => readNumber cs

def readItems : Nat → List Char → Option (List Json × List Char)
  | 0, _ => none
  | fuel + 1, cs => do
    let (v, cs) ← readValue fuel cs
    match skipSpace cs with
    | ',' :: cs => (readItems fuel cs).map fun (vs, cs) => (v :: vs, cs)
    | ']' :: cs => return ([v], cs)
    | _ => none

def readFields : Nat → List Char → Option (List (String × Json) × List Char)
  | 0, _ => none
  | fuel + 1, cs =>
    match skipSpace cs with
    | '"' :: cs => do
      let (k, cs) ← readString cs
      match skipSpace cs with
      | ':' :: cs =>
        let (v, cs) ← readValue fuel cs
        match skipSpace cs with
        | ',' :: cs => (readFields fuel cs).map fun (fs, cs) => ((.ofList k, v) :: fs, cs)
        | '\x7d' :: cs => return ([(.ofList k, v)], cs)
        | _ => none
      | _ => none
    | _ => none

end

/-- The value of a JSON text. No value inside it is longer than the text. -/
def read? (t : String) : Option Json :=
  match readValue (t.length + 1) t.toList with
  | some (v, cs) => if skipSpace cs = [] then some v else none
  | none => none

variable {c : Char} {cs rest : List Char} {v : Json} {level fuel : Nat}

/-! ### Strings -/

theorem codePoint?_hexDigits : ∀ n < 0x20,
    codePoint? ['0', '0', hexDigit (n / 16), hexDigit (n % 16)] = some (.ofNat n) := by
  decide

theorem readString_short {e : Char} (h : shortEscape? e = some c) :
    readString ('\\' :: e :: cs) = (readString cs).cons c := by
  have hu : e ≠ 'u' := by
    rintro rfl
    cases h
  rw [readString, h]
  · rfl
  · exact fun _ _ _ _ _ he => absurd he hu

theorem readString_escape (c : Char) (cs : List Char) :
    readString (escape c ++ cs) = (readString cs).cons c := by
  unfold escape
  split_ifs with hq hb h8 h9 h10 h12 h13 hc
  · rw [hq]
    exact readString_short rfl
  · rw [hb]
    exact readString_short rfl
  · rw [h8]
    exact readString_short rfl
  · rw [h9]
    exact readString_short rfl
  · rw [h10]
    exact readString_short rfl
  · rw [h12]
    exact readString_short rfl
  · rw [h13]
    exact readString_short rfl
  · have hd := codePoint?_hexDigits c.toNat hc
    rw [Char.ofNat_toNat] at hd
    simp only [List.cons_append, List.nil_append]
    rw [readString, hd]
    rfl
  · rw [List.singleton_append, readString]
    · rw [if_neg hc]
    · exact hq
    · rintro _ _ _ _ _ rfl
      exact absurd rfl hb
    · rintro _ _ rfl
      exact absurd rfl hb

theorem readString_quoted (s : List Char) (cs : List Char) :
    readString (s.flatMap escape ++ '"' :: cs) = some (s, cs) := by
  induction s with
  | nil => rw [List.flatMap_nil, List.nil_append, readString]
  | cons c s ih =>
    rw [List.flatMap_cons, List.append_assoc, readString_escape, ih]
    rfl

theorem toList_quoted (s : String) :
    (quoted s).toList = '"' :: (s.toList.flatMap escape ++ ['"']) := by
  simp [quoted]

theorem toList_field (k : String) (t : String) : (quoted k ++ ": " ++ t).toList =
    '"' :: (k.toList.flatMap escape ++ '"' :: ':' :: ' ' :: t.toList) := by
  simp [toList_quoted]

/-! ### Values -/

/-- No digit stands at the front, so a number before it ends there. -/
def EndsNumber (cs : List Char) : Prop := ∀ c ∈ cs.head?, c.isDigit = false

theorem toDigits_ne_zero_cons (n : Nat) {d : Char} {ds : List Char} :
    Nat.toDigits 10 n ≠ '0' :: d :: ds := by
  induction n using Nat.strong_induction_on generalizing d ds with
  | _ n ih =>
    intro h
    rcases Nat.lt_or_ge n 10 with hn | hn
    · rw [Nat.toDigits_of_lt_base hn] at h
      simp at h
    rw [Nat.toDigits_of_base_le (by decide) hn] at h
    cases hd : Nat.toDigits 10 (n / 10) with
    | nil => exact Nat.toDigits_ne_nil hd
    | cons c cs =>
      rw [hd, List.cons_append] at h
      obtain rfl := List.head_eq_of_cons_eq h
      cases cs with
      | nil =>
        have hz : 0 = n / 10 := by
          rw [← Nat.ofDigitChars_ten_toDigits (n := n / 10), hd]
          rfl
        omega
      | cons c cs => exact ih _ (Nat.div_lt_self (by omega) (by decide)) hd

theorem readNumber_text (n : Nat) (h : EndsNumber rest) :
    readNumber (n.repr.toList ++ rest) = some (number n, rest) := by
  have hd : ∀ c ∈ Nat.toDigits 10 n, c.isDigit = true :=
    fun c hc => Nat.isDigit_of_mem_toDigits (by decide) (by decide) hc
  have ht : rest.takeWhile Char.isDigit = [] ∧ rest.dropWhile Char.isDigit = rest := by
    cases rest with
    | nil => exact ⟨rfl, rfl⟩
    | cons c rest => simp [h c rfl]
  rw [readNumber, Nat.toList_repr, List.takeWhile_append_of_pos hd,
    List.dropWhile_append_of_pos hd, ht.1, ht.2, List.append_nil]
  split
  · next he => exact absurd he Nat.toDigits_ne_nil
  · next he => exact absurd he (toDigits_ne_zero_cons n)
  · rw [Nat.ofDigitChars_ten_toDigits]

@[simp] theorem skipSpace_cons (h : c ∉ [' ', '\t', '\n', '\r']) :
    skipSpace (c :: cs) = c :: cs := by
  rw [skipSpace, List.dropWhile_cons_of_neg]
  simpa using h

theorem skipSpace_skipSpace (cs : List Char) : skipSpace (skipSpace cs) = skipSpace cs :=
  List.dropWhile_eq_self_iff.mpr (List.dropWhile_get_zero_not _ cs)

theorem toList_indent (level : Nat) :
    (indent level).toList = '\n' :: List.replicate (2 * level) ' ' := by
  simp [indent]

@[simp] theorem skipSpace_indent (level : Nat) (cs : List Char) :
    skipSpace ((indent level).toList ++ cs) = skipSpace cs := by
  rw [skipSpace, List.dropWhile_append_of_pos]
  · rfl
  · intro c hc
    rw [toList_indent, List.mem_cons, List.mem_replicate] at hc
    rcases hc with rfl | ⟨-, rfl⟩
    · decide
    · decide

theorem readValue_skipSpace (fuel : Nat) (cs : List Char) :
    readValue fuel (skipSpace cs) = readValue fuel cs := by
  cases fuel with
  | zero => rfl
  | succ fuel => rw [readValue, readValue, skipSpace_skipSpace]

theorem readValue_indent (fuel level : Nat) (cs : List Char) :
    readValue fuel ((indent level).toList ++ cs) = readValue fuel cs := by
  rw [← readValue_skipSpace, skipSpace_indent, readValue_skipSpace]

theorem readValue_blank (fuel : Nat) (cs : List Char) :
    readValue fuel (' ' :: cs) = readValue fuel cs := by
  have hs : skipSpace (' ' :: cs) = skipSpace cs := rfl
  rw [← readValue_skipSpace, hs, readValue_skipSpace]

theorem readItems_skipSpace (fuel : Nat) (cs : List Char) :
    readItems fuel (skipSpace cs) = readItems fuel cs := by
  cases fuel with
  | zero => rfl
  | succ fuel => rw [readItems, readItems, readValue_skipSpace]

theorem readFields_skipSpace (fuel : Nat) (cs : List Char) :
    readFields fuel (skipSpace cs) = readFields fuel cs := by
  cases fuel with
  | zero => rfl
  | succ fuel => rw [readFields, readFields, skipSpace_skipSpace]

/-- Texts with commas between them, each on a line of its own. -/
def lines (level : Nat) (items : List String) : List Char :=
  (indent level).toList ++ (("," ++ indent level).intercalate items).toList

theorem lines_singleton (a : String) : lines level [a] = (indent level).toList ++ a.toList := by
  rw [lines, String.intercalate_singleton]

theorem lines_cons_cons (a b : String) (items : List String) :
    lines level (a :: b :: items) =
      (indent level).toList ++ (a.toList ++ ',' :: lines level (b :: items)) := by
  rw [lines, lines, String.intercalate_cons_cons]
  simp

theorem head?_skipSpace_lines (a : String) (items : List String)
    (h : a.toList = c :: cs) (hc : c ∉ [' ', '\t', '\n', '\r']) :
    (skipSpace (lines level (a :: items) ++ rest)).head? = some c := by
  cases items with
  | nil => simp [lines_singleton, h, hc]
  | cons b items => simp [lines_cons_cons, h, hc]

theorem toList_enclose (opening closing a : String) (items : List String) :
    (enclose opening closing level (a :: items)).toList =
      opening.toList ++ (lines (level + 1) (a :: items) ++
        ((indent level).toList ++ closing.toList)) := by
  simp [enclose, lines]

@[simp] theorem toList_text_null : (null.text level).toList = ['n', 'u', 'l', 'l'] := by
  rw [text]
  rfl

@[simp] theorem toList_text_list_nil : ((list []).text level).toList = ['[', ']'] := by
  rw [text, itemTexts, enclose]
  simp

@[simp] theorem toList_text_object_nil :
    ((object []).text level).toList = ['\x7b', '\x7d'] := by
  rw [text, fieldTexts, enclose]
  simp

theorem toList_text_list (v : Json) (vs : List Json) : ((list (v :: vs)).text level).toList =
    '[' :: (lines (level + 1) (itemTexts (level + 1) (v :: vs)) ++
      ((indent level).toList ++ [']'])) := by
  rw [text, itemTexts, toList_enclose]
  rfl

theorem toList_text_object (f : String × Json) (fs : List (String × Json)) :
    ((object (f :: fs)).text level).toList =
      '\x7b' :: (lines (level + 1) (fieldTexts (level + 1) (f :: fs)) ++
        ((indent level).toList ++ ['\x7d'])) := by
  rw [text, fieldTexts, toList_enclose]
  rfl

theorem exists_repr_eq_cons (n : Nat) :
    ∃ c cs, n.repr.toList = c :: cs ∧ ∀ x : Char, x.isDigit = false → c ≠ x := by
  obtain ⟨c, cs, he⟩ := List.exists_cons_of_ne_nil (Nat.toDigits_ne_nil (n := n) (b := 10))
  have hd : c.isDigit = true :=
    Nat.isDigit_of_mem_toDigits (by decide) (by decide) (he ▸ List.mem_cons_self)
  refine ⟨c, cs, Nat.toList_repr.trans he, ?_⟩
  rintro x hx rfl
  rw [hx] at hd
  cases hd

/-- A value starts with neither white space nor a closing mark. -/
theorem exists_text_eq_cons (v : Json) (level : Nat) :
    ∃ c cs, (v.text level).toList = c :: cs ∧
      c ∉ [' ', '\t', '\n', '\r', ']', '\x7d'] := by
  cases v with
  | null => exact ⟨'n', _, toList_text_null, by decide⟩
  | number n =>
    obtain ⟨c, cs, he, hne⟩ := exists_repr_eq_cons n
    refine ⟨c, cs, he, ?_⟩
    simp [hne ' ' rfl, hne '\t' rfl, hne '\n' rfl, hne '\r' rfl, hne ']' rfl, hne '\x7d' rfl]
  | string s => exact ⟨'"', _, toList_quoted s, by decide⟩
  | list items =>
    cases items with
    | nil => exact ⟨'[', _, toList_text_list_nil, by decide⟩
    | cons v vs => exact ⟨'[', _, toList_text_list v vs, by decide⟩
  | object fields =>
    cases fields with
    | nil => exact ⟨'\x7b', _, toList_text_object_nil, by decide⟩
    | cons f fs => exact ⟨'\x7b', _, toList_text_object f fs, by decide⟩

theorem endsNumber_indent (level : Nat) (cs : List Char) :
    EndsNumber ((indent level).toList ++ cs) := by
  rw [toList_indent]
  simp [EndsNumber]

theorem length_indent_pos (level : Nat) : 0 < (indent level).toList.length := by
  rw [toList_indent]
  exact Nat.succ_pos _

theorem readValue_quote (fuel : Nat) (cs : List Char) : readValue (fuel + 1) ('"' :: cs) =
    (readString cs).map fun (s, cs) => (string (.ofList s), cs) := by
  rw [readValue]
  rfl

theorem readValue_number (n : Nat) (h : EndsNumber rest) :
    readValue (fuel + 1) (n.repr.toList ++ rest) = some (number n, rest) := by
  obtain ⟨c, cs, he, hne⟩ := exists_repr_eq_cons n
  have hr := readNumber_text n h
  have hs : skipSpace (c :: (cs ++ rest)) = c :: (cs ++ rest) := skipSpace_cons (by
    simp [hne ' ' rfl, hne '\t' rfl, hne '\n' rfl, hne '\r' rfl])
  rw [he, List.cons_append] at hr ⊢
  rw [readValue, hs]
  split
  · next heq => exact absurd (List.head_eq_of_cons_eq heq) (hne '"' rfl)
  · next heq => exact absurd (List.head_eq_of_cons_eq heq) (hne '[' rfl)
  · next heq => exact absurd (List.head_eq_of_cons_eq heq) (hne '\x7b' rfl)
  · next heq => exact absurd (List.head_eq_of_cons_eq heq) (hne 'n' rfl)
  · exact hr

theorem readValue_list (h : (skipSpace cs).head? ≠ some ']') :
    readValue (fuel + 1) ('[' :: cs) =
      (readItems fuel cs).map fun (vs, cs) => (list vs, cs) := by
  have hv : readValue (fuel + 1) ('[' :: cs) = match skipSpace cs with
      | ']' :: cs => some (list [], cs)
      | cs => (readItems fuel cs).map fun (vs, cs) => (list vs, cs) := by
    rw [readValue]
    rfl
  rw [hv]
  split
  · next he =>
    rw [he] at h
    exact absurd rfl h
  · rw [readItems_skipSpace]

theorem readValue_object (h : (skipSpace cs).head? ≠ some '\x7d') :
    readValue (fuel + 1) ('\x7b' :: cs) =
      (readFields fuel cs).map fun (fs, cs) => (object fs, cs) := by
  have hv : readValue (fuel + 1) ('\x7b' :: cs) = match skipSpace cs with
      | '\x7d' :: cs => some (object [], cs)
      | cs => (readFields fuel cs).map fun (fs, cs) => (object fs, cs) := by
    rw [readValue]
    rfl
  rw [hv]
  split
  · next he =>
    rw [he] at h
    exact absurd rfl h
  · rw [readFields_skipSpace]

/-- What is shorter than the fuel is read back. -/
structure ReadsBack (fuel : Nat) : Prop where
  value : ∀ (v : Json) (level : Nat) (rest : List Char), (v.text level).toList.length < fuel →
    EndsNumber rest → readValue fuel ((v.text level).toList ++ rest) = some (v, rest)
  items : ∀ (v : Json) (vs : List Json) (level outer : Nat) (rest : List Char),
    (lines level (itemTexts level (v :: vs))).length < fuel →
      readItems fuel (lines level (itemTexts level (v :: vs)) ++
        ((indent outer).toList ++ ']' :: rest)) = some (v :: vs, rest)
  fields : ∀ (f : String × Json) (fs : List (String × Json)) (level outer : Nat)
    (rest : List Char), (lines level (fieldTexts level (f :: fs))).length < fuel →
      readFields fuel (lines level (fieldTexts level (f :: fs)) ++
        ((indent outer).toList ++ '\x7d' :: rest)) = some (f :: fs, rest)

namespace ReadsBack

theorem readValue_text (h : ReadsBack fuel) (v : Json) (level : Nat) (rest : List Char)
    (hf : (v.text level).toList.length < fuel + 1) (hr : EndsNumber rest) :
    readValue (fuel + 1) ((v.text level).toList ++ rest) = some (v, rest) := by
  cases v with
  | null =>
    rw [toList_text_null, readValue]
    rfl
  | number n =>
    rw [text]
    exact readValue_number n hr
  | string s =>
    rw [text, toList_quoted, List.cons_append, List.append_assoc, List.singleton_append,
      readValue_quote, readString_quoted]
    simp
  | list items =>
    cases items with
    | nil =>
      rw [toList_text_list_nil, readValue]
      rfl
    | cons v vs =>
      obtain ⟨c, cs, he, hc⟩ := exists_text_eq_cons v (level + 1)
      have hs : c ∉ [' ', '\t', '\n', '\r'] ∧ c ≠ ']' := by
        simp_all
      rw [toList_text_list] at hf ⊢
      simp only [List.length_cons, List.length_append] at hf
      simp only [List.cons_append, List.append_assoc, List.nil_append]
      rw [readValue_list, h.items v vs _ _ _ (by omega)]
      · rfl
      · rw [itemTexts, head?_skipSpace_lines _ _ he hs.1]
        simpa using hs.2
  | object fields =>
    cases fields with
    | nil =>
      rw [toList_text_object_nil, readValue]
      rfl
    | cons f fs =>
      rw [toList_text_object] at hf ⊢
      simp only [List.length_cons, List.length_append] at hf
      simp only [List.cons_append, List.append_assoc, List.nil_append]
      rw [readValue_object, h.fields f fs _ _ _ (by omega)]
      · rfl
      · rw [fieldTexts, head?_skipSpace_lines _ _ (toList_field f.1 _) (by decide)]
        decide

theorem readItems_text (h : ReadsBack fuel) (v : Json) (vs : List Json) (level outer : Nat)
    (rest : List Char) (hf : (lines level (itemTexts level (v :: vs))).length < fuel + 1) :
    readItems (fuel + 1) (lines level (itemTexts level (v :: vs)) ++
      ((indent outer).toList ++ ']' :: rest)) = some (v :: vs, rest) := by
  have hi := length_indent_pos level
  cases vs with
  | nil =>
    rw [itemTexts, itemTexts, lines_singleton] at hf ⊢
    rw [List.length_append] at hf
    rw [List.append_assoc, readItems, readValue_indent,
      h.value v level _ (by omega) (endsNumber_indent outer _)]
    simp
  | cons w vs =>
    have hw : itemTexts level (w :: vs) = w.text level :: itemTexts level vs := by rw [itemTexts]
    rw [itemTexts, hw, lines_cons_cons, ← hw] at hf ⊢
    simp only [List.length_append, List.length_cons] at hf
    have hr := h.items w vs level outer rest (by omega)
    simp only [List.append_assoc, List.cons_append]
    rw [readItems, readValue_indent, h.value v level _ (by omega) (by simp [EndsNumber])]
    simp [hr]

theorem readFields_text (h : ReadsBack fuel) (f : String × Json) (fs : List (String × Json))
    (level outer : Nat) (rest : List Char)
    (hf : (lines level (fieldTexts level (f :: fs))).length < fuel + 1) :
    readFields (fuel + 1) (lines level (fieldTexts level (f :: fs)) ++
      ((indent outer).toList ++ '\x7d' :: rest)) = some (f :: fs, rest) := by
  obtain ⟨k, v⟩ := f
  cases fs with
  | nil =>
    rw [fieldTexts, fieldTexts, lines_singleton, toList_field] at hf ⊢
    simp only [List.length_append, List.length_cons] at hf
    have hv := h.value v level _ (by omega) (endsNumber_indent outer ('\x7d' :: rest))
    rw [← readValue_blank] at hv
    simp only [List.append_assoc, List.cons_append]
    rw [readFields, skipSpace_indent]
    simp [readString_quoted, hv]
  | cons g fs =>
    have hg : fieldTexts level (g :: fs) =
        (quoted g.1 ++ ": " ++ g.2.text level) :: fieldTexts level fs := by
      rw [fieldTexts]
    rw [fieldTexts, hg, lines_cons_cons, ← hg, toList_field] at hf ⊢
    simp only [List.length_append, List.length_cons] at hf
    have hr := h.fields g fs level outer rest (by omega)
    have hv : ∀ cs, readValue fuel (' ' :: ((v.text level).toList ++ ',' :: cs)) =
        some (v, ',' :: cs) := fun cs => by
      rw [readValue_blank, h.value v level _ (by omega) (by simp [EndsNumber])]
    simp only [List.append_assoc, List.cons_append]
    rw [readFields, skipSpace_indent]
    simp [readString_quoted, hv, hr]

end ReadsBack

-- A value is longer than all that stands inside it, so less fuel is enough for these.
theorem readsBack (fuel : Nat) : ReadsBack fuel := by
  induction fuel with
  | zero =>
    constructor
    · intros
      omega
    · intros
      omega
    · intros
      omega
  | succ fuel ih => exact ⟨ih.readValue_text, ih.readItems_text, ih.readFields_text⟩

/-- A printed value is read back, also from a line of its own. -/
theorem read?_text (v : Json) : read? (v.text 0 ++ "\n") = some v := by
  have hv : readValue ((v.text 0 ++ "\n").length + 1) (v.text 0 ++ "\n").toList =
      some (v, ['\n']) := by
    rw [String.toList_append, (readsBack _).value v]
    · rfl
    · rw [String.length_append, String.length_toList]
      omega
    · simp [EndsNumber]
  rw [read?, hv]
  rfl

example : (object [("name", string "app"), ("reads", list [string "core"])]).text 0 =
    "\x7b\n  \"name\": \"app\",\n  \"reads\": [\n    \"core\"\n  ]\n\x7d" := by
  decide

end ModuleGraph.CommandLine.Json
