import ModuleGraph.Proofs.Module.Declaration
import ModuleGraph.Proofs.Module.Name

/-! # Texts of descriptors

The text of a descriptor is a list of clauses. A keyword may be a name as well, but blanks, commas
and semicolons are in no name, so they tell where a clause ends and where its parts do. The text of
a well-formed descriptor therefore has everything that the descriptor has.
-/

namespace ModuleGraph

inductive Clause where
  | requires (name : String)
  | exports (package : String) (how : Export)
  | conceals (package : String)

namespace Clause

def text : Clause → String
  | requires n => "requires " ++ n
  | exports p .unqualified => "exports " ++ p
  | exports p (.qualified s) => "exports " ++ p ++ " to " ++ ", ".intercalate s.toList
  | conceals p => "conceals " ++ p

/-- A clause with nothing but names in it, and targets where it limits an export. -/
def WellFormed : Clause → Prop
  | requires n => isQualifiedName n = true
  | exports p .unqualified => isQualifiedName p = true
  | exports p (.qualified s) =>
    isQualifiedName p = true ∧ s.toList ≠ [] ∧ ∀ t ∈ s, isQualifiedName t = true
  | conceals p => isQualifiedName p = true

def required? : Clause → Option String
  | requires n => some n
  | _ => none

def exported? : Clause → Option (String × Export)
  | exports p x => some (p, x)
  | _ => none

def concealed? : Clause → Option String
  | conceals p => some p
  | _ => none

end Clause

variable {n p : String} {s t : NameSet}

theorem blank_not_mem (h : isQualifiedName n = true) : ' ' ∉ n.toList :=
  not_mem_of_isQualifiedName h (by decide) (by decide)

theorem comma_not_mem (h : isQualifiedName n = true) : ',' ∉ n.toList :=
  not_mem_of_isQualifiedName h (by decide) (by decide)

theorem semicolon_not_mem (h : isQualifiedName n = true) : ';' ∉ n.toList :=
  not_mem_of_isQualifiedName h (by decide) (by decide)

theorem commas_inj {as bs : List String} (ha : ∀ n ∈ as, isQualifiedName n = true)
    (hb : ∀ n ∈ bs, isQualifiedName n = true) (hna : as ≠ []) (hnb : bs ≠ [])
    (h : ", ".intercalate as = ", ".intercalate bs) : as = bs := by
  have hl : [',', ' '].intercalate (as.map String.toList) =
      [',', ' '].intercalate (bs.map String.toList) := by
    have hs := congrArg String.toList h
    rw [String.toList_intercalate, String.toList_intercalate] at hs
    exact hs
  refine List.map_injective_iff.2 (fun _ _ => String.toList_inj.1) (intercalate_inj ?_ ?_ ?_ ?_ hl)
  · exact List.forall_mem_map.2 fun n hn => comma_not_mem (ha n hn)
  · exact List.forall_mem_map.2 fun n hn => comma_not_mem (hb n hn)
  · simpa using hna
  · simpa using hnb

namespace Clause

variable {k l : Clause}

theorem semicolon_not_mem_text (h : k.WellFormed) : ';' ∉ k.text.toList := by
  cases k with
  | requires n => simpa [text] using semicolon_not_mem h
  | conceals p => simpa [text] using semicolon_not_mem h
  | exports p x =>
    cases x with
    | unqualified => simpa [text] using semicolon_not_mem h
    | qualified s =>
      obtain ⟨hp, -, ht⟩ := h
      have hs : ';' ∉ [',', ' '].intercalate (s.toList.map String.toList) := by
        intro hm
        rcases mem_of_mem_intercalate hm with hm | ⟨_, hl, hm⟩
        · simp at hm
        · obtain ⟨t, hts, rfl⟩ := List.mem_map.1 hl
          exact semicolon_not_mem (ht t (NameSet.mem_toList.1 hts)) hm
      simpa [text, String.toList_intercalate, hs] using semicolon_not_mem hp

theorem toList_text_unqualified (p : String) :
    (exports p .unqualified).text.toList = "exports ".toList ++ p.toList := by
  rw [text, String.toList_append]

theorem toList_text_qualified (p : String) (s : NameSet) :
    (exports p (.qualified s)).text.toList = "exports ".toList ++
      (p.toList ++ ' ' :: ("to ".toList ++ (", ".intercalate s.toList).toList)) := by
  simp [text]

/-- A blank in the text of an export can only come from its targets. -/
theorem text_unqualified_ne (hp : isQualifiedName p = true) (q : String) (s : NameSet) :
    (exports p .unqualified).text ≠ (exports q (.qualified s)).text := by
  intro h
  have hc := congrArg String.toList h
  rw [toList_text_unqualified, toList_text_qualified] at hc
  have hb := blank_not_mem hp
  simp [List.append_cancel_left hc] at hb

theorem text_exports_inj {x y : Export} {q : String} (hx : (exports p x).WellFormed)
    (hy : (exports q y).WellFormed) (h : (exports p x).text = (exports q y).text) :
    exports p x = exports q y := by
  have hc := congrArg String.toList h
  cases x with
  | unqualified =>
    cases y with
    | unqualified =>
      rw [toList_text_unqualified, toList_text_unqualified] at hc
      rw [String.toList_inj.1 (List.append_cancel_left hc)]
    | qualified t => exact (text_unqualified_ne hx q t h).elim
  | qualified s =>
    cases y with
    | unqualified => exact (text_unqualified_ne hy p s h.symm).elim
    | qualified t =>
      obtain ⟨hp, hs, hs'⟩ := hx
      obtain ⟨hq, ht, ht'⟩ := hy
      rw [toList_text_qualified, toList_text_qualified] at hc
      obtain ⟨hpq, hst⟩ :=
        cut_inj (blank_not_mem hp) (blank_not_mem hq) (List.append_cancel_left hc)
      have hl := commas_inj (fun n hn => hs' n (NameSet.mem_toList.1 hn))
        (fun n hn => ht' n (NameSet.mem_toList.1 hn)) hs ht
        (String.toList_inj.1 (List.append_cancel_left hst))
      rw [String.toList_inj.1 hpq, NameSet.toList_injective hl]

theorem text_inj (hk : k.WellFormed) (hl : l.WellFormed) (h : k.text = l.text) : k = l := by
  cases k with
  | requires n =>
    cases l with
    | requires m => exact congrArg requires (by simpa [text] using h)
    | exports q y => cases y <;> simp [text, ← String.toList_inj] at h
    | conceals q => simp [text, ← String.toList_inj] at h
  | exports p x =>
    cases l with
    | requires m => cases x <;> simp [text, ← String.toList_inj] at h
    | exports q y => exact text_exports_inj hk hl h
    | conceals q => cases x <;> simp [text, ← String.toList_inj] at h
  | conceals p =>
    cases l with
    | requires m => simp [text, ← String.toList_inj] at h
    | exports q y => cases y <;> simp [text, ← String.toList_inj] at h
    | conceals q => exact congrArg conceals (by simpa [text] using h)

theorem texts_inj {ks ls : List Clause} (hk : ∀ k ∈ ks, k.WellFormed)
    (hl : ∀ l ∈ ls, l.WellFormed) (h : ks.map (·.text.toList) = ls.map (·.text.toList)) :
    ks = ls :=
  eq_of_map_eq (fun _ _ hk hl he => text_inj hk hl (String.toList_inj.1 he)) hk hl h

end Clause

namespace Descriptor

variable {d e : Descriptor}

def said (d : Descriptor) : List Clause :=
  d.requires.toList.map .requires ++ d.exports.entries.map (fun e => .exports e.1 e.2) ++
    d.concealed.toList.map .conceals

theorem clauses_eq_map_said (d : Descriptor) : d.clauses = d.said.map (·.text ++ "; ") := by
  rw [clauses, said, List.map_append, List.map_append, List.map_map, List.map_map, List.map_map]
  congr 3
  funext ⟨p, x⟩
  cases x <;> rfl

theorem WellFormed.of_mem_said (h : d.WellFormed) {k : Clause} (hk : k ∈ d.said) :
    k.WellFormed := by
  rw [said, List.mem_append, List.mem_append, List.mem_map, List.mem_map, List.mem_map] at hk
  rcases hk with (⟨n, hn, rfl⟩ | ⟨⟨p, x⟩, hx, rfl⟩) | ⟨p, hp, rfl⟩
  · exact (h.requires n (NameSet.mem_toList.1 hn)).2
  · have hg := NameMap.get?_eq_some_iff.2 hx
    have hp := h.exports p (NameMap.mem_of_get? hg)
    cases x with
    | unqualified => exact hp
    | qualified s => exact ⟨hp, h.targets p s hg⟩
  · exact (h.concealed p (NameSet.mem_toList.1 hp)).1

theorem filterMap_required?_said (d : Descriptor) :
    d.said.filterMap Clause.required? = d.requires.toList := by
  simp [said, Function.comp_def, Clause.required?]

theorem filterMap_exported?_said (d : Descriptor) :
    d.said.filterMap Clause.exported? = d.exports.entries := by
  simp [said, Function.comp_def, Clause.exported?]

theorem filterMap_concealed?_said (d : Descriptor) :
    d.said.filterMap Clause.concealed? = d.concealed.toList := by
  simp [said, Function.comp_def, Clause.concealed?]

/-- The clauses have everything but the name. -/
theorem eq_of_said_eq (hname : d.name = e.name) (h : d.said = e.said) : d = e := by
  have hr : d.requires.toList = e.requires.toList := by
    rw [← filterMap_required?_said, h, filterMap_required?_said]
  have hx : d.exports.entries = e.exports.entries := by
    rw [← filterMap_exported?_said, h, filterMap_exported?_said]
  have hc : d.concealed.toList = e.concealed.toList := by
    rw [← filterMap_concealed?_said, h, filterMap_concealed?_said]
  rw [Descriptor.mk.injEq]
  exact ⟨hname, NameSet.toList_injective hr, NameMap.ext_entries hx, NameSet.toList_injective hc⟩

theorem toList_text (d : Descriptor) :
    d.text.toList = "module ".toList ++ (d.name.toList ++ ' ' :: ("\x7b ".toList ++
      ((d.said.map (·.text.toList)).flatMap (· ++ [';', ' ']) ++ ['\x7d']))) := by
  rw [text, clauses_eq_map_said]
  simp [String.toList_join, List.flatMap_map]

theorem WellFormed.semicolon_not_mem (h : d.WellFormed) :
    ∀ cs ∈ d.said.map (·.text.toList), ';' ∉ cs :=
  List.forall_mem_map.2 fun _ hk => Clause.semicolon_not_mem_text (h.of_mem_said hk)

theorem WellFormed.eq_of_text_eq (hd : d.WellFormed) (he : e.WellFormed) (h : d.text = e.text) :
    d = e := by
  have hc := congrArg String.toList h
  rw [toList_text, toList_text] at hc
  -- The name ends at the first blank after the keyword, and each clause at the next semicolon.
  obtain ⟨hname, hrest⟩ := cut_inj (blank_not_mem hd.name) (blank_not_mem he.name)
    (List.append_cancel_left hc)
  have htexts := flatMap_append_inj hd.semicolon_not_mem he.semicolon_not_mem
    (List.append_cancel_right (List.append_cancel_left hrest))
  have hsaid := Clause.texts_inj (fun _ => hd.of_mem_said) (fun _ => he.of_mem_said) htexts
  exact eq_of_said_eq (String.toList_inj.1 hname) hsaid

end Descriptor

namespace Declaration

/-- Descriptors of declarations that have the same text are the same. -/
theorem text_faithful {x y : Declaration} {d e : Descriptor} (hx : x.descriptor = .ok d)
    (hy : y.descriptor = .ok e) (h : d.text = e.text) : d = e :=
  (wellFormed_of_descriptor hx).eq_of_text_eq (wellFormed_of_descriptor hy) h

/-- A declaration in which every keyword is a name as well. -/
def keywords : Declaration where
  name := "module"
  requires := ["requires", "to"]
  exports := [⟨"exports", none⟩, ⟨"to", some ["to", "exports"]⟩]
  conceals := ["conceals"]

def shuffled : Declaration where
  name := "module"
  requires := ["to", "requires"]
  exports := [⟨"to", some ["exports", "to"]⟩, ⟨"exports", none⟩]
  conceals := ["conceals"]

theorem text_faithful_keywords : keywords.descriptor = .ok keywords.declared ∧
    shuffled.descriptor = .ok shuffled.declared ∧
    keywords.declared.text = "module module \x7b requires requires; requires to; " ++
      "exports exports; exports to to exports, to; conceals conceals; \x7d" ∧
    keywords.declared = shuffled.declared := by
  have hk : keywords.descriptor = .ok keywords.declared := by decide
  have hs : shuffled.descriptor = .ok shuffled.declared := by decide
  have ht : keywords.declared.text = shuffled.declared.text := by decide
  exact ⟨hk, hs, by decide, text_faithful hk hs ht⟩

end Declaration
end ModuleGraph
