import ModuleGraph.Manifest.Printer
import ModuleGraph.Manifest.Reader
import ModuleGraph.Proofs.NameMap
import ModuleGraph.Proofs.Toml.Document

/-! # Manifests read back

The text of a manifest is read back as the manifest, for any names in it, so that only an entry
without a descriptor keeps a manifest from coming back as it was.
-/

namespace ModuleGraph

open Toml

variable {e : Entry} {key : String} {items : List String} {ls : List Line}

def optionalField (key : String) (items : List String) : Entries :=
  if items = [] then [] else [(key, .array (items.map .text))]

namespace Entry

def fields (e : Entry) : Entries :=
  ("name", .text e.name) :: (optionalField "requires" e.requires ++
    optionalField "exports" e.exports ++ optionalField "conceals" e.conceals)

def targets (e : Entry) : Entries := e.exportsTo.entries.map fun x => (x.1, .array (x.2.map .text))

def table (e : Entry) : Entries :=
  e.fields ++ if e.exportsTo.isEmpty then [] else [("exports-to", .table .header e.targets)]

def lines (e : Entry) : List Line :=
  .element ["module"] :: (assignments e.fields).map .assignment ++
    if e.exportsTo.isEmpty then []
    else .table ["module", "exports-to"] :: (assignments e.targets).map .assignment

end Entry

namespace Manifest

/-! ### From the text to lines -/

theorem isLine_listLine (key : String) (items : List String) :
    IsLine (keyText key ++ " = ".toList ++ arrayText items)
      (.assignment ([key], .array (items.map .text))) := by
  refine isLine_assignment ⟨'[', _, rfl, rfl⟩ fun rest => ?_
  rw [arrayText, List.append_assoc]
  exact readValue_array

theorem writes_listLine (key : String) (items : List String) :
    Writes (listLine key items) [.assignment ([key], .array (items.map .text))] :=
  .singleton (isLine_listLine key items)

theorem writes_optionalLine (key : String) (items : List String) :
    Writes (optionalLine key items) ((assignments (optionalField key items)).map .assignment) := by
  unfold optionalLine optionalField
  split
  · exact .nil
  · exact writes_listLine key items

theorem isLine_nameLine (s : String) :
    IsLine ("name = ".toList ++ textValue s) (.assignment (["name"], .text s)) := by
  have hkey : "name = ".toList = keyText "name" ++ " = ".toList := by decide
  rw [hkey]
  obtain ⟨q, t, ht, hq⟩ := exists_textValue_eq_cons s
  refine isLine_assignment ⟨q, t, ht, ?_⟩ fun rest => readNested_textValue (by simp) (by simp)
  rcases hq with rfl | rfl <;> rfl

theorem isLine_moduleHeader : IsLine "[[module]]".toList (.element ["module"]) :=
  ⟨⟨'[', _, rfl, by decide⟩, fun _ => rfl⟩

theorem isLine_exportsToHeader :
    IsLine "[module.exports-to]".toList (.table ["module", "exports-to"]) :=
  ⟨⟨'[', _, rfl, by decide⟩, fun _ => rfl⟩

theorem writes_exportsToText (e : Entry) :
    Writes (exportsToText e.exportsTo)
      (if e.exportsTo.isEmpty then []
        else .table ["module", "exports-to"] :: (assignments e.targets).map .assignment) := by
  unfold exportsToText
  split
  · exact .nil
  · have hlines : (assignments e.targets).map Line.assignment =
        e.exportsTo.entries.flatMap fun x => [.assignment ([x.1], .array (x.2.map .text))] := by
      rw [assignments, Entry.targets, List.map_map, List.map_map, List.map_eq_flatMap]
      rfl
    rw [hlines]
    exact .blank (.line isLine_exportsToHeader
      (.flatMap fun x _ => writes_listLine x.1 x.2))

theorem writes_entryText (e : Entry) : Writes (entryText e) e.lines := by
  have hname := (Writes.singleton isLine_moduleHeader).append
    (.singleton (isLine_nameLine e.name))
  have hlists := ((writes_optionalLine "requires" e.requires).append
    (writes_optionalLine "exports" e.exports)).append (writes_optionalLine "conceals" e.conceals)
  have hheader : "[[module]]\n".toList = "[[module]]".toList ++ ['\n'] := by decide
  have h := (hname.append hlists).append (writes_exportsToText e)
  unfold entryText
  simp only [hheader, Entry.lines, Entry.fields, assignments, List.map_cons, List.map_append,
    List.cons_append, List.nil_append, List.append_assoc] at h ⊢
  exact h

/-! ### From lines to tables -/

theorem keys_optionalField_sublist (key : String) (items : List String) :
    ((optionalField key items).map (·.1)).Sublist [key] := by
  unfold optionalField
  split
  · exact List.nil_sublist _
  · exact List.Sublist.refl _

theorem keys_fields_sublist (e : Entry) :
    (e.fields.map (·.1)).Sublist ["name", "requires", "exports", "conceals"] := by
  have h := ((keys_optionalField_sublist "requires" e.requires).append
    (keys_optionalField_sublist "exports" e.exports)).append
      (keys_optionalField_sublist "conceals" e.conceals)
  simpa [Entry.fields] using h

theorem nodup_fields (e : Entry) : (e.fields.map (·.1)).Nodup :=
  (keys_fields_sublist e).nodup (by decide)

theorem get?_exportsTo_fields (e : Entry) : e.fields.get? "exports-to" = none :=
  get?_eq_none_iff.2 fun h => absurd ((keys_fields_sublist e).subset h) (by decide)

theorem nodup_targets (e : Entry) : (e.targets.map (·.1)).Nodup := by
  have h := e.exportsTo.nodup_keys
  rw [Entry.targets, List.map_map]
  exact h

theorem splitAssignments_flatMap_lines (es : List Entry) :
    (splitAssignments (es.flatMap Entry.lines)).1 = [] := by
  cases es with
  | nil => rfl
  | cons e es => rfl

theorem extend_lines (e : Entry) (items : List Entries) (h : (splitAssignments ls).1 = []) :
    extend (listed "module" items) (e.lines ++ ls) =
      extend (listed "module" (items ++ [e.table])) ls := by
  have hopen : openElement ["module"] (assignments e.fields) (listed "module" items) = _ :=
    openElement_listed (nodup_fields e)
  by_cases hx : e.exportsTo.isEmpty = true
  · simp [Entry.lines, Entry.table, hx, extend, splitAssignments_append h, hopen, extend_append]
  · -- The header goes through the last of the modules, which the lines before it have opened.
    have htable : openTable ["module", "exports-to"] (assignments e.targets)
        (listed "module" (items ++ [e.fields])) = _ :=
      openTable_listed (get?_exportsTo_fields e) (nodup_targets e)
    have hsplit : (splitAssignments ((assignments e.fields).map .assignment ++
        .table ["module", "exports-to"] :: ((assignments e.targets).map .assignment ++ ls))).1 =
        assignments e.fields := splitAssignments_append rfl
    simp [Entry.lines, Entry.table, hx, extend, hsplit, splitAssignments_append h, hopen,
      extend_append, htable]

theorem extend_flatMap_lines (es : List Entry) (items : List Entries) :
    extend (listed "module" items) (es.flatMap Entry.lines) =
      some (listed "module" (items ++ es.map Entry.table)) := by
  induction es generalizing items with
  | nil => simp [extend]
  | cons e es ih =>
    rw [List.flatMap_cons, extend_lines e items (splitAssignments_flatMap_lines es), ih,
      List.append_assoc]
    rfl

/-! ### From tables to entries -/

theorem mapM_map_eq_some {α β : Type} {f : α → β} {g : β → Option α} (h : ∀ a, g (f a) = some a)
    (l : List α) : (l.map f).mapM g = some l := by
  have hs : g ∘ f = pure := funext h
  rw [List.mapM_map, hs]
  simpa using List.mapM_pure (m := Option) (f := id) (l := l)

theorem texts?_array (items : List String) : (Value.array (items.map .text)).texts? = some items :=
  mapM_map_eq_some (g := Value.text?) (fun _ => rfl) items

theorem textsOf?_optionalField (key : String) (items : List String) :
    Entry.textsOf? ((optionalField key items).get? key) = some items := by
  unfold optionalField
  split
  · next h => exact congrArg some h.symm
  · rw [Entries.get?, List.lookup_cons_self]
    exact texts?_array items

theorem textTable?_targets (e : Entry) (o : Origin) :
    (Value.table o e.targets).textTable? = some e.exportsTo := by
  have hof : NameMap.ofList e.exportsTo.entries = e.exportsTo := by
    refine NameMap.ext_get? fun k => Option.ext fun v => ?_
    rw [NameMap.get?_ofList_iff e.exportsTo.nodup_keys, NameMap.get?_eq_some_iff]
  rw [Value.textTable?, Entry.targets, mapM_map_eq_some fun x => by simp [texts?_array]]
  exact congrArg some hof

theorem get?_append (es es' : Entries) (k : String) :
    Entries.get? (es ++ es') k = (es.get? k).or (es'.get? k) :=
  List.lookup_append

theorem get?_optionalField_of_ne {k : String} (h : k ≠ key) (items : List String) :
    (optionalField key items).get? k = none :=
  get?_eq_none_iff.2 fun hk =>
    h (List.mem_singleton.1 ((keys_optionalField_sublist key items).subset hk))

theorem get?_fields {k : String} (e : Entry) (h : k ≠ "name") : e.fields.get? k =
    (((optionalField "requires" e.requires).get? k).or
      ((optionalField "exports" e.exports).get? k)).or
        ((optionalField "conceals" e.conceals).get? k) := by
  have hname : (k == "name") = false := beq_false_of_ne h
  rw [← get?_append, ← get?_append]
  simp only [Entry.fields, Entries.get?, List.lookup_cons, hname]

theorem get?_table_of_ne {k : String} (e : Entry) (h : k ≠ "exports-to") :
    e.table.get? k = e.fields.get? k := by
  rw [Entry.table, get?_append]
  split
  · exact Option.or_none
  · have hx : Entries.get? [("exports-to", Value.table .header e.targets)] k = none :=
      get?_eq_none_iff.2 (by simpa using h)
    rw [hx]
    exact Option.or_none

theorem get?_table_exportsTo (e : Entry) : e.table.get? "exports-to" =
    if e.exportsTo.isEmpty then none else some (.table .header e.targets) := by
  rw [Entry.table, get?_append, get?_exportsTo_fields, Option.none_or]
  split <;> rfl

theorem textsOf?_table (e : Entry) :
    Entry.textsOf? (e.table.get? "requires") = some e.requires ∧
      Entry.textsOf? (e.table.get? "exports") = some e.exports ∧
      Entry.textsOf? (e.table.get? "conceals") = some e.conceals := by
  simp [get?_table_of_ne, get?_fields, get?_optionalField_of_ne, textsOf?_optionalField]

theorem ofTable?_table (e : Entry) : Entry.ofTable? e.table = some e := by
  have hname : e.table.get? "name" = some (.text e.name) := get?_table_of_ne e (by decide)
  obtain ⟨hrequires, hexports, hconceals⟩ := textsOf?_table e
  by_cases hx : e.exportsTo.isEmpty = true
  · have hempty : e.exportsTo = ∅ := NameMap.ext_entries (List.isEmpty_iff.1 hx)
    have heta : ({ e with exportsTo := ∅ } : Entry) = e := by rw [← hempty]
    simpa [Entry.ofTable?, Entry.ofFields?, Entry.Field.key, hname, hrequires, hexports, hconceals,
      get?_table_exportsTo, hx, Value.text?] using heta
  · simp [Entry.ofTable?, Entry.ofFields?, Entry.Field.key, hname, hrequires, hexports, hconceals,
      get?_table_exportsTo, hx, Value.text?, textTable?_targets]

theorem ofLines_flatMap_lines (es : List Entry) :
    ofLines (es.flatMap Entry.lines) = some (listed "module" (es.map Entry.table)) := by
  rw [ofLines, splitAssignments_flatMap_lines]
  exact extend_flatMap_lines es []

theorem writes_empty :
    Writes "module = []\n".toList [.assignment (["module"], .array [])] := by
  have htext : "module = []\n".toList = listLine "module" [] := by decide
  rw [htext]
  exact writes_listLine "module" []

theorem parse?_text (m : Manifest) : parse? m.text = some m := by
  unfold parse? text
  split
  · next hnil =>
    rw [writes_empty.read?_eq]
    exact congrArg some (congrArg mk hnil.symm)
  · next hne =>
    have hw : Writes (['\n'].intercalate (m.modules.map entryText)) _ :=
      .intercalate fun e _ => writes_entryText e
    rw [hw.read?_eq, ofLines_flatMap_lines]
    simp [ofTable?, listed, hne, Entries.get?, mapM_map_eq_some ofTable?_table]

/-! ### Entries without descriptors -/

theorem ofText_text_eq (m : Manifest) : ofText m.text = m.descriptors.map fun _ => m := by
  simp [ofText, parse?_text]

/-- Applying a partial function along a list stops at the first item without a result. -/
theorem mapM_cases {α β ε : Type} (f : α → Except ε β) (l : List α) :
    ((∀ a ∈ l, ∃ b, f a = .ok b) ∧ ∃ bs, l.mapM f = .ok bs) ∨
      ∃ before a after err, l = before ++ a :: after ∧ (∀ b ∈ before, ∃ d, f b = .ok d) ∧
        f a = .error err ∧ l.mapM f = .error err := by
  induction l with
  | nil => exact .inl ⟨by simp, [], rfl⟩
  | cons a l ih =>
    cases ha : f a with
    | error err => exact .inr ⟨[], a, l, err, rfl, by simp, ha, by rw [List.mapM_cons, ha]; rfl⟩
    | ok b =>
      rcases ih with ⟨hall, bs, hbs⟩ | ⟨before, a', after, err, rfl, hbefore, ha', herr⟩
      · refine .inl ⟨List.forall_mem_cons.2 ⟨⟨b, ha⟩, hall⟩, b :: bs, ?_⟩
        rw [List.mapM_cons, ha, hbs]
        rfl
      · refine .inr ⟨a :: before, a', after, err, rfl, ?_, ha', ?_⟩
        · exact List.forall_mem_cons.2 ⟨⟨b, ha⟩, hbefore⟩
        · rw [List.mapM_cons, ha, herr]
          rfl

/-- The text of a manifest is read as the manifest if every entry has a descriptor. Otherwise it is
refused for the fault of the first entry without one. -/
theorem ofText_text (m : Manifest) :
    ((∀ e ∈ m.modules, ∃ d, e.descriptor = .ok d) ∧ ofText m.text = .ok m) ∨
      ∃ before e after err, m.modules = before ++ e :: after ∧
        (∀ b ∈ before, ∃ d, b.descriptor = .ok d) ∧ e.descriptor = .error err ∧
        ofText m.text = .error (.invalidModule err) := by
  rw [ofText_text_eq]
  rcases mapM_cases Entry.descriptor m.modules with
    ⟨hall, ds, hds⟩ | ⟨before, e, after, err, hm, hbefore, he, herr⟩
  · refine .inl ⟨hall, ?_⟩
    rw [descriptors, hds]
    rfl
  · refine .inr ⟨before, e, after, err, hm, hbefore, he, ?_⟩
    rw [descriptors, herr]
    rfl

end Manifest
end ModuleGraph
