import ModuleGraph.Proofs.Configuration.Consistency
import ModuleGraph.Proofs.Configuration.Declared
import ModuleGraph.Proofs.Module.Text

/-! # Texts of configurations

The text of a configuration has a line for each of its own modules. Whatever a module reads is
visible, by a requires or by a further edge, and what is visible has a qualified name. No such name
has a blank, a comma or the end of a line in it, so the text tells all modules and all their reads.
-/

namespace ModuleGraph.Configuration

def entry (name : String) (reads : NameSet) : String :=
  if reads.isEmpty then name else name ++ " -> " ++ ", ".intercalate reads.toList

/-- The modules of a configuration itself, each with all that it reads. -/
def graph (c : Configuration) : List (String × NameSet) :=
  c.modules.keys.map fun n => (n, (c.readsOf? n).getD ∅)

structure Named (e : String × NameSet) : Prop where
  name : isQualifiedName e.1 = true
  reads : ∀ n ∈ e.2, isQualifiedName n = true

variable {c c' : Configuration} {n m : String} {s t : NameSet} {e e' : String × NameSet}

theorem newline_not_mem (h : isQualifiedName n = true) : '\n' ∉ n.toList :=
  not_mem_of_isQualifiedName h (by decide) (by decide)

theorem toList_entry_of_isEmpty (h : s.isEmpty = true) : (entry n s).toList = n.toList := by
  rw [entry, if_pos h]

theorem toList_entry_of_not_isEmpty (h : ¬ s.isEmpty = true) :
    (entry n s).toList = n.toList ++ ' ' :: ("-> ".toList ++ (", ".intercalate s.toList).toList) := by
  rw [entry, if_neg h]
  simp

theorem Named.newline_not_mem_entry (h : Named e) : '\n' ∉ (entry e.1 e.2).toList := by
  have hn := newline_not_mem h.name
  by_cases hs : e.2.isEmpty = true
  · rwa [toList_entry_of_isEmpty hs]
  · have hr : '\n' ∉ [',', ' '].intercalate (e.2.toList.map String.toList) := by
      intro hm
      rcases mem_of_mem_intercalate hm with hm | ⟨_, hl, hm⟩
      · simp at hm
      · obtain ⟨n, hns, rfl⟩ := List.mem_map.1 hl
        exact newline_not_mem (h.reads n (NameSet.mem_toList.1 hns)) hm
    rw [toList_entry_of_not_isEmpty hs]
    simpa [String.toList_intercalate, hr] using hn

theorem eq_empty_of_isEmpty (h : s.isEmpty = true) : s = ∅ :=
  NameSet.ext fun n => iff_of_false (NameMap.isEmpty_iff.1 h n) (NameMap.not_mem_empty n)

theorem toList_ne_nil (h : ¬ s.isEmpty = true) : s.toList ≠ [] :=
  fun hn => h (NameMap.isEmpty_iff.2 (NameMap.not_mem_of_keys_eq_nil hn))

/-- Only an arrow brings a blank into the entry of a module. -/
theorem Named.entry_ne_of_isEmpty (h : Named e) (hs : e.2.isEmpty = true)
    (ht : ¬ t.isEmpty = true) : entry e.1 e.2 ≠ entry m t := by
  intro he
  have hc := congrArg String.toList he
  rw [toList_entry_of_isEmpty hs, toList_entry_of_not_isEmpty ht] at hc
  have hb := blank_not_mem h.name
  simp [hc] at hb

theorem Named.entry_inj (h : Named e) (h' : Named e') (he : entry e.1 e.2 = entry e'.1 e'.2) :
    e = e' := by
  by_cases hs : e.2.isEmpty = true <;> by_cases ht : e'.2.isEmpty = true
  · have hc := congrArg String.toList he
    rw [toList_entry_of_isEmpty hs, toList_entry_of_isEmpty ht] at hc
    have hr := (eq_empty_of_isEmpty hs).trans (eq_empty_of_isEmpty ht).symm
    exact Prod.ext (String.toList_inj.1 hc) hr
  · exact (h.entry_ne_of_isEmpty hs ht he).elim
  · exact (h'.entry_ne_of_isEmpty ht hs he.symm).elim
  · have hc := congrArg String.toList he
    rw [toList_entry_of_not_isEmpty hs, toList_entry_of_not_isEmpty ht] at hc
    -- The name ends at the first blank, and the names of what is read at commas.
    obtain ⟨hn, hr⟩ := cut_inj (blank_not_mem h.name) (blank_not_mem h'.name) hc
    have hl := commas_inj (fun n hn => h.reads n (NameSet.mem_toList.1 hn))
      (fun n hn => h'.reads n (NameSet.mem_toList.1 hn)) (toList_ne_nil hs) (toList_ne_nil ht)
      (String.toList_inj.1 (List.append_cancel_left hr))
    exact Prod.ext (String.toList_inj.1 hn) (NameSet.toList_injective hl)

theorem readsOf?_local (h : n ∈ c.modules) : c.readsOf? n = some ((c.reads.get? n).getD ∅) := by
  rw [readsOf?, ownerOf?_local h, Option.map_some]

theorem line_eq_entry (h : n ∈ c.modules) :
    c.line n = entry n ((c.readsOf? n).getD ∅) ++ "\n" := by
  rw [line, entry, readsOf?_local h, Option.getD_some]
  split <;> rfl

theorem toList_text (c : Configuration) :
    c.text.toList = (c.graph.map fun e => (entry e.1 e.2).toList).flatMap (· ++ ['\n']) := by
  have hl : c.modules.keys.map c.line = c.graph.map fun e => entry e.1 e.2 ++ "\n" := by
    rw [graph, List.map_map]
    exact List.map_congr_left fun n hn => line_eq_entry (NameMap.mem_keys.1 hn)
  rw [text, hl, String.toList_join, List.flatMap_map, List.flatMap_map]
  simp

theorem Declared.named (h : c.Declared) (he : e ∈ c.graph) : Named e := by
  obtain ⟨n, hn, rfl⟩ := List.mem_map.1 he
  refine ⟨h.isQualifiedName (isVisible_of_mem (NameMap.mem_keys.1 hn)), fun m hm => ?_⟩
  exact h.isQualifiedName (h.reachable.isVisible_of_doesRead (mem_getD_readsOf?.1 hm))

theorem Declared.text_eq_iff_graph_eq (h : c.Declared) (h' : c'.Declared) :
    c.text = c'.text ↔ c.graph = c'.graph := by
  constructor
  · intro ht
    have hc := congrArg String.toList ht
    rw [toList_text, toList_text] at hc
    have hl := flatMap_append_inj
      (List.forall_mem_map.2 fun _ he => (h.named he).newline_not_mem_entry)
      (List.forall_mem_map.2 fun _ he => (h'.named he).newline_not_mem_entry) hc
    exact eq_of_map_eq (fun _ _ he he' heq => he.entry_inj he' (String.toList_inj.1 heq))
      (fun _ => h.named) (fun _ => h'.named) hl
  · intro hg
    rw [← String.toList_inj, toList_text, toList_text, hg]

theorem graph_eq_iff : c.graph = c'.graph ↔
    (∀ n, n ∈ c.modules ↔ n ∈ c'.modules) ∧ ∀ n ∈ c.modules, c.readsOf? n = c'.readsOf? n := by
  constructor
  · intro h
    have hk : c.modules.keys = c'.modules.keys := by
      simpa [graph, Function.comp_def] using congrArg (List.map Prod.fst) h
    have hm : ∀ n, n ∈ c.modules ↔ n ∈ c'.modules := fun n => by
      rw [← NameMap.mem_keys, hk, NameMap.mem_keys]
    refine ⟨hm, fun n hn => ?_⟩
    rw [graph, graph, ← hk] at h
    have hr := congrArg Prod.snd (List.map_inj_left.1 h n (NameMap.mem_keys.2 hn))
    simpa [readsOf?_local hn, readsOf?_local ((hm n).1 hn)] using hr
  · rintro ⟨hm, hr⟩
    rw [graph, graph, ← NameMap.keys_congr hm]
    exact List.map_congr_left fun n hn => by rw [hr n (NameMap.mem_keys.1 hn)]

/-- Configurations of declared modules have the same text exactly if they have the same modules of
their own and each of these reads the same in both. -/
theorem text_eq_iff (h : c.Declared) (h' : c'.Declared) : c.text = c'.text ↔
    (∀ n, n ∈ c.modules ↔ n ∈ c'.modules) ∧ ∀ n ∈ c.modules, c.readsOf? n = c'.readsOf? n := by
  rw [h.text_eq_iff_graph_eq h', graph_eq_iff]

def bareApp : Configuration :=
  Resolver.configure ⟨.empty, .empty, [core]⟩ 2 (.ofList [("app", ⟨"app", ∅, ∅, ∅⟩)]) ["app"]

def wiredApp : Configuration :=
  { bareApp with stamp := 3, reads := .ofList [("app", .ofList ["core"])] }

theorem declared_bareApp : bareApp.Declared := by
  have hd : Descriptor.IsDeclared ⟨"app", ∅, ∅, ∅⟩ := ⟨⟨"app", [], [], []⟩, by decide⟩
  have hf : (Finder.library bareApp.modules).IsDeclared :=
    Finder.isDeclared_library (List.forall_mem_singleton.2 hd)
  exact @Declared.resolve ⟨.library bareApp.modules, .empty, [core]⟩ 2 ["app"] _
    (by simp [declared_core]) hf Finder.isDeclared_empty (by rfl)

theorem declared_wiredApp : wiredApp.Declared :=
  @Declared.withEdges 3 [("app", "core")] _ _ declared_bareApp (by rfl)

/-- A read that comes from a further edge is told as one that comes from a requires. -/
theorem text_eq_iff_wiredApp : app.Declared ∧ wiredApp.Declared ∧ bareApp.Declared ∧
    wiredApp.text = "app -> core\n" ∧ app.text = wiredApp.text ∧ app.text ≠ bareApp.text := by
  refine ⟨declared_app, declared_wiredApp, declared_bareApp, by decide, ?_, fun ht => ?_⟩
  · refine (text_eq_iff declared_app declared_wiredApp).2 ⟨fun n => ?_, fun n hn => ?_⟩
    · rw [← NameMap.mem_keys, ← NameMap.mem_keys]
      rfl
    · obtain rfl := List.mem_singleton.1 (NameMap.mem_keys.2 hn)
      decide
  · have hr := ((text_eq_iff declared_app declared_bareApp).1 ht).2 "app" (by decide)
    exact absurd hr (by decide)

end ModuleGraph.Configuration
