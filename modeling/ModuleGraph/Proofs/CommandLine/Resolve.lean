import Mathlib.Data.List.Sort
import ModuleGraph.CommandLine
import ModuleGraph.Proofs.CommandLine.Graph
import ModuleGraph.Proofs.CommandLine.Json
import ModuleGraph.Proofs.CommandLine.Request
import ModuleGraph.Proofs.CommandLine.Style
import ModuleGraph.Proofs.Configuration.Consistency
import ModuleGraph.Proofs.Manifest.Graph
import ModuleGraph.Proofs.Resolution.Noninterference

/-! # What a graph is shown to be

All modules of a manifest are shown in order, each with what it comes to along requires. So what
the program prints is told by the entries alone, and so is whether it succeeds. In JSON each module
comes with its loader, and the value that is read back from the text tells them all.
-/

namespace ModuleGraph

open Relation

abbrev Rows := List (String × List String)

/-- The modules of a manifest and all that they come to along requires, in order. -/
structure Manifest.Lists (m : Manifest) (rows : Rows) : Prop where
  ascending : (rows.map (·.1)).Pairwise (· < ·)
  names : ∀ n, n ∈ rows.map (·.1) ↔ n ∈ m.names
  reads_ascending : ∀ r ∈ rows, r.2.Pairwise (· < ·)
  reads : ∀ r ∈ rows, ∀ n, n ∈ r.2 ↔ TransGen m.Requires r.1 n

theorem Manifest.Lists.unique {m : Manifest} {rows rows' : Rows} (h : m.Lists rows)
    (h' : m.Lists rows') : rows = rows' := by
  have hn : rows.map (·.1) = rows'.map (·.1) :=
    h.ascending.eq_of_mem_iff h'.ascending fun n => (h.names n).trans (h'.names n).symm
  apply List.ext_getElem
  · simpa using congrArg List.length hn
  · intro i hi hi'
    have hf : rows[i].1 = rows'[i].1 := by
      simpa [hi, hi'] using congrArg (·[i]?) hn
    refine Prod.ext hf ?_
    have hr := List.getElem_mem hi
    have hr' := List.getElem_mem hi'
    apply (h.reads_ascending _ hr).eq_of_mem_iff (h'.reads_ascending _ hr')
    intro n
    rw [h.reads _ hr, h'.reads _ hr', hf]

namespace CommandLine

def pairCount (rows : Rows) : Nat := (rows.map (·.2.length)).sum

def rowsJson (loader : String) (rows : Rows) : Json :=
  let rowJson (r : String × List String) : Json :=
    .object [("name", .string r.1), ("loader", .string loader),
      ("reads", .list (r.2.map .string))]
  .object [("modules", .list (rows.map rowJson)), ("edges", .number (pairCount rows)),
    ("parent_modules", .list [])]

def rowText (colored : Bool) (r : String × List String) : String :=
  bold colored "" r.1 ++ (if r.2 = [] then "" else " -> " ++ ", ".intercalate r.2) ++ "\n"

def rowsText (colored : Bool) (rows : Rows) : String :=
  bold colored "\x1b[32m" "Resolved" ++ " " ++ toString rows.length ++ " modules, " ++
    toString (pairCount rows) ++ " reads edges\n" ++ String.join (rows.map (rowText colored))

/-- The output is a JSON text of the modules with their loader, or has a line for each module. -/
def Shows (json colored : Bool) (loader : String) (rows : Rows) (output : String) : Prop :=
  if json then Json.read? output = some (rowsJson loader rows) else output = rowsText colored rows

/-- The modules of a configuration itself, each with what it reads. -/
def rowsOf (c : Configuration) : Rows :=
  c.modules.keys.map fun n => (n, ((c.readsOf? n).getD ∅).toList)

variable {files : Files} {environment : String → Option String} {args : List String}
  {g : GraphOptions} {json colored : Bool} {color path n : String} {c : Configuration}
  {m : Manifest} {lib : Library} {stamp : Nat}

theorem map_fst_rowsOf (c : Configuration) : (rowsOf c).map (·.1) = c.modules.keys := by
  simp [rowsOf, Function.comp_def]

theorem pairCount_rowsOf (hc : c.Reachable) : pairCount (rowsOf c) = c.edgeCount := by
  rw [hc.edgeCount_eq, pairCount, rowsOf, List.map_map]
  congr 1
  exact List.map_congr_left fun n _ => NameMap.length_keys _

theorem lists_rowsOf (h : m.Declares lib)
    (ho : ((Resolver.alone lib).resolve stamp m.names).outcome = .ok c) : m.Lists (rowsOf c) where
  ascending := by
    rw [map_fst_rowsOf]
    exact c.modules.ascending_keys
  names := by
    intro n
    rw [map_fst_rowsOf, NameMap.mem_keys, h.mem_modules_iff (Resolver.resolves_of_outcome ho)]
  reads_ascending := by
    intro r hr
    obtain ⟨n, -, rfl⟩ := List.mem_map.1 hr
    exact NameMap.ascending_keys _
  reads := by
    intro r hr k
    obtain ⟨n, -, rfl⟩ := List.mem_map.1 hr
    rw [NameSet.mem_toList, Configuration.mem_getD_readsOf?, h.doesRead_iff ho]

/-! ### The report of a layer -/

theorem readsIn_layerOf (path : String) (c : Configuration) (n : String) :
    readsIn (layerOf path none c) n = ((c.readsOf? n).getD ∅).toList := by
  have hc : (layerOf path none c).configuration = c := rfl
  rw [readsIn, hc]
  cases c.readsOf? n <;> rfl

theorem layerJson_layerOf (hc : c.Reachable) :
    layerJson (layerOf path none c) = rowsJson path (rowsOf c) := by
  have hrows : c.modules.keys.map (fun n => Json.object [("name", .string n),
      ("loader", (((layerOf path none c).findLoader? n).map Json.string).getD .null),
      ("reads", .strings (readsIn (layerOf path none c) n))]) =
      (rowsOf c).map fun r => .object [("name", .string r.1), ("loader", .string path),
        ("reads", .list (r.2.map .string))] := by
    rw [rowsOf, List.map_map]
    refine List.map_congr_left fun n hn => ?_
    rw [findLoader?_layerOf (NameMap.mem_keys.1 hn), readsIn_layerOf]
    rfl
  rw [layerJson, rowsJson, pairCount_rowsOf hc, ← hrows]
  rfl

theorem render_moduleSpans (n : String) : render colored (moduleSpans (layerOf path none c) n) =
    rowText colored (n, ((c.readsOf? n).getD ∅).toList) := by
  have hp : parentModules (layerOf path none c) = [] := rfl
  rw [moduleSpans, hp, readsIn_layerOf, rowText, ← render_heading]
  generalize ((c.readsOf? n).getD ∅).toList = reads
  cases reads with
  | nil => simp [newline]
  | cons k ks =>
    have hks : k ++ (render colored (ks.flatMap fun n => [plain ", ", plain n]) ++ "\n") =
        ", ".intercalate (k :: ks) ++ "\n" := by
      rw [← String.append_assoc, render_commas]
    simp [newline, render_append, hks, String.append_assoc]

theorem render_layerSpans (hc : c.Reachable) : render colored (layerSpans (layerOf path none c)) =
    rowsText colored (rowsOf c) := by
  have hp : parentModules (layerOf path none c) = [] := rfl
  have hrows : c.modules.keys.map (fun n =>
      render colored (moduleSpans (layerOf path none c) n)) = (rowsOf c).map (rowText colored) := by
    rw [rowsOf, List.map_map]
    exact List.map_congr_left fun n _ => render_moduleSpans n
  have hl : (rowsOf c).length = c.modules.keys.length := List.length_map ..
  have ht : (layerOf path none c).configuration = c := rfl
  have he : " reads edges\n" = " reads edges" ++ "\n" := rfl
  rw [layerSpans, hp, ht, rowsText, pairCount_rowsOf hc, ← hrows, hl, he, ← render_success]
  simp [newline, render_flatMap, String.append_assoc, -String.reduceAppend]

theorem shows_resolve (hc : c.Reachable) (json : Bool) : Shows json colored path (rowsOf c)
    (render colored (if json then [plain ((layerJson (layerOf path none c)).text 0), newline]
      else layerSpans (layerOf path none c))) := by
  cases json with
  | false => exact render_layerSpans hc
  | true =>
    have ht : render colored [plain ((layerJson (layerOf path none c)).text 0), newline] =
        (rowsJson path (rowsOf c)).text 0 ++ "\n" := by
      simp [layerJson_layerOf hc, newline]
    exact ht ▸ Json.read?_text _

/-! ### The run of the program -/

theorem configures_iff {file : FileBytes} : Configures file stamp [] [] c ↔ ∃ m lib,
    Manifest.IsIn m file ∧ m.Declares lib ∧
      ((Resolver.alone lib).resolve stamp m.names).outcome = .ok c :=
  Iff.rfl

theorem exists_configures_iff {file : FileBytes} (stamp : Nat) :
    (∃ c, Configures file stamp [] [] c) ↔ ∃ m, Manifest.IsIn m file ∧ m.Resolvable := by
  constructor
  · rintro ⟨c, m, lib, hm, hl, ho⟩
    exact ⟨m, hm, (hl.exists_outcome_iff stamp).1 ⟨c, ho⟩⟩
  · rintro ⟨m, hm, hr⟩
    obtain ⟨lib, hl⟩ := hr.exists_declares
    obtain ⟨c, ho⟩ := (hl.exists_outcome_iff stamp).2 hr
    exact ⟨c, m, lib, hm, hl, ho⟩

/-- Without roots and without a parent, `resolve` succeeds exactly if the file holds a manifest
whose entries let its modules resolve together. It then shows all of its modules with all that
they come to along requires, and the file as their loader. -/
theorem run_resolve (ha : Asks args (.resolve g json) color) (hr : g.roots = [])
    (hp : g.parent? = none) :
    ((run files environment args).status = 0 ↔
      ∃ m, Manifest.IsIn m (files g.manifest) ∧ m.Resolvable) ∧
    ∀ m, Manifest.IsIn m (files g.manifest) → m.Resolvable → ∃ rows, m.Lists rows ∧
      Shows json (isColored environment color) g.manifest rows
        (run files environment args).output := by
  have hb : buildLayer files g = resolveLayer files 1 g.manifest [] none := by
    rw [buildLayer, hp, hr]
    rfl
  rw [run, request?_eq_command_iff.2 ha, ← exists_configures_iff 1]
  dsimp only [execute]
  rw [resolve, hb]
  rcases resolveLayer_cases files 1 g.manifest [] none with ⟨c, hc, hl⟩ | ⟨hn, f, hf, -⟩
  · rw [hl]
    refine ⟨iff_of_true rfl ⟨c, hc⟩, ?_⟩
    intro m hm _
    obtain ⟨m', lib, hm', hd, ho⟩ := configures_iff.1 hc
    obtain rfl := hm.unique hm'
    exact ⟨rowsOf c, lists_rowsOf hd ho, shows_resolve (Resolver.stacked_alone ho).reachable json⟩
  · rw [hf]
    refine ⟨iff_of_false ?_ ?_, ?_⟩
    · exact Nat.one_ne_zero
    · rintro ⟨c, hc⟩
      exact hn c hc
    · intro m hm hres
      obtain ⟨c, hc⟩ := (exists_configures_iff 1).2 ⟨m, hm, hres⟩
      exact (hn c hc).elim

def bothManifest : Manifest := .ofDescriptors [Configuration.appModule, Configuration.coreModule]

def bothJson : Json :=
  .object [("modules", .list [
      .object [("name", .string "app"), ("loader", .string "app.toml"),
        ("reads", .list [.string "core"])],
      .object [("name", .string "core"), ("loader", .string "app.toml"), ("reads", .list [])]]),
    ("edges", .number 1), ("parent_modules", .list [])]

def resolveBoth (more : List String) : Outcome :=
  run (fun _ => .ok bothManifest.text.toUTF8) (fun _ => none) ("resolve" :: "app.toml" :: more)

theorem run_resolve_both : (resolveBoth []).status = 0 ∧
    (resolveBoth []).output = "Resolved 2 modules, 1 reads edges\napp -> core\ncore\n" ∧
    (resolveBoth ["--format", "json"]).status = 0 ∧
    Json.read? (resolveBoth ["--format", "json"]).output = some bothJson := by
  have ha : Asks ["resolve", "app.toml"] (.resolve ⟨"app.toml", [], none, []⟩ false) "auto" :=
    request?_eq_command_iff.1 (by rfl)
  have hj : Asks ["resolve", "app.toml", "--format", "json"]
      (.resolve ⟨"app.toml", [], none, []⟩ true) "auto" := request?_eq_command_iff.1 (by rfl)
  have hl : bothManifest.library = .ok Resolver.appAndCore := by rfl
  have hc : ((Resolver.alone Resolver.appAndCore).resolve 1 bothManifest.names).outcome =
      .ok (Resolver.configure ⟨.empty, .empty, []⟩ 1 Resolver.appAndCore ["core", "app"]) := by rfl
  have hd := Manifest.declares_of_library hl
  have hm := bothManifest.isIn_text
  have hr : bothManifest.Resolvable := (hd.exists_outcome_iff 1).1 ⟨_, hc⟩
  obtain ⟨hs, ho⟩ := @run_resolve (fun _ => .ok bothManifest.text.toUTF8) (fun _ => none) _ _ _ _
    ha rfl rfl
  obtain ⟨hs', ho'⟩ := @run_resolve (fun _ => .ok bothManifest.text.toUTF8) (fun _ => none) _ _ _
    _ hj rfl rfl
  obtain ⟨rows, hrows, ho⟩ := ho _ hm hr
  obtain ⟨rows', hrows', ho'⟩ := ho' _ hm hr
  obtain rfl := hrows.unique (lists_rowsOf hd hc)
  obtain rfl := hrows'.unique (lists_rowsOf hd hc)
  exact ⟨hs.2 ⟨_, hm, hr⟩, ho.trans (by decide), hs'.2 ⟨_, hm, hr⟩, ho'.trans rfl⟩

end CommandLine
end ModuleGraph
