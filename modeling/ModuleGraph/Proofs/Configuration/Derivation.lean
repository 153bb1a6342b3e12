import Mathlib.Data.Finset.Card
import Mathlib.Data.Finset.Dedup
import Mathlib.Data.Finset.Filter
import ModuleGraph.Proofs.Configuration.Reachable

/-! # Deriving with further edges

Deriving fails with the first edge that does not join a module of the configuration itself to a
visible one. Otherwise each edge that is new is read once and all else stays as it was, so deriving
with two lists of edges one after the other is deriving with both at once.
-/

namespace ModuleGraph.Configuration

def readPairs (c : Configuration) : List (String × String) :=
  c.reads.entries.flatMap fun e => e.2.toList.map fun m => (e.1, m)

/-- The edges that are not read yet, those from a module to itself apart. -/
def unread (c : Configuration) (edges : List (String × String)) : Finset (String × String) :=
  {e ∈ edges.toFinset | e.1 ≠ e.2 ∧ ¬ c.doesRead e.1 e.2 = true}

variable {c c' : Configuration} {a b p : String} {edges : List (String × String)} {stamp : Nat}

theorem mem_readPairs : (a, b) ∈ c.readPairs ↔ b ∈ (c.reads.get? a).getD ∅ := by
  simp only [readPairs, List.mem_flatMap, List.mem_map, Prod.mk.injEq, NameSet.mem_toList]
  constructor
  · rintro ⟨e, he, m, hm, rfl, rfl⟩
    rw [NameMap.get?_eq_some_iff.2 he]
    exact hm
  · intro h
    cases hr : c.reads.get? a with
    | none => simp [hr] at h
    | some s => exact ⟨(a, s), NameMap.get?_eq_some_iff.1 hr, b, by simpa [hr] using h, rfl, rfl⟩

theorem nodup_readPairs (c : Configuration) : c.readPairs.Nodup := by
  rw [readPairs, List.nodup_flatMap]
  constructor
  · intro e _
    exact e.2.nodup_toList.map fun m k h => (Prod.mk.inj h).2
  · refine c.reads.ascending.imp fun {e f} hlt => ?_
    intro x he hf
    obtain ⟨m, -, rfl⟩ := List.mem_map.1 he
    obtain ⟨k, -, hk⟩ := List.mem_map.1 hf
    exact String.ne_of_lt hlt (Prod.mk.inj hk).1.symm

theorem length_readPairs (c : Configuration) : c.readPairs.length = c.edgeCount := by
  rw [readPairs, List.length_flatMap, edgeCount, NameMap.values, List.sum, List.foldr_map,
    List.foldr_map]
  simp [NameSet.toList, NameMap.length_keys]

theorem mem_unread : (a, b) ∈ c.unread edges ↔
    (a, b) ∈ edges ∧ a ≠ b ∧ ¬ c.doesRead a b = true := by
  simp [unread]

theorem packageOwner?_withEdges (h : c.withEdges stamp edges = .ok c') (p : String) :
    c'.packageOwner? p = c.packageOwner? p := by
  obtain ⟨-, rfl⟩ := withEdges_eq_ok_iff.1 h
  simp only [packageOwner?, search_eq]

/-- The pairs read after deriving are those read before and the edges not read yet. -/
theorem edgeCount_withEdges (h : c.withEdges stamp edges = .ok c') :
    c'.edgeCount = c.edgeCount + (c.unread edges).card := by
  have hl : ∀ a b, (a, b) ∈ edges → (c.doesRead a b = true ↔ (a, b) ∈ c.readPairs) := by
    intro a b he
    rw [doesRead_local ((withEdges_eq_ok_iff.1 h).1 (a, b) he).1, mem_readPairs]
  have hu : c'.readPairs.toFinset = c.readPairs.toFinset ∪ c.unread edges := by
    ext ⟨a, b⟩
    rw [Finset.mem_union, List.mem_toFinset, List.mem_toFinset, mem_unread, mem_readPairs,
      (ok_of_withEdges h).2, ← mem_readPairs]
    constructor
    · rintro (hr | ⟨he, hne⟩)
      · exact .inl hr
      · exact or_iff_not_imp_left.2 fun hr => ⟨he, hne, mt (hl a b he).1 hr⟩
    · rintro (hr | ⟨he, hne, -⟩)
      · exact .inl hr
      · exact .inr ⟨he, hne⟩
  have hd : Disjoint c.readPairs.toFinset (c.unread edges) := by
    refine Finset.disjoint_left.2 ?_
    rintro ⟨a, b⟩ hr hn
    obtain ⟨he, -, hn⟩ := mem_unread.1 hn
    exact hn ((hl a b he).2 (List.mem_toFinset.1 hr))
  rw [← length_readPairs, ← length_readPairs, ← List.toFinset_card_of_nodup (nodup_readPairs c'),
    ← List.toFinset_card_of_nodup (nodup_readPairs c), hu, Finset.card_union_of_disjoint hd]

theorem withEdges_eq_error_iff {err : ResolutionError} : c.withEdges stamp edges = .error err ↔
    ∃ before e after, edges = before ++ e :: after ∧ (∀ f ∈ before, c.Joins f) ∧ ¬ c.Joins e ∧
      err = .unknownReadsEdge e.1 e.2 := by
  rw [withEdges_eq]
  constructor
  · intro h
    cases hf : edges.find? fun e => ¬ c.Joins e with
    | none => rw [hf] at h; cases h
    | some e =>
      obtain ⟨hn, before, after, he, hb⟩ := List.find?_eq_some_iff_append.1 hf
      rw [hf] at h
      exact ⟨before, e, after, he, by simpa using hb, by simpa using hn,
        (Except.error.inj h).symm⟩
  · rintro ⟨before, e, after, he, hb, hn, rfl⟩
    have hf : (edges.find? fun e => ¬ c.Joins e) = some e :=
      List.find?_eq_some_iff_append.2 ⟨by simpa using hn, before, after, he, by simpa using hb⟩
    rw [hf]

theorem joins_withEdges (h : c.withEdges stamp edges = .ok c') (e : String × String) :
    c'.Joins e ↔ c.Joins e := by
  rw [Joins, Joins, modules_of_withEdges h, isVisible_withEdges h]

/-- Edges may be added in two steps, since a derived configuration admits the edges that the one it
was derived from admits. -/
theorem withEdges_append (c : Configuration) (i j : Nat) (edges more : List (String × String)) :
    c.withEdges j (edges ++ more) = c.withEdges i edges >>= fun c' => c'.withEdges j more := by
  rw [withEdges_eq, List.find?_append]
  cases hf : edges.find? fun e => ¬ c.Joins e with
  | some e =>
    rw [withEdges_eq c i, hf]
    rfl
  | none =>
    have hi := withEdges_eq c i edges
    rw [hf] at hi
    rw [hi, Option.none_or, List.foldl_append]
    refine Eq.trans ?_ (withEdges_eq _ j more).symm
    simp only [joins_withEdges hi]

/-- Deriving succeeds exactly if every edge joins a module of the configuration itself to a visible
one, and fails with the first that does not. It adds the edges to what is read, those from a module
to itself apart, each of them once, and changes no lookup. Edges may be added in two steps. -/
theorem withEdges_exact (c : Configuration) (i j : Nat) (edges more : List (String × String)) :
    ((∃ c', c.withEdges i edges = .ok c') ↔ ∀ e ∈ edges, c.Joins e) ∧
    (∀ err, c.withEdges i edges = .error err ↔ ∃ before e after, edges = before ++ e :: after ∧
      (∀ f ∈ before, c.Joins f) ∧ ¬ c.Joins e ∧ err = .unknownReadsEdge e.1 e.2) ∧
    (∀ c', c.withEdges i edges = .ok c' →
      (∀ a b, c'.doesRead a b = true ↔ c.doesRead a b = true ∨ (a, b) ∈ edges ∧ a ≠ b) ∧
      c'.modules = c.modules ∧ c'.parents = c.parents ∧ (∀ n, c'.find? n = c.find? n) ∧
      (∀ p, c'.packageOwner? p = c.packageOwner? p) ∧
      c'.edgeCount = c.edgeCount + (c.unread edges).card) ∧
    c.withEdges j (edges ++ more) = c.withEdges i edges >>= fun c' => c'.withEdges j more := by
  refine ⟨?_, ?_, ?_, withEdges_append c i j edges more⟩
  · constructor
    · rintro ⟨c', h⟩
      exact (withEdges_eq_ok_iff.1 h).1
    · intro h
      exact ⟨_, withEdges_eq_ok_iff.2 ⟨h, rfl⟩⟩
  · intro err
    exact withEdges_eq_error_iff
  · intro c' h
    exact ⟨fun a b => doesRead_withEdges h, modules_of_withEdges h, parents_of_withEdges h,
      find?_withEdges h, packageOwner?_withEdges h, edgeCount_withEdges h⟩

def loose : Configuration :=
  Resolver.configure ⟨.empty, .empty, [core]⟩ 9
    (.ofList [("shell", ⟨"shell", ∅, ∅, ∅⟩), ("tools", ⟨"tools", ∅, ∅, ∅⟩)]) ["shell", "tools"]

def tied : Configuration :=
  { loose with
    stamp := 10
    reads := .ofList [("shell", .ofList ["tools"]), ("tools", .ofList ["core"])] }

theorem reachable_loose : loose.Reachable :=
  @Reachable.resolve ⟨.library loose.modules, .empty, [core]⟩ 9 ["tools", "shell"] _
    (by simp [stacked_core.reachable]) (by rfl)

theorem withEdges_loose : loose.withEdges 10
    [("tools", "core"), ("shell", "shell"), ("shell", "tools"), ("tools", "core")] = .ok tied := by
  rfl

/-- The edge given twice counts once and the one from `shell` to itself not at all, though one from
`core` to itself is refused, since `core` is a module of the parent. -/
theorem withEdges_exact_loose : loose.Reachable ∧
    loose.withEdges 10 [("tools", "core"), ("shell", "shell"), ("shell", "tools"),
      ("tools", "core")] = .ok tied ∧
    ¬ tied.doesRead "shell" "core" = true ∧ tied.edgeCount = loose.edgeCount + 2 ∧
    loose.withEdges 10 [("tools", "core"), ("core", "core"), ("shell", "none")] =
      .error (.unknownReadsEdge "core" "core") := by
  obtain ⟨-, -, hok, -⟩ := withEdges_exact loose 10 10
    [("tools", "core"), ("shell", "shell"), ("shell", "tools"), ("tools", "core")] []
  obtain ⟨-, herr, -, -⟩ := withEdges_exact loose 10 10
    [("tools", "core"), ("core", "core"), ("shell", "none")] []
  obtain ⟨hr, -, -, -, -, hn⟩ := hok tied withEdges_loose
  refine ⟨reachable_loose, withEdges_loose, ?_, hn.trans (by rfl), (herr _).2 ?_⟩
  · rw [hr]
    decide
  · exact ⟨[("tools", "core")], ("core", "core"), [("shell", "none")], rfl, by decide, by decide,
      rfl⟩

end ModuleGraph.Configuration
