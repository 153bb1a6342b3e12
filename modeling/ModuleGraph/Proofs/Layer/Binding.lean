import ModuleGraph.Proofs.Layer

/-! # Calls of a binding function

A binding function may keep a state, so it can tell how often and in which order it is asked. When
it also writes that down, making a layer takes one call for each module of the configuration, or no
call at all where the parent layer does not fit.
-/

namespace ModuleGraph.Layer

open ModuleGraph.Configuration

variable {σ : Type}

/-- A binding function that also writes down its calls with their answers. -/
def recorded (bind : String → StateM σ (Option String)) (n : String) :
    StateM (σ × Answers) (Option String) := fun (s, calls) =>
  (((bind n).run s).1, ((bind n).run s).2, calls ++ [(n, ((bind n).run s).1)])

/-- The calls that making a layer takes, in order, with their answers. -/
def calls (c : Configuration) (parent : Option Layer) (bind : String → StateM σ (Option String))
    (s : σ) : Answers :=
  ((create c parent (recorded bind)).run (s, [])).2.2

/-- A parent layer that has modules and whose configuration is no parent. -/
def Mismatch (c : Configuration) (parent : Option Layer) : Prop :=
  ∃ p, parent = some p ∧ p.configuration ∉ c.parents ∧ ∃ n, n ∈ p.configuration.modules

structure Answered (c : Configuration) (parent : Option Layer) (calls : Answers) (l : Layer) :
    Prop where
  configuration : l.configuration = c
  parent? : l.parent? = parent
  ascending : (calls.map (·.1)).Pairwise (· < ·)
  mem_iff : ∀ n, n ∈ calls.map (·.1) ↔ n ∈ c.modules
  apart : ∀ n ∈ calls.map (·.1), ∀ q ∈ c.parents, ¬ q.isVisible n = true
  apart_parent : ∀ p, parent = some p → ∀ n ∈ calls.map (·.1), n ∉ p.configuration.modules
  answered : ∀ n x, (n, some x) ∈ calls → l.findLoader? n = some x
  inherited : ∀ n, (∀ x, (n, some x) ∉ calls) → l.findLoader? n = parent.bind (findLoader? n)

variable {c : Configuration} {parent : Option Layer} {bind : String → StateM σ (Option String)}
  {s : σ} {l : Layer} {n x : String}

theorem recorded_run (bind : String → StateM σ (Option String)) (log : Answers) :
    (recorded bind n).run (s, log) =
      (((bind n).run s).1, ((bind n).run s).2, log ++ [(n, ((bind n).run s).1)]) := rfl

theorem bindAll_cons_run (bind : String → StateM σ (Option String)) (names : List String) :
    (bindAll bind (n :: names)).run s =
      ((n, ((bind n).run s).1) :: ((bindAll bind names).run ((bind n).run s).2).1,
        ((bindAll bind names).run ((bind n).run s).2).2) := rfl

/-- The calls are written down in the order of the names and change nothing else. -/
theorem bindAll_recorded_run (bind : String → StateM σ (Option String)) (names : List String)
    (s : σ) (log : Answers) :
    (bindAll (recorded bind) names).run (s, log) =
      (((bindAll bind names).run s).1, ((bindAll bind names).run s).2,
        log ++ ((bindAll bind names).run s).1) := by
  induction names generalizing s log with
  | nil => exact congrArg (fun log => ([], s, log)) (List.append_nil log).symm
  | cons n names ih =>
    rw [bindAll_cons_run, bindAll_cons_run, recorded_run, ih, List.append_assoc,
      List.singleton_append]

/-- Writing the calls down changes neither the layer nor the state, and there are none for a
parent layer that does not fit. -/
theorem create_recorded_run (c : Configuration) (parent : Option Layer)
    (bind : String → StateM σ (Option String)) (s : σ) :
    (create c parent (recorded bind)).run (s, []) =
      (((create c parent bind).run s).1, ((create c parent bind).run s).2,
        if parent.all (fits c) then answers c bind s else []) := by
  have ha : answers c (recorded bind) (s, []) = answers c bind s := by
    rw [answers, bindAll_recorded_run, answers]
  rw [create_run, create_run, ha, bindAll_recorded_run]
  split
  · rfl
  · rfl

theorem calls_eq : calls c parent bind s = if parent.all (fits c) then answers c bind s else [] :=
  congrArg (·.2.2) (create_recorded_run c parent bind s)

theorem mismatch_iff : Mismatch c parent ↔ ¬ parent.all (fits c) = true := by
  cases parent with
  | none => simp [Mismatch]
  | some p =>
    rw [Option.all_some, fits_iff, not_or, not_forall_not]
    simp [Mismatch]

/-- A layer asks its own loaders first and then the layer below. -/
theorem findLoader?_eq_or (n : String) (l : Layer) :
    l.findLoader? n = (l.top.loaders.get? n).or (l.parent?.bind (findLoader? n)) := by
  obtain ⟨f, fs⟩ := l
  rw [findLoader?, frames, List.findSome?_cons]
  cases fs with
  | nil => cases f.loaders.get? n <;> rfl
  | cons g fs => cases f.loaders.get? n <;> rfl

theorem not_mem_of_fits (hc : c.Reachable) {p : Layer} (hp : fits c p = true)
    (hn : n ∈ c.modules) : n ∉ p.configuration.modules := by
  rcases fits_iff.1 hp with hp | hp
  · exact fun h => hc.coherent.apart n hn _ hp (isVisible_of_mem h)
  · exact hp n

theorem answered_of_fits (hc : c.Reachable) (hf : parent.all (fits c) = true)
    (bind : String → StateM σ (Option String)) (s : σ) :
    Answered c parent (answers c bind s)
      ⟨⟨c, loadersOf (answers c bind s)⟩, (parent.map frames).getD []⟩ := by
  have hb := bound_answers hc bind s
  have hparent : parent? ⟨⟨c, loadersOf (answers c bind s)⟩, (parent.map frames).getD []⟩ =
      parent := by
    cases parent <;> rfl
  have hmem : ∀ n ∈ (answers c bind s).map (·.1), n ∈ c.modules := fun n hn =>
    NameMap.mem_keys.1 (hb.names ▸ hn)
  refine ⟨rfl, hparent, ?_, fun n => ?_, fun n hn => hc.coherent.apart n (hmem n hn), ?_,
    fun n x hx => ?_, fun n hn => ?_⟩
  · rw [hb.names]
    exact c.modules.ascending_keys
  · rw [hb.names, NameMap.mem_keys]
  · rintro p rfl n hn
    exact not_mem_of_fits hc hf (hmem n hn)
  · rw [findLoader?_eq_or, hb.get?_loaders_iff.2 hx, Option.some_or]
  -- The layer has no loader for a name that got none, nor for one that was not asked for.
  · have hnone : (loadersOf (answers c bind s)).get? n = none :=
      Option.eq_none_iff_forall_ne_some.2 fun x hx => hn x (hb.get?_loaders_iff.1 hx)
    rw [findLoader?_eq_or, hnone, Option.none_or, hparent]

/-- Making a layer fails exactly where the parent does not fit, before any call. Otherwise each
module of the configuration is asked for once, in the order of names, and the answers are the
loaders found ahead of those below. -/
theorem create_calls (hc : c.Reachable) (parent : Option Layer)
    (bind : String → StateM σ (Option String)) (s : σ) :
    (create c parent (recorded bind)).run (s, []) =
        (((create c parent bind).run s).1, ((create c parent bind).run s).2,
          calls c parent bind s) ∧
      (((create c parent bind).run s).1 = .error .parentMismatch ↔ Mismatch c parent) ∧
      (Mismatch c parent → calls c parent bind s = [] ∧ ((create c parent bind).run s).2 = s) ∧
      (¬ Mismatch c parent → ∃ l, ((create c parent bind).run s).1 = .ok l ∧
        Answered c parent (calls c parent bind s) l) := by
  have hrun := create_recorded_run c parent bind s
  rw [← calls_eq] at hrun
  refine ⟨hrun, ?_⟩
  rw [calls_eq, create_run, mismatch_iff]
  by_cases hf : parent.all (fits c) = true
  · rw [if_pos hf, if_pos hf]
    refine ⟨iff_of_false nofun (not_not_intro hf), fun h => (h hf).elim, fun _ => ?_⟩
    exact ⟨_, rfl, answered_of_fits hc hf bind s⟩
  · rw [if_neg hf, if_neg hf]
    exact ⟨iff_of_true rfl hf, fun _ => ⟨rfl, rfl⟩, fun h => (h hf).elim⟩

/-- A binding function that numbers the loaders that it gives, and gives every other time none. -/
def numbered (n : String) : StateM Nat (Option String) := fun k =>
  (if k % 2 = 0 then some (n ++ toString k) else none, k + 1)

theorem create_calls_app : app.Reachable ∧
    calls app (some coreLayer) numbered 0 = [("app", some "app0")] ∧
    (∃ l, ((create app (some coreLayer) numbered).run 0).1 = .ok l ∧
      l.findLoader? "app" = some "app0" ∧ l.findLoader? "core" = some "platform") ∧
    ((create app (some appLayer) numbered).run 0).1 = .error .parentMismatch ∧
    calls app (some appLayer) numbered 0 = [] := by
  have hcalls : calls app (some coreLayer) numbered 0 = [("app", some "app0")] := by rfl
  obtain ⟨-, -, -, hok⟩ := create_calls stacked_app.reachable (some coreLayer) numbered 0
  obtain ⟨-, hbad, hnone, -⟩ := create_calls stacked_app.reachable (some appLayer) numbered 0
  have hm : Mismatch app (some appLayer) := ⟨appLayer, rfl, by decide, "app", by decide⟩
  obtain ⟨l, hl, ha⟩ := hok fun h => mismatch_iff.1 h (by rfl)
  rw [hcalls] at ha
  refine ⟨stacked_app.reachable, hcalls, ⟨l, hl, ha.answered "app" "app0" (by simp), ?_⟩,
    hbad.2 hm, (hnone hm).1⟩
  rw [ha.inherited "core" (by simp)]
  rfl

end ModuleGraph.Layer
