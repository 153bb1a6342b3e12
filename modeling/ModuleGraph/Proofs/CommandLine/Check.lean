import ModuleGraph.CommandLine
import ModuleGraph.Proofs.Access.Checker
import ModuleGraph.Proofs.CommandLine.Graph
import ModuleGraph.Proofs.CommandLine.Request
import ModuleGraph.Proofs.CommandLine.Style

/-! # What a check prints

A status of 0 and the line of a permission come together, and only from the verdict of the
configuration that the manifests resolve to. A failure on the way there prints nothing, so that it
cannot be taken for a verdict.
-/

namespace ModuleGraph.CommandLine

/-- The access that a check asks about. The first unnamed module is that of the boot loader. -/
def queryOf (requester? : Option String) (target : String) (subject : Subject) : AccessQuery where
  requester := match requester? with
    | some n => .named n
    | none => .unnamed 1
  target := .named target
  package := match subject with
    | .package p => p
    | .type t => packageOf t

/-- The manifests of a graph resolve, to a configuration with some verdict on a query. -/
def GraphOptions.Answers (files : Files) (g : GraphOptions) (q : AccessQuery) (a : Access) : Prop :=
  ∃ c, g.Configures files c ∧ Access.check c q.requester q.target q.package = a

def permittedLine (colored : Bool) (q : AccessQuery) : String :=
  bold colored "\x1b[32m" "permitted" ++ ": " ++ q.requester.text ++
    " may access " ++ q.package ++ " in " ++ q.target.text ++ "\n"

def deniedLine (colored : Bool) (denial : String) : String :=
  bold colored "\x1b[31m" "denied" ++ ": " ++ denial ++ "\n"

variable {files : Files} {environment : String → Option String} {args : List String}
  {g : GraphOptions} {requester? : Option String} {target : String} {subject : Subject}
  {colored : Bool} {color denial : String} {q : AccessQuery} {a b : Access} {c : Configuration}
  {f : Failure}

theorem GraphOptions.Answers.unique (h : g.Answers files q a) (h' : g.Answers files q b) :
    a = b := by
  obtain ⟨c, hc, rfl⟩ := h
  obtain ⟨c', hc', rfl⟩ := h'
  rw [hc.unique hc']

/-! ### Lines that differ -/

theorem append_ne_append {s t x y : String} (h : ¬ s.toList <+: t.toList)
    (h' : ¬ t.toList <+: s.toList) : s ++ x ≠ t ++ y := by
  intro he
  have hl : s.toList ++ x.toList = t.toList ++ y.toList := by
    rw [← String.toList_append, he, String.toList_append]
  have hs : s.toList <+: t.toList ++ y.toList := hl ▸ List.prefix_append ..
  rcases List.prefix_or_prefix_of_prefix hs (List.prefix_append ..) with hp | hp
  · exact h hp
  · exact h' hp

theorem permittedLine_ne_deniedLine : permittedLine colored q ≠ deniedLine colored denial := by
  simp only [permittedLine, deniedLine, String.append_assoc]
  cases colored with
  | false => exact append_ne_append (by decide) (by decide)
  | true => exact append_ne_append (by decide) (by decide)

theorem deniedLine_ne_empty : deniedLine colored denial ≠ "" := by
  rw [deniedLine, Ne, String.append_eq_empty_iff]
  exact fun h => absurd h.2 (by decide)

theorem permittedLine_ne_empty : permittedLine colored q ≠ "" := by
  rw [permittedLine, Ne, String.append_eq_empty_iff]
  exact fun h => absurd h.2 (by decide)

/-- What the contexts of failures other than those of layers start with. -/
def contextHeads : List String := ["Failed to load ", "Invalid manifest ", "Failed to resolve "]

theorem exists_context_eq (h : ∀ e, f ≠ .layer e) :
    ∃ head ∈ contextHeads, ∃ path, f.context = head ++ path := by
  cases f with
  | load path e => exact ⟨"Failed to load ", by simp [contextHeads], path, rfl⟩
  | library path e => exact ⟨"Invalid manifest ", by simp [contextHeads], path, rfl⟩
  | resolve path e => exact ⟨"Failed to resolve ", by simp [contextHeads], path, rfl⟩
  | layer e => exact absurd rfl (h e)

theorem report_ne_parentMismatch (h : ∀ e, f ≠ .layer e) :
    f.report ≠ (Failure.layer .parentMismatch).report := by
  obtain ⟨rest, hr⟩ : ∃ rest, f.report = "Error: " ++ f.context ++ rest ++ "\n" := ⟨_, rfl⟩
  have hp : (Failure.layer .parentMismatch).report = "Error: " ++ ("Parent " ++
    "layer configuration is not a parent of the layer configuration\n") := by decide
  have hn : ∀ head ∈ contextHeads, ¬ head.toList <+: "Parent ".toList ∧
    ¬ "Parent ".toList <+: head.toList := by decide
  obtain ⟨head, hh, path, hc⟩ := exists_context_eq h
  rw [hr, hp, hc, String.append_assoc, String.append_assoc, String.append_assoc, Ne,
    String.append_right_inj]
  exact append_ne_append (hn head hh).1 (hn head hh).2

/-! ### The run of the program -/

theorem render_verdictSpans : render colored (verdictSpans q.requester q.target q.package a) =
    match a.denial? q.requester q.target q.package with
    | none => permittedLine colored q
    | some denial => deniedLine colored denial := by
  rw [verdictSpans]
  cases a.denial? q.requester q.target q.package with
  | none => simp [permittedLine, newline, render_success, String.append_assoc]
  | some denial => simp [deniedLine, newline, render_failure, String.append_assoc]

theorem denial?_eq_none_iff {requester target : ModuleRef} {package : String} :
    a.denial? requester target package = none ↔ a = .permitted := by
  cases a <;> simp [Access.denial?]

theorem queryOf_eq (requester? : Option String) (target : String) (subject : Subject) :
    queryOf requester? target subject =
      ⟨requesterOf requester?, .named target, subject.packageName⟩ := by
  cases requester? <;> cases subject <;> rfl

/-- Where a layer is built, the verdict of its configuration is told. -/
theorem execute_check_of_ok {l : Layer} (hl : buildLayer files g = .ok l) :
    execute files colored (.check g requester? target subject) =
      let q := queryOf requester? target subject
      let a := q.verdict l.configuration
      { status := if a.isPermitted then 0 else 1,
        output := render colored (verdictSpans q.requester q.target q.package a) } := by
  have hv := ((Checker.keeps_new l.configuration).check (queryOf requester? target subject)).1
  have hc : check files g requester? target subject =
      .ok (((queryOf requester? target subject).verdict l.configuration).isPermitted,
        verdictSpans (requesterOf requester?) (.named target) subject.packageName
          ((queryOf requester? target subject).verdict l.configuration)) := by
    rw [check, hl]
    dsimp only [bind, Except.bind]
    rw [queryOf_eq] at hv ⊢
    rw [hv]
    rfl
  rw [execute, hc]
  rfl

theorem execute_check_of_error (hf : buildLayer files g = .error f) :
    execute files colored (.check g requester? target subject) =
      { status := 1, output := "", report? := some f.report } := by
  rw [execute, check, hf]
  rfl

structure Outcome.Tells (o : Outcome) (colored : Bool) (q : AccessQuery)
    (answers : Access → Prop) : Prop where
  status_zero : o.status = 0 ↔ answers .permitted
  permitted : o.output = permittedLine colored q ↔ answers .permitted
  status_one : ¬ answers .permitted → o.status = 1
  denied : (∃ denial, o.output = deniedLine colored denial) ↔ ∃ a, a ≠ .permitted ∧ answers a
  reason : ∀ a denial, answers a → a.denial? q.requester q.target q.package = some denial →
    o.output = deniedLine colored denial
  silent : (∀ a, ¬ answers a) → o.output = ""
  fits : o.report? ≠ some (Failure.layer .parentMismatch).report

theorem tells_permitted (colored : Bool) (q : AccessQuery) :
    Outcome.Tells { status := 0, output := permittedLine colored q } colored q (· = .permitted)
    where
  status_zero := iff_of_true rfl rfl
  permitted := iff_of_true rfl rfl
  status_one := fun h => absurd rfl h
  denied := by
    refine iff_of_false ?_ ?_
    · rintro ⟨denial, h⟩
      exact permittedLine_ne_deniedLine h
    · rintro ⟨a, hne, ha⟩
      exact hne ha
  reason := by
    rintro a denial rfl h
    cases h
  silent := fun h => absurd rfl (h .permitted)
  fits := nofun

theorem tells_denied (colored : Bool) (ha : a.denial? q.requester q.target q.package = some denial) :
    Outcome.Tells { status := 1, output := deniedLine colored denial } colored q (· = a) := by
  have hne : a ≠ .permitted := by
    rintro rfl
    cases ha
  exact {
    status_zero := iff_of_false Nat.one_ne_zero hne.symm
    permitted := iff_of_false permittedLine_ne_deniedLine.symm hne.symm
    status_one := fun _ => rfl
    denied := iff_of_true ⟨denial, rfl⟩ ⟨a, hne, rfl⟩
    reason := by
      rintro _ denial' rfl h
      rw [Option.some.inj (ha.symm.trans h)]
    silent := fun h => absurd rfl (h a)
    fits := nofun }

theorem tells_verdict (colored : Bool) (q : AccessQuery) (a : Access) :
    Outcome.Tells
      { status := if a.isPermitted then 0 else 1,
        output := render colored (verdictSpans q.requester q.target q.package a) }
      colored q (· = a) := by
  rw [render_verdictSpans]
  cases ha : a.denial? q.requester q.target q.package with
  | none =>
    obtain rfl := denial?_eq_none_iff.1 ha
    exact tells_permitted colored q
  | some denial =>
    have hp : a.isPermitted = false := by
      rw [Access.isPermitted, decide_eq_false_iff_not, ← denial?_eq_none_iff, ha]
      exact Option.some_ne_none denial
    rw [hp]
    exact tells_denied colored ha

theorem tells_failure (colored : Bool) (q : AccessQuery) (h : ∀ e, f ≠ .layer e) :
    Outcome.Tells { status := 1, output := "", report? := some f.report } colored q
      fun _ => False where
  status_zero := iff_of_false Nat.one_ne_zero id
  permitted := iff_of_false permittedLine_ne_empty.symm id
  status_one := fun _ => rfl
  denied := by
    refine iff_of_false ?_ ?_
    · rintro ⟨denial, h⟩
      exact deniedLine_ne_empty h.symm
    · rintro ⟨a, -, ha⟩
      exact ha
  reason := fun _ _ ha => ha.elim
  silent := fun _ => rfl
  fits := fun hr => report_ne_parentMismatch h (Option.some.inj hr)

/-- A check exits with 0 and prints a permission exactly if the manifests resolve to a
configuration that permits the access. It prints a denial exactly if that configuration denies it,
and else nothing; then too it is not for want of a parent that it fails. -/
theorem run_check (ha : Asks args (.check g requester? target subject) color) :
    (run files environment args).Tells (isColored environment color)
      (queryOf requester? target subject)
      (g.Answers files (queryOf requester? target subject)) := by
  rw [run, request?_eq_command_iff.2 ha]
  dsimp only
  generalize isColored environment color = colored
  rcases buildLayer_cases files g with ⟨c, parent, hc, hl⟩ | ⟨hn, f, hf, hne⟩
  · have ho : g.Answers files (queryOf requester? target subject) =
        (· = (queryOf requester? target subject).verdict c) := by
      funext a
      refine propext ⟨fun h => h.unique ⟨c, hc, rfl⟩, ?_⟩
      rintro rfl
      exact ⟨c, hc, rfl⟩
    rw [execute_check_of_ok hl, ho]
    exact tells_verdict colored _ _
  · have ho : g.Answers files (queryOf requester? target subject) = fun _ => False := by
      funext a
      refine propext (iff_of_false ?_ id)
      rintro ⟨c, hc, -⟩
      exact hn c hc
    rw [execute_check_of_error hf, ho]
    exact tells_failure colored _ hne

def strayModule : Descriptor where
  name := "stray"
  requires := .ofList ["missing"]
  exports := ∅
  concealed := ∅

/-- A manifest for `core` and one for `app`, which requires it. Beside each is a module that does
not resolve. -/
def twoFiles : Files := fun path =>
  let d := if path = "core.toml" then Configuration.coreModule else Configuration.appModule
  .ok (Manifest.ofDescriptors [d, strayModule]).text.toUTF8

def appLibrary : Library := .ofList [("app", Configuration.appModule), ("stray", strayModule)]

def coreLibrary : Library := .ofList [("core", Configuration.coreModule), ("stray", strayModule)]

theorem declares_appLibrary :
    (Manifest.ofDescriptors [Configuration.appModule, strayModule]).Declares appLibrary :=
  Manifest.declares_of_library (by rfl)

theorem configures_core : Configures (twoFiles "core.toml") 0 ["core"] [] Configuration.core := by
  have hl : (Manifest.ofDescriptors [Configuration.coreModule, strayModule]).library =
      .ok coreLibrary := by rfl
  exact ⟨_, _, Manifest.isIn_text _, Manifest.declares_of_library hl, by rfl⟩

theorem configures_app : GraphOptions.Configures twoFiles
    ⟨"app.toml", ["app"], some "core.toml", ["core"]⟩ Configuration.app := by
  have happ : Configures (twoFiles "app.toml") 1 ["app"] [Configuration.core] Configuration.app :=
    ⟨_, _, Manifest.isIn_text _, declares_appLibrary, by rfl⟩
  exact .onParent rfl configures_core happ

/-- Without roots the module beside `app` is resolved too. -/
theorem not_configures_app (c : Configuration) :
    ¬ GraphOptions.Configures twoFiles ⟨"app.toml", [], some "core.toml", ["core"]⟩ c := by
  rintro (⟨hp, -⟩ | ⟨hp, hq, hc⟩)
  · cases hp
  · cases hp
    obtain rfl := hq.unique configures_core
    obtain ⟨m, lib, hm, hl, ho⟩ := hc
    obtain rfl := hm.unique (Manifest.isIn_text _)
    obtain rfl := hl.unique declares_appLibrary
    have he : ((Resolver.resolve ⟨.library appLibrary, .empty, [Configuration.core]⟩ 1
        ["app", "stray"]).outcome) = .error (.moduleNotFound "missing" (some "stray")) := by rfl
    cases ho.symm.trans he

def checkArguments (more : List String) : List String :=
  ["check", "app.toml", "--parent", "core.toml", "--parent-root", "core", "--to", "core"] ++ more

def checkApp (more : List String) : Outcome := run twoFiles (fun _ => none) (checkArguments more)

theorem run_check_app :
    (checkApp ["--root", "app", "--from", "app", "--type", "core.spi.Client"]).status = 0 ∧
    (checkApp ["--root", "app", "--from", "app", "--type", "core.spi.Client"]).output =
      "permitted: module app may access core.spi in module core\n" ∧
    (checkApp ["-r", "app", "--from-unnamed", "--package", "core.spi"]).status = 1 ∧
    (checkApp ["-r", "app", "--from-unnamed", "--package", "core.spi"]).output =
      "denied: module core does not export core.spi to unnamed module #1\n" ∧
    (checkApp ["--from", "app", "--type", "core.spi.Client"]).status = 1 ∧
    (checkApp ["--from", "app", "--type", "core.spi.Client"]).output = "" := by
  have hn : Asks (checkArguments ["--root", "app", "--from", "app", "--type", "core.spi.Client"])
      (.check ⟨"app.toml", ["app"], some "core.toml", ["core"]⟩ (some "app") "core"
        (.type "core.spi.Client")) "auto" := request?_eq_command_iff.1 (by rfl)
  have hu : Asks (checkArguments ["-r", "app", "--from-unnamed", "--package", "core.spi"])
      (.check ⟨"app.toml", ["app"], some "core.toml", ["core"]⟩ none "core"
        (.package "core.spi")) "auto" := request?_eq_command_iff.1 (by rfl)
  have hw : Asks (checkArguments ["--from", "app", "--type", "core.spi.Client"])
      (.check ⟨"app.toml", [], some "core.toml", ["core"]⟩ (some "app") "core"
        (.type "core.spi.Client")) "auto" := request?_eq_command_iff.1 (by rfl)
  have tn := @run_check twoFiles (fun _ => none) _ _ _ _ _ _ hn
  have tu := @run_check twoFiles (fun _ => none) _ _ _ _ _ _ hu
  have tw := @run_check twoFiles (fun _ => none) _ _ _ _ _ _ hw
  have hp : GraphOptions.Answers twoFiles ⟨"app.toml", ["app"], some "core.toml", ["core"]⟩
      (queryOf (some "app") "core" (.type "core.spi.Client")) .permitted :=
    ⟨_, configures_app, by decide⟩
  have hd : GraphOptions.Answers twoFiles ⟨"app.toml", ["app"], some "core.toml", ["core"]⟩
      (queryOf none "core" (.package "core.spi")) .deniedNotExported :=
    ⟨_, configures_app, by decide⟩
  have hs : ∀ a, ¬ GraphOptions.Answers twoFiles ⟨"app.toml", [], some "core.toml", ["core"]⟩
      (queryOf (some "app") "core" (.type "core.spi.Client")) a :=
    fun a ⟨c, hc, _⟩ => not_configures_app c hc
  refine ⟨tn.status_zero.2 hp, (tn.permitted.2 hp).trans (by decide), tu.status_one ?_,
    (tu.reason _ _ hd rfl).trans (by decide), tw.status_one (hs _), tw.silent hs⟩
  intro hp'
  cases hd.unique hp'

end ModuleGraph.CommandLine
