import ModuleGraph.CommandLine.Request
import ModuleGraph.Proofs.CommandLine.Arguments

/-! # What arguments ask for

Arguments ask for a command exactly if they are laid out for it: options in front of its name, then
options and one path behind it. Each part of the command is the value of one option.
-/

namespace ModuleGraph.CommandLine

/-- Arguments with a command's name, options in front of it, and options and a path behind it. -/
structure Calls (args : List String) (name : String) (names : List String)
    (outer inner : List (String × String)) (path : String) : Prop where
  layout : ∃ front back, args = front ++ name :: back ∧
    Options ["log", "color"] outer front ∧ Operands names inner [path] back
  outer_consistent : Consistent outer
  inner_consistent : Consistent inner
  path_ne_empty : path ≠ ""

def graphNames : List String := ["log", "color", "root", "parent", "parent-root"]

def checkNames : List String := graphNames ++ ["from", "from-unnamed", "to", "package", "type"]

/-- The choice of color. Behind the command it counts more than in front. -/
def colorOf (outer inner : List (String × String)) : String :=
  (valuesOf "color" inner ++ valuesOf "color" outer).headD "auto"

def WantsJson (json : Bool) (os : List (String × String)) : Prop :=
  json = true ↔ valuesOf "format" os = ["json"]

structure GraphOptions.Fits (g : GraphOptions) (path : String) (os : List (String × String)) :
    Prop where
  manifest : g.manifest = path
  roots : g.roots = valuesOf "root" os
  parent : g.parent?.toList = valuesOf "parent" os
  parentRoots : g.parentRoots = valuesOf "parent-root" os
  needs_parent : g.parentRoots ≠ [] → g.parent? ≠ none

/-- A requester is named, or the flag says that it is not. -/
def FitsRequester : Option String → List (String × String) → Prop
  | some n, os => valuesOf "from" os = [n] ∧ valuesOf "from-unnamed" os = []
  | none, os => valuesOf "from" os = [] ∧ valuesOf "from-unnamed" os ≠ []

def Subject.Fits : Subject → List (String × String) → Prop
  | package p, os => valuesOf "package" os = [p] ∧ valuesOf "type" os = []
  | type t, os => valuesOf "package" os = [] ∧ valuesOf "type" os = [t]

/-- Arguments laid out for a command, with a choice of color. -/
inductive Asks : List String → Command → String → Prop
  | describe {args : List String} {outer inner : List (String × String)} {path : String}
      {json : Bool} : Calls args "describe" ["log", "color", "format"] outer inner path →
      WantsJson json inner → Asks args (.describe path json) (colorOf outer inner)
  | resolve {args : List String} {outer inner : List (String × String)} {path : String}
      {g : GraphOptions} {json : Bool} :
      Calls args "resolve" ("format" :: graphNames) outer inner path → g.Fits path inner →
      WantsJson json inner → Asks args (.resolve g json) (colorOf outer inner)
  | check {args : List String} {outer inner : List (String × String)} {path target : String}
      {g : GraphOptions} {requester? : Option String} {subject : Subject} :
      Calls args "check" checkNames outer inner path → g.Fits path inner →
      FitsRequester requester? inner → valuesOf "to" inner = [target] → subject.Fits inner →
      Asks args (.check g requester? target subject) (colorOf outer inner)

variable {args names : List String} {name path target color : String} {s : Switch}
  {switches : List Switch} {outer inner g : Given} {os os' : List (String × String)}
  {graph : GraphOptions} {c : Command} {json : Bool}

/-! ### Values of options -/

theorem valuesOf_named (s : Switch) (l : List (Switch × String)) :
    valuesOf s.long (named l) = (l.filter (·.1 = s)).map (·.2) := by
  simp [valuesOf, named, List.filter_map, Function.comp_def, Switch.long_inj]

namespace Given

theorem values_eq (g : Given) (s : Switch) : g.values s = valuesOf s.long (named g.switches) :=
  (valuesOf_named s g.switches).symm

theorem value?_eq (g : Given) (s : Switch) :
    g.value? s = (valuesOf s.long (named g.switches)).head? := by
  rw [valuesOf_named, value?]
  induction g.switches with
  | nil => rfl
  | cons e l ih =>
    rcases e with ⟨t, v⟩
    by_cases h : t = s
    · simp [h]
    · have h' : (s == t) = false := by simpa using Ne.symm h
      simp [h, h', List.lookup_cons, ih]

end Given

theorem Consistent.length_valuesOf_le (h : Consistent os)
    (hn : name ∉ ["root", "parent-root"]) : (valuesOf name os).length ≤ 1 := by
  have hp : (os.filter (·.1 = name)).Pairwise fun a b =>
      a.1 = b.1 → a.1 ∈ ["root", "parent-root"] := h.once.sublist List.filter_sublist
  have hm : ∀ o ∈ os.filter (·.1 = name), o.1 = name := fun o ho => by
    simpa using (List.mem_filter.1 ho).2
  rw [valuesOf, List.length_map]
  cases hl : os.filter (·.1 = name) with
  | nil => exact Nat.zero_le 1
  | cons a l =>
    rw [hl] at hp hm
    cases l with
    | nil => exact Nat.le_refl 1
    | cons b l =>
      have ha := hm a List.mem_cons_self
      have hb := hm b (List.mem_cons_of_mem _ List.mem_cons_self)
      have hr := (List.pairwise_cons.1 hp).1 b List.mem_cons_self (ha.trans hb.symm)
      rw [ha] at hr
      exact absurd hr hn

namespace Given

theorem toList_value? (hc : Consistent (named g.switches))
    (hs : s.long ∉ ["root", "parent-root"]) :
    (g.value? s).toList = valuesOf s.long (named g.switches) := by
  have hl := hc.length_valuesOf_le hs
  rw [value?_eq]
  match valuesOf s.long (named g.switches), hl with
  | [], _ => rfl
  | [v], _ => rfl

theorem value?_eq_some_iff (hc : Consistent (named g.switches))
    (hs : s.long ∉ ["root", "parent-root"]) {v : String} :
    g.value? s = some v ↔ valuesOf s.long (named g.switches) = [v] := by
  rw [← toList_value? hc hs, Option.toList_eq_singleton_iff]

theorem value?_eq_none_iff : g.value? s = none ↔ valuesOf s.long (named g.switches) = [] := by
  rw [value?_eq, List.head?_eq_none_iff]

theorem has_eq_true_iff : g.has s = true ↔ valuesOf s.long (named g.switches) ≠ [] := by
  rw [has, Option.isSome_iff_ne_none, Ne, value?_eq_none_iff]

theorem has_eq_false_iff : g.has s = false ↔ valuesOf s.long (named g.switches) = [] := by
  rw [← Bool.not_eq_true, has_eq_true_iff, not_ne_iff]

end Given

/-! ### The parts of a command -/

theorem wantsJson_iff (hc : Consistent (named g.switches)) :
    WantsJson (wantsJson g) (named g.switches) := by
  rw [WantsJson, wantsJson, decide_eq_true_eq]
  exact Given.value?_eq_some_iff hc (by decide)

theorem WantsJson.unique {json' : Bool} (h : WantsJson json os) (h' : WantsJson json' os) :
    json = json' :=
  Bool.eq_iff_iff.2 (h.trans h'.symm)

theorem GraphOptions.Fits.unique {graph' : GraphOptions} (h : graph.Fits path os)
    (h' : graph'.Fits path os) : graph = graph' := by
  obtain ⟨m, r, p, q⟩ := graph
  obtain ⟨m', r', p', q'⟩ := graph'
  obtain rfl : m = m' := h.manifest.trans h'.manifest.symm
  obtain rfl : r = r' := h.roots.trans h'.roots.symm
  obtain rfl : p = p' := by
    have hp := h.parent.trans h'.parent.symm
    cases p <;> cases p' <;> simp_all
  obtain rfl : q = q' := h.parentRoots.trans h'.parentRoots.symm
  rfl

theorem graphOptions?_eq_some_iff (hc : Consistent (named g.switches)) (hp : g.path? = some path) :
    graphOptions? g = some graph ↔ graph.Fits path (named g.switches) := by
  have hroots : ∀ h : graph.Fits path (named g.switches), g.has .parentRoot = true →
      g.has .parent = true := by
    intro h hr
    rw [Given.has_eq_true_iff] at hr ⊢
    have hne := h.needs_parent (h.parentRoots ▸ hr)
    rwa [Switch.long, ← h.parent, Ne, Option.toList_eq_nil_iff]
  rw [graphOptions?, hp]
  dsimp only [bind, Option.bind]
  split_ifs with h
  · refine iff_of_false nofun fun hf => h.2 (hroots hf h.1)
  · have hf : GraphOptions.Fits
        ⟨path, g.values .root, g.value? .parent, g.values .parentRoot⟩ path (named g.switches) := by
      refine ⟨rfl, g.values_eq _, Given.toList_value? hc (by decide), g.values_eq _, ?_⟩
      intro hr
      have hr : g.has .parentRoot = true := Given.has_eq_true_iff.2 (g.values_eq .parentRoot ▸ hr)
      have hp : g.has .parent = true := by simpa [hr] using h
      exact Option.isSome_iff_ne_none.1 hp
    constructor
    · intro he
      exact Option.some.inj he ▸ hf
    · intro hg
      exact congrArg some (hf.unique hg)

theorem subject?_eq_some_iff (hc : Consistent (named g.switches)) {subject : Subject} :
    subject? g = some subject ↔ subject.Fits (named g.switches) := by
  have hpackage : (g.value? .package).toList = valuesOf "package" (named g.switches) :=
    Given.toList_value? hc (by decide)
  have htype : (g.value? .typeName).toList = valuesOf "type" (named g.switches) :=
    Given.toList_value? hc (by decide)
  rw [subject?]
  cases subject <;> rw [Subject.Fits, ← hpackage, ← htype] <;>
    cases g.value? .package <;> cases g.value? .typeName <;> simp

theorem fitsRequester_iff (hc : Consistent (named g.switches)) {requester? : Option String} :
    FitsRequester requester? (named g.switches) ↔
      g.value? .requester = requester? ∧ g.has .unnamedRequester = requester?.isNone := by
  have hfrom : ∀ n, valuesOf "from" (named g.switches) = [n] ↔ g.value? .requester = some n :=
    fun n => (Given.value?_eq_some_iff (s := .requester) hc (by decide)).symm
  have hnone : valuesOf "from" (named g.switches) = [] ↔ g.value? .requester = none :=
    (Given.value?_eq_none_iff (s := .requester)).symm
  have hflag : valuesOf "from-unnamed" (named g.switches) = [] ↔
      g.has .unnamedRequester = false :=
    (Given.has_eq_false_iff (s := .unnamedRequester)).symm
  cases requester? with
  | none => rw [FitsRequester, hnone, Ne, hflag, Bool.not_eq_false, Option.isNone_none]
  | some n => rw [FitsRequester, hfrom, hflag, Option.isNone_some]

theorem check?_eq_some_iff (hc : Consistent (named g.switches)) (hp : g.path? = some path) :
    check? g = some c ↔ ∃ graph requester? target subject, graph.Fits path (named g.switches) ∧
      FitsRequester requester? (named g.switches) ∧
      valuesOf "to" (named g.switches) = [target] ∧ subject.Fits (named g.switches) ∧
      .check graph requester? target subject = c := by
  have hto : ∀ target, g.value? .target = some target ↔
      valuesOf "to" (named g.switches) = [target] := fun target =>
    Given.value?_eq_some_iff hc (by decide)
  simp only [← graphOptions?_eq_some_iff hc hp, ← subject?_eq_some_iff hc, ← hto,
    fitsRequester_iff hc, and_assoc]
  rw [check?]
  cases graphOptions? g <;> cases g.value? .target <;> cases subject? g <;>
    cases g.value? .requester <;> cases g.has .unnamedRequester <;> simp

/-! ### The layout of a command -/

/-- The options in front of a command's name and those behind it, as they are read. -/
def Reads (args : List String) (name : String) (switches : List Switch) (outer inner : Given) :
    Prop :=
  ∃ o i back left, scan outerSwitches true {} args = some (.given o (name :: back)) ∧
    scan switches false {} back = some (.given i left) ∧ o.settle? = some outer ∧
    i.settle? = some inner

theorem isHelpRequest_of_commandOf? {spec : List Switch × (Given → Option Command)}
    (h : commandOf? name = some spec) (rest : List String) :
    isHelpRequest (name :: rest) = false := by
  unfold isHelpRequest
  split
  · next he =>
    cases he
    cases h
  · next he =>
    cases he
    cases h
  · rfl

theorem request?_eq_command_iff_reads : request? args = some (.command c color) ↔
    ∃ name switches command? outer inner, commandOf? name = some (switches, command?) ∧
      Reads args name switches outer inner ∧ command? inner = some c ∧
      ((inner.value? .color).or (outer.value? .color)).getD "auto" = color := by
  constructor
  · intro h
    obtain ⟨r, hs, h⟩ := Option.bind_eq_some_iff.1 h
    cases r with
    | notice s =>
      obtain he := Option.some.inj h
      cases s <;> cases he
    | given o left =>
      cases left with
      | nil => cases h
      | cons name back =>
        dsimp only at h
        split_ifs at h with hh
        · cases h
        obtain ⟨⟨switches, command?⟩, hn, h⟩ := Option.bind_eq_some_iff.1 h
        obtain ⟨r, hs', h⟩ := Option.bind_eq_some_iff.1 h
        cases r with
        | notice s =>
          obtain he := Option.some.inj h
          cases s <;> cases he
        | given i left =>
          obtain ⟨inner, hi, h⟩ := Option.bind_eq_some_iff.1 h
          obtain ⟨command, hc, h⟩ := Option.bind_eq_some_iff.1 h
          obtain ⟨outer, ho, h⟩ := Option.bind_eq_some_iff.1 h
          cases h
          exact ⟨name, switches, command?, outer, inner, hn, ⟨o, i, back, left, hs, hs', ho, hi⟩,
            hc, rfl⟩
  · rintro ⟨name, switches, command?, outer, inner, hn, ⟨o, i, back, left, hs, hs', ho, hi⟩, hc,
      rfl⟩
    have hh : isHelpRequest (name :: back) = false := isHelpRequest_of_commandOf? hn _
    rw [request?, hs]
    simp [hh, hn, hs', hi, hc, ho]

theorem consistent_nil : Consistent (named ({} : Given).switches) := ⟨.nil, nofun⟩

theorem Calls.exists_reads (switches : List Switch)
    (h : Calls args name (namesOf switches) os os' path) (hw : IsWord name) : ∃ outer inner,
      Reads args name switches outer inner ∧ named outer.switches = os ∧
        named inner.switches = os' ∧ inner.path? = some path := by
  obtain ⟨⟨front, back, rfl, hf, hb⟩, hos, hos', hne⟩ := h
  have hf : Options (namesOf outerSwitches) os front := hf
  obtain ⟨o, hs, ho⟩ := hf.scan consistent_nil hos hw back
  obtain ⟨i, hs', hi⟩ :=
    Operands.scan hb consistent_nil hos' (Nat.le_refl 1) (by simpa using hne.symm)
  have hoall : named o.all = os := ho.options
  have hiall : named i.all = os' := hi.options
  refine ⟨⟨o.all, o.path?, none⟩, ⟨i.all, i.path?, none⟩, ⟨o, i, back, [], hs, hs', ?_, ?_⟩,
    hoall, hiall, ?_⟩
  · exact (Given.settle?_eq_some_iff ho.sound).2 ⟨hoall ▸ hos, rfl⟩
  · exact (Given.settle?_eq_some_iff hi.sound).2 ⟨hiall ▸ hos', rfl⟩
  · exact Option.toList_eq_singleton_iff.1 hi.words

theorem Reads.calls (h : Reads args name switches outer inner) (hp : inner.path? = some path) :
    Calls args name (namesOf switches) (named outer.switches) (named inner.switches) path := by
  obtain ⟨o, i, back, left, hs, hs', ho, hi⟩ := h
  obtain ⟨os, front, rfl, hf, -, hg⟩ := exists_options consistent_nil hs
  obtain ⟨os', ws, hb, hg', hne⟩ := exists_operands consistent_nil hs'
  obtain ⟨hco, rfl⟩ := (Given.settle?_eq_some_iff hg.sound).1 ho
  obtain ⟨hci, rfl⟩ := (Given.settle?_eq_some_iff hg'.sound).1 hi
  have hws : [path] = ws := by
    rw [← Option.toList_some, ← hp]
    exact hg'.words
  have hoall : named o.all = os := hg.options
  have hiall : named i.all = os' := hg'.options
  refine ⟨⟨front, back, rfl, ?_, ?_⟩, hco, hci, ?_⟩
  · exact hoall ▸ hf
  · exact hiall ▸ hws ▸ hb
  · rintro rfl
    exact hne (hws ▸ List.mem_singleton_self _)

theorem colorOf_eq (outer inner : Given) :
    ((inner.value? .color).or (outer.value? .color)).getD "auto" =
      colorOf (named outer.switches) (named inner.switches) := by
  rw [colorOf, Given.value?_eq, Given.value?_eq, List.headD_eq_head?_getD, List.head?_append]
  rfl

theorem commandOf?_cases {command? : Given → Option Command}
    (h : commandOf? name = some (switches, command?)) :
    (name = "describe" ∧ namesOf switches = ["log", "color", "format"] ∧
      command? = fun g => do return .describe (← g.path?) (wantsJson g)) ∨
    (name = "resolve" ∧ namesOf switches = "format" :: graphNames ∧
      command? = fun g => do return .resolve (← graphOptions? g) (wantsJson g)) ∨
    name = "check" ∧ namesOf switches = checkNames ∧ command? = check? := by
  unfold commandOf? at h
  split at h
  · cases h
    exact .inl ⟨rfl, rfl, rfl⟩
  · cases h
    exact .inr (.inl ⟨rfl, rfl, rfl⟩)
  · cases h
    exact .inr (.inr ⟨rfl, rfl, rfl⟩)
  · cases h

theorem exists_path?_of_graphOptions? (h : graphOptions? g = some graph) :
    ∃ path, g.path? = some path := by
  obtain ⟨path, hp, -⟩ := Option.bind_eq_some_iff.1 h
  exact ⟨path, hp⟩

/-- Arguments ask for a command exactly if they are laid out for it. -/
theorem request?_eq_command_iff : request? args = some (.command c color) ↔ Asks args c color := by
  rw [request?_eq_command_iff_reads]
  constructor
  · rintro ⟨name, switches, command?, outer, inner, hn, hr, hc, rfl⟩
    rw [colorOf_eq]
    rcases commandOf?_cases hn with ⟨rfl, hs, rfl⟩ | ⟨rfl, hs, rfl⟩ | ⟨rfl, hs, rfl⟩
    · obtain ⟨path, hp, hc⟩ := Option.bind_eq_some_iff.1 hc
      obtain rfl := Option.some.inj hc
      have hcalls := hs ▸ hr.calls hp
      exact .describe hcalls (wantsJson_iff hcalls.inner_consistent)
    · obtain ⟨graph, hg, hc⟩ := Option.bind_eq_some_iff.1 hc
      obtain rfl := Option.some.inj hc
      obtain ⟨path, hp⟩ := exists_path?_of_graphOptions? hg
      have hcalls := hs ▸ hr.calls hp
      exact .resolve hcalls ((graphOptions?_eq_some_iff hcalls.inner_consistent hp).1 hg)
        (wantsJson_iff hcalls.inner_consistent)
    · obtain ⟨graph, hg, -⟩ := Option.bind_eq_some_iff.1 hc
      obtain ⟨path, hp⟩ := exists_path?_of_graphOptions? hg
      have hcalls := hs ▸ hr.calls hp
      obtain ⟨graph, requester?, target, subject, hg, hr, ht, hs, rfl⟩ :=
        (check?_eq_some_iff hcalls.inner_consistent hp).1 hc
      exact .check hcalls hg hr ht hs
  · rintro (⟨h, hj⟩ | ⟨h, hg, hj⟩ | ⟨h, hg, hr, ht, hs⟩)
    · obtain ⟨outer, inner, hr, rfl, rfl, hp⟩ :=
        Calls.exists_reads [.log, .color, .help, .format] h (by decide)
      obtain rfl := hj.unique (wantsJson_iff h.inner_consistent)
      refine ⟨_, _, _, outer, inner, rfl, hr, ?_, colorOf_eq _ _⟩
      rw [hp]
      rfl
    · obtain ⟨outer, inner, hr, rfl, rfl, hp⟩ :=
        Calls.exists_reads (.format :: graphSwitches) h (by decide)
      obtain rfl := hj.unique (wantsJson_iff h.inner_consistent)
      refine ⟨_, _, _, outer, inner, rfl, hr, ?_, colorOf_eq _ _⟩
      rw [(graphOptions?_eq_some_iff h.inner_consistent hp).2 hg]
      rfl
    · obtain ⟨outer, inner, hr', rfl, rfl, hp⟩ := Calls.exists_reads
        (graphSwitches ++ [.requester, .unnamedRequester, .target, .package, .typeName]) h
        (by decide)
      refine ⟨_, _, _, outer, inner, rfl, hr', ?_, colorOf_eq _ _⟩
      exact (check?_eq_some_iff h.inner_consistent hp).2 ⟨_, _, _, _, hg, hr, ht, hs, rfl⟩

end ModuleGraph.CommandLine
