import ModuleGraph.CommandLine.Arguments

/-! # Requests

The arguments ask for one of three commands, with options in front of its name and behind it, or
for a notice about the program. An option that both places allow counts where it stands behind.
-/

namespace ModuleGraph.CommandLine

/-- A manifest and its roots, with those of a parent. No roots stand for all modules. -/
structure GraphOptions where
  manifest : String
  roots : List String
  parent? : Option String
  parentRoots : List String

inductive Subject where
  | package (name : String)
  | type (name : String)

/-- A command. Its output is for people, or in JSON. -/
inductive Command where
  | describe (manifest : String) (json : Bool)
  | resolve (graph : GraphOptions) (json : Bool)
  /-- Without a requester, the unnamed module of the boot loader asks. -/
  | check (graph : GraphOptions) (requester? : Option String) (target : String)
      (subject : Subject)

def Command.paths : Command → List String
  | describe path _ => [path]
  | resolve g _ | check g _ _ _ => g.parent?.toList ++ [g.manifest]

inductive Request where
  | command (c : Command) (color : String)
  | help
  | version

def outerSwitches : List Switch := [.log, .color, .help, .version]

def graphSwitches : List Switch := [.log, .color, .help, .root, .parent, .parentRoot]

def wantsJson (g : Given) : Bool := g.value? .format = some "json"

/-- The options of a graph. Roots of a parent need a parent. -/
def graphOptions? (g : Given) : Option GraphOptions := do
  let manifest ← g.path?
  if g.has .parentRoot ∧ ¬ g.has .parent then none
  else return {
    manifest
    roots := g.values .root
    parent? := g.value? .parent
    parentRoots := g.values .parentRoot }

/-- The subject of a check: a package or a type, not both. -/
def subject? (g : Given) : Option Subject :=
  match g.value? .package, g.value? .typeName with
  | some p, none => some (.package p)
  | none, some t => some (.type t)
  | _, _ => none

def check? (g : Given) : Option Command := do
  let graph ← graphOptions? g
  let target ← g.value? .target
  let subject ← subject? g
  match g.value? .requester, g.has .unnamedRequester with
  | some n, false => return .check graph (some n) target subject
  | none, true => return .check graph none target subject
  | _, _ => none

def commandNames : List String := ["describe", "resolve", "check", "help"]

/-- The options of a command and what it makes of them. -/
def commandOf? : String → Option (List Switch × (Given → Option Command))
  | "describe" => some ([.log, .color, .help, .format], fun g => do
      return .describe (← g.path?) (wantsJson g))
  | "resolve" => some (.format :: graphSwitches, fun g => do
      return .resolve (← graphOptions? g) (wantsJson g))
  | "check" => some (graphSwitches ++ [.requester, .unnamedRequester, .target, .package, .typeName],
      check?)
  | _ => none

/-- Whether help is asked for in words. -/
def isHelpRequest : List String → Bool
  | ["help"] => true
  | ["help", name] => name ∈ commandNames
  | _ => false

def noticeOf : Switch → Request
  | .version => .version
  | _ => .help

/-- What arguments ask for, if they ask for anything. The option in front of a command is settled
after all that stands behind the command. -/
def request? (args : List String) : Option Request := do
  match ← scan outerSwitches true {} args with
  | .notice s => return noticeOf s
  | .given _ [] => none
  | .given outer (name :: rest) =>
    if isHelpRequest (name :: rest) then return .help
    let (switches, command?) ← commandOf? name
    match ← scan switches false {} rest with
    | .notice s => return noticeOf s
    | .given inner _ =>
      let inner ← inner.settle?
      let command ← command? inner
      let outer ← outer.settle?
      return .command command ((inner.value? .color).or (outer.value? .color) |>.getD "auto")

end ModuleGraph.CommandLine
