import ModuleGraph.CommandLine.Check
import ModuleGraph.CommandLine.Describe
import ModuleGraph.CommandLine.Resolve

/-! # The command line

A run ends with status 0 if the command succeeds and the access it asks about is permitted, with 1
if not, and with 2 if the arguments ask for nothing. A failure is reported apart from the output.
-/

namespace ModuleGraph.CommandLine

structure Outcome where
  status : Nat
  output : String
  /-- The report of a failure. -/
  report? : Option String := none
  deriving DecidableEq

def versionLine : String := "stratum 0.1.0\n"

def usage : String :=
  "Usage: stratum [--log FILTER] [--color WHEN] COMMAND\n\n" ++
  "Commands:\n" ++
  "  describe MANIFEST [--format FORMAT]\n" ++
  "  resolve MANIFEST [GRAPH] [--format FORMAT]\n" ++
  "  check MANIFEST [GRAPH] (--from NAME | --from-unnamed) --to NAME " ++
  "(--package NAME | --type NAME)\n\n" ++
  "GRAPH: [-r | --root NAME]... [--parent MANIFEST [--parent-root NAME]...]\n"

/-- The outcome of a command that gives a status and spans, or fails. -/
def conclude (colored : Bool) : Except Failure (Bool × List Span) → Outcome
  | .error f => { status := 1, output := "", report? := some f.report }
  | .ok (success, spans) =>
    { status := if success then 0 else 1, output := CommandLine.render colored spans }

def execute (files : Files) (colored : Bool) : Command → Outcome
  | .describe path json => conclude colored ((describe files path json).map (true, ·))
  | .resolve g json => conclude colored ((resolve files g json).map (true, ·))
  | .check g requester? target subject =>
    conclude colored (check files g requester? target subject)

def run (files : Files) (environment : String → Option String) (args : List String) : Outcome :=
  match request? args with
  | none => { status := 2, output := "" }
  | some .help => { status := 0, output := usage }
  | some .version => { status := 0, output := versionLine }
  | some (.command c color) => execute files (isColored environment color) c

end ModuleGraph.CommandLine
