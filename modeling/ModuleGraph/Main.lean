import ModuleGraph.CommandLine

/-! # The program -/

namespace ModuleGraph.CommandLine

/-- The number of an error. Some calls give it with a minus sign. -/
def errorNumber (code : UInt32) : UInt32 := min code (0 - code)

def fileErrorOf : IO.Error → FileError
  | .noFileOrDirectory .. => .notFound
  | .inappropriateType _ code _ => if errorNumber code = 21 then .isDirectory else .notDirectory
  | .invalidArgument _ code reason =>
    if errorNumber code = 36 then .nameTooLong else .other reason
  | e => .other (toString e)

def readBytes (path : String) : IO FileBytes := do
  try return .ok (← IO.FS.readBinFile path)
  catch e => return .error (fileErrorOf e)

/-- The files that the arguments may name. -/
def readAll (paths : List String) : IO (List (String × FileBytes)) :=
  paths.mapM fun path => return (path, ← readBytes path)

def readVariables (names : List String) : IO (List (String × Option String)) :=
  names.mapM fun name => return (name, ← IO.getEnv name)

def runProgram (args : List String) : IO UInt32 := do
  let paths := match request? args with
    | some (.command c _) => c.paths
    | _ => []
  let files ← readAll paths
  let settings ← readVariables ["NO_COLOR", "TERM"]
  let outcome := CommandLine.run (fun path => (files.lookup path).getD (.error .notFound))
    (fun name => (settings.lookup name).join) args
  IO.print outcome.output
  match outcome.report? with
  | some report => IO.eprint report
  | none => if outcome.status = 2 then IO.eprint usage
  return outcome.status.toUInt32

end ModuleGraph.CommandLine

def main (args : List String) : IO UInt32 := ModuleGraph.CommandLine.runProgram args
