/-! # Arguments

Arguments are options and words. An option has a long name, and some have a letter; its value
follows as the next argument, after `=`, or directly after the letter. A value on its own does not
start with a dash, unless it is one. After `--` there are only words.

Reading ends at the first fault, such as an option given twice or a second path. The fault of an
option whose value is an argument of its own comes up when the next option is read, or at the end.
-/

namespace ModuleGraph.CommandLine

inductive Switch where
  | log
  | color
  | format
  | root
  | parent
  | parentRoot
  | requester
  | unnamedRequester
  | target
  | package
  | typeName
  | help
  | version
  deriving DecidableEq

namespace Switch

def long : Switch → String
  | log => "log"
  | color => "color"
  | format => "format"
  | root => "root"
  | parent => "parent"
  | parentRoot => "parent-root"
  | requester => "from"
  | unnamedRequester => "from-unnamed"
  | target => "to"
  | package => "package"
  | typeName => "type"
  | help => "help"
  | version => "version"

def letter? : Switch → Option Char
  | root => some 'r'
  | help => some 'h'
  | version => some 'V'
  | _ => none

/-- Whether the option answers at once, in place of a command. -/
def isNotice : Switch → Bool
  | help | version => true
  | _ => false

/-- Whether the option stands alone. -/
def isFlag : Switch → Bool
  | unnamedRequester | help | version => true
  | _ => false

def isRepeatable : Switch → Bool
  | root | parentRoot => true
  | _ => false

/-- Whether the option takes a path, which is not empty. -/
def isPath : Switch → Bool
  | parent => true
  | _ => false

end Switch

inductive Argument where
  | word (w : String)
  /-- `--name` or `--name=value`. -/
  | long (name : String) (value : Option String)
  /-- `-x`, with what follows the letter. -/
  | short (letter : Char) (rest : List Char)
  /-- `--`. -/
  | separator

def Argument.of (s : String) : Argument :=
  match s.toList with
  | ['-', '-'] => separator
  | '-' :: '-' :: cs =>
    match cs.dropWhile (· != '=') with
    | [] => long (.ofList cs) none
    | _ :: value => long (.ofList (cs.takeWhile (· != '='))) (some (.ofList value))
  | '-' :: c :: cs => short c cs
  | _ => word s

/-- What the arguments give: options with their values, flags with none, and a path. -/
structure Given where
  switches : List (Switch × String) := []
  path? : Option String := none
  /-- An option read last, if its value was an argument of its own. -/
  pending? : Option (Switch × String) := none

namespace Given

def value? (g : Given) (s : Switch) : Option String := g.switches.lookup s

def values (g : Given) (s : Switch) : List String :=
  (g.switches.filter fun e => e.1 = s).map (·.2)

def has (g : Given) (s : Switch) : Bool := (g.value? s).isSome

def add? (g : Given) (s : Switch) (value : String) : Option Given :=
  if g.has s ∧ ¬ s.isRepeatable then none
  else if s.isPath ∧ value = "" then none
  else some { g with switches := g.switches ++ [(s, value)] }

/-- Adds the option read last if it was left pending. -/
def settle? (g : Given) : Option Given :=
  match g.pending? with
  | none => some g
  | some (s, value) => { g with pending? := none }.add? s value

/-- Adds a word, which is the path. There is one, and it is not empty. -/
def addWord? (g : Given) (w : String) : Option Given :=
  if g.path?.isSome ∨ w = "" then none else some { g with path? := some w }

/-- Adds an option after those before it. A value that is an argument of its own is left pending. -/
def put? (g : Given) (s : Switch) (value : String) (isPending : Bool) : Option Given := do
  let g ← g.settle?
  if isPending then return { g with pending? := some (s, value) } else g.add? s value

end Given

inductive Scan where
  /-- At the end of what belongs together, with the arguments that are left. -/
  | given (g : Given) (rest : List String)
  /-- At an option that answers at once. -/
  | notice (s : Switch)

/-- The value after the equals sign that may stand between a letter and its value. -/
def dropEquals : List Char → List Char
  | '=' :: cs => cs
  | cs => cs

/-- Reads arguments with some options allowed, up to the first fault or the first notice. A notice
settles what stands before it. If `stopsAtWord` holds, reading ends at the first word and no
separator may come before it. -/
def scan (allowed : List Switch) (stopsAtWord : Bool) : Given → List String → Option Scan
  | g, [] => some (.given g [])
  | g, arg :: args =>
    match Argument.of arg with
    | .separator =>
      if stopsAtWord then none else (args.foldlM Given.addWord? g).map fun g => .given g []
    | .word w =>
      if stopsAtWord then some (.given g (arg :: args))
      else (g.addWord? w).bind fun g => scan allowed stopsAtWord g args
    | .long name value =>
      match allowed.find? (·.long = name), value with
      | none, _ => none
      | some s, some v =>
        if s.isFlag then none
        else (g.put? s v false).bind fun g => scan allowed stopsAtWord g args
      | some s, none =>
        if s.isNotice then g.settle?.map fun _ => .notice s
        else if s.isFlag then (g.put? s "" false).bind fun g => scan allowed stopsAtWord g args
        else match args with
          | [] => none
          | v :: args =>
            match Argument.of v with
            | .word v => (g.put? s v true).bind fun g => scan allowed stopsAtWord g args
            | _ => none
    | .short letter rest =>
      match allowed.find? (·.letter? = some letter), rest with
      | none, _ => none
      | some s, rest =>
        if s.isNotice then g.settle?.map fun _ => .notice s
        else match rest, args with
          | c :: cs, args =>
            (g.put? s (.ofList (dropEquals (c :: cs))) false).bind fun g =>
              scan allowed stopsAtWord g args
          | [], [] => none
          | [], v :: args =>
            match Argument.of v with
            | .word v => (g.put? s v true).bind fun g => scan allowed stopsAtWord g args
            | _ => none

end ModuleGraph.CommandLine
