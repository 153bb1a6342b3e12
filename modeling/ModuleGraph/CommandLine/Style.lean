/-! # Styled text

Output is made of spans with a role. On a terminal a role has a color or is bold; elsewhere the
text stands alone.
-/

namespace ModuleGraph.CommandLine

inductive Role where
  | success
  | failure
  | highlight
  | secondary
  | heading
  | plain
  deriving DecidableEq

namespace Role

def isBold : Role → Bool
  | success | failure | heading => true
  | highlight | secondary | plain => false

/-- The number of the color of a role: red, green, cyan or white. -/
def color? : Role → Option String
  | failure => some "1"
  | success => some "2"
  | highlight => some "6"
  | secondary => some "7"
  | heading | plain => none

end Role

structure Span where
  role : Role
  text : String

def plain (text : String) : Span := ⟨.plain, text⟩

def newline : Span := plain "\n"

/-- A terminal command in front of styled text. -/
def terminalCode (code : String) : String := "\x1b[" ++ code ++ "m"

/-- A span as written. Style is set from scratch in front of the text and taken back behind it. -/
def Span.render (colored : Bool) (s : Span) : String :=
  if colored ∧ s.role ≠ .plain then
    terminalCode "0" ++ (if s.role.isBold then terminalCode "1" else "") ++
    (s.role.color?.map fun n => terminalCode ("3" ++ n)).getD "" ++ s.text ++ terminalCode "0"
  else s.text

def render (colored : Bool) (spans : List Span) : String :=
  String.join (spans.map (·.render colored))

/-- Whether output is colored. The variable `NO_COLOR` turns color off; apart from that `always`
and `never` decide, and all else leaves it to the terminal. -/
def isColored (environment : String → Option String) (choice : String) : Bool :=
  if (environment "NO_COLOR").isSome then false
  else if choice = "always" then true
  else if choice = "never" then false
  else (environment "TERM").any (· != "dumb")

end ModuleGraph.CommandLine
