/-! # JSON output

Lists and objects stand over several lines, indented by two blanks for each level; empty ones stand
on one line.
-/

namespace ModuleGraph.CommandLine

inductive Json where
  | null
  | number (n : Nat)
  | string (s : String)
  | list (items : List Json)
  /-- Fields in the order of the output. -/
  | object (fields : List (String × Json))

namespace Json

def strings (l : List String) : Json := list (l.map string)

/-- A hexadecimal digit in lower case. -/
def hexDigit (n : Nat) : Char := .ofNat (if n < 10 then n + '0'.toNat else n - 10 + 'a'.toNat)

def escape (c : Char) : List Char :=
  if c = '"' then ['\\', '"']
  else if c = '\\' then ['\\', '\\']
  else if c = '\x08' then ['\\', 'b']
  else if c = '\t' then ['\\', 't']
  else if c = '\n' then ['\\', 'n']
  else if c = '\x0c' then ['\\', 'f']
  else if c = '\r' then ['\\', 'r']
  else if c.toNat < 0x20 then
    ['\\', 'u', '0', '0', hexDigit (c.toNat / 16), hexDigit (c.toNat % 16)]
  else [c]

def quoted (s : String) : String := "\"" ++ .ofList (s.toList.flatMap escape) ++ "\""

/-- The start of a line at some level. -/
def indent (level : Nat) : String := "\n" ++ String.ofList (List.replicate (2 * level) ' ')

/-- Texts between an opening and a closing mark, each on a line of its own. -/
def enclose (opening closing : String) (level : Nat) : List String → String
  | [] => opening ++ closing
  | items =>
    opening ++ indent (level + 1) ++ ("," ++ indent (level + 1)).intercalate items ++
    indent level ++ closing

mutual

def text (level : Nat) : Json → String
  | null => "null"
  | number n => toString n
  | string s => quoted s
  | list items => enclose "[" "]" level (itemTexts (level + 1) items)
  | object fields => enclose "\x7b" "\x7d" level (fieldTexts (level + 1) fields)

def itemTexts (level : Nat) : List Json → List String
  | [] => []
  | v :: vs => text level v :: itemTexts level vs

def fieldTexts (level : Nat) : List (String × Json) → List String
  | [] => []
  | (k, v) :: fs => (quoted k ++ ": " ++ text level v) :: fieldTexts level fs

end

end Json
end ModuleGraph.CommandLine
