/-! # Characters of TOML

Control characters stand nowhere in a document but for the tab and the line ends.
-/

namespace ModuleGraph.Toml

/-- The control characters of ASCII. -/
def isControl (c : Char) : Bool := c.toNat < 0x20 || c.toNat == 0x7f

/-- Characters that comments and strings on one line may hold. -/
def isPlain (c : Char) : Bool := c = '\t' || !isControl c

def isBlank (c : Char) : Bool := c = ' ' || c = '\t'

def isBareKeyChar (c : Char) : Bool := c.isAlphanum || c = '-' || c = '_'

def hexValue? (c : Char) : Option Nat :=
  if c.isDigit then some (c.toNat - '0'.toNat)
  else if 'a' ≤ c ∧ c ≤ 'f' then some (c.toNat - 'a'.toNat + 10)
  else if 'A' ≤ c ∧ c ≤ 'F' then some (c.toNat - 'A'.toNat + 10)
  else none

/-- The hexadecimal digit of a value below 16, in upper case. -/
def hexDigit (n : Nat) : Char := .ofNat (if n < 10 then n + '0'.toNat else n - 10 + 'A'.toNat)

def dropNewline? : List Char → Option (List Char)
  | '\n' :: rest => some rest
  | '\r' :: '\n' :: rest => some rest
  | _ => none

end ModuleGraph.Toml
