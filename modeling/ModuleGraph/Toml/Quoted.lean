import ModuleGraph.Toml.Char

/-! # Quoted text

TOML has four kinds of quotes. A value takes the first kind that needs no escapes, and a kind
with escapes if all need some. The multi-line kinds write a line end as it is, and start with one
that does not count if the text has any.
-/

namespace ModuleGraph.Toml

inductive QuoteStyle where
  /-- `"…"`, with escapes. -/
  | basic
  /-- `'…'`, without. -/
  | literal
  /-- `"""…"""`, with escapes. -/
  | multilineBasic
  /-- `'''…'''`, without. -/
  | multilineLiteral
  deriving DecidableEq

def hasTriple (q : Char) : List Char → Bool
  | a :: b :: c :: rest => (a = q && b = q && c = q) || hasTriple q (b :: c :: rest)
  | _ => false

/-- Whether a value holds a control character that only an escape can write. -/
def needsEscape (cs : List Char) : Bool := cs.any (fun c => c != '\n' && !isPlain c)

def valueStyle (cs : List Char) : QuoteStyle :=
  if !needsEscape cs && !cs.contains '\\' && !cs.contains '"' && !cs.contains '\n' then .basic
  else if !needsEscape cs && !cs.contains '\'' && !cs.contains '\n' then .literal
  else if !needsEscape cs && !cs.contains '\\' && !hasTriple '"' cs then .multilineBasic
  else if !needsEscape cs && !hasTriple '\'' cs then .multilineLiteral
  else if cs.contains '\n' then .multilineBasic
  else .basic

/-- The quotes of a key that needs some: a key stands on one line. -/
def keyStyle (cs : List Char) : QuoteStyle :=
  if cs.all isPlain && !cs.contains '\'' && (cs.contains '\\' || cs.contains '"') then .literal
  else .basic

/-- A character in quotes with escapes, the quote itself apart. -/
def escape (c : Char) : List Char :=
  if c = '\\' then ['\\', '\\']
  else if c = '\x08' then ['\\', 'b']
  else if c = '\t' then ['\\', 't']
  else if c = '\n' then ['\\', 'n']
  else if c = '\x0c' then ['\\', 'f']
  else if c = '\r' then ['\\', 'r']
  else if isControl c then
    ['\\', 'u', '0', '0', hexDigit (c.toNat / 16), hexDigit (c.toNat % 16)]
  else [c]

def basicBody (cs : List Char) : List Char :=
  cs.flatMap fun c => if c = '"' then ['\\', '"'] else escape c

/-- The body of a `"` string over several lines, after a run of unescaped quotes: the third quote
of a run is escaped, so that none closes the string. -/
def multilineBody : Nat → List Char → List Char
  | _, [] => []
  | run, c :: cs =>
    if c = '"' then
      if run = 2 then '\\' :: '"' :: multilineBody 0 cs else '"' :: multilineBody (run + 1) cs
    else if c = '\n' then '\n' :: multilineBody 0 cs
    else escape c ++ multilineBody 0 cs

def quote (style : QuoteStyle) (cs : List Char) : List Char :=
  let opening := if cs.contains '\n' then ['\n'] else []
  match style with
  | .basic => '"' :: basicBody cs ++ ['"']
  | .literal => '\'' :: cs ++ ['\'']
  | .multilineBasic =>
    ['"', '"', '"'] ++ opening ++ multilineBody 0 cs ++ ['"', '"', '"']
  | .multilineLiteral =>
    ['\'', '\'', '\''] ++ opening ++ cs ++ ['\'', '\'', '\'']

def textValue (s : String) : List Char := quote (valueStyle s.toList) s.toList

def keyText (s : String) : List Char :=
  if s.toList ≠ [] ∧ s.toList.all isBareKeyChar then s.toList
  else quote (keyStyle s.toList) s.toList

end ModuleGraph.Toml
