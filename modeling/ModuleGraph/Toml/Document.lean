import ModuleGraph.Toml.Value.Reader

/-! # Documents

A document is a sequence of lines: a header, an assignment, or neither. The assignments up to the
next header belong to the table of the header above them, those above the first header to the
document itself.
-/

namespace ModuleGraph.Toml

inductive Line where
  /-- The header of a table, `[a.b]`. -/
  | table (path : Key)
  /-- The header of one more table of a list, `[[a.b]]`. -/
  | element (path : Key)
  /-- An assignment. -/
  | assignment (a : Key × Value)

/-- Drops the end of a line: blanks, a comment, and the line end, which the last line needs not
have. -/
def endLine? (cs : List Char) : Option (List Char) :=
  let cs := match cs.dropWhile isBlank with
    | '#' :: cs => cs.dropWhile isPlain
    | cs => cs
  if cs.isEmpty then some [] else dropNewline? cs

def readContent : List Char → Option (Line × List Char)
  | '[' :: '[' :: cs => do
    match ← readKey cs with
    | (path, ']' :: ']' :: rest) => some (.element path, rest)
    | _ => none
  | '[' :: cs => do
    match ← readKey cs with
    | (path, ']' :: rest) => some (.table path, rest)
    | _ => none
  | cs => (readAssignment readValue cs).map fun (a, rest) => (.assignment a, rest)

def readLines : (bound : Nat) → List Char → Option (List Line)
  | 0, _ => none
  | bound + 1, cs =>
    match cs.dropWhile isBlank with
    | [] => some []
    | c :: cs =>
      if c = '#' ∨ c = '\n' ∨ c = '\r' then do readLines bound (← endLine? (c :: cs))
      else do
        let (line, rest) ← readContent (c :: cs)
        return line :: (← readLines bound (← endLine? rest))

def openTable (path : Key) (l : List (Key × Value)) (root : Entries) : Option Entries := do
  let name ← path.getLast?
  Entries.change false
    (fun _ es => do
      match es.get? name with
      | none => return es.set name (.table .header (← l.foldlM Entries.assign []))
      | some (.table .implied inner) =>
        return es.set name (.table .header (← l.foldlM Entries.assign inner))
      | some _ => none)
    .header path.dropLast root

def openElement (path : Key) (l : List (Key × Value)) (root : Entries) : Option Entries := do
  let name ← path.getLast?
  Entries.change false
    (fun _ es => do
      match es.get? name with
      | none => return es.set name (.tables [← Entries.ofAssignments l])
      | some (.tables items) =>
        return es.set name (.tables (items ++ [← Entries.ofAssignments l]))
      | some _ => none)
    .header path.dropLast root

/-- The assignments in front of the first header, and the lines from there on. -/
def splitAssignments : List Line → List (Key × Value) × List Line
  | .assignment a :: lines => (a :: (splitAssignments lines).1, (splitAssignments lines).2)
  | lines => ([], lines)

/-- The table that lines make of one made by the lines before them. Each line that is no header is
taken with the header above it. -/
def extend (root : Entries) : List Line → Option Entries
  | [] => some root
  | .table path :: lines => do
    extend (← openTable path (splitAssignments lines).1 root) lines
  | .element path :: lines => do
    extend (← openElement path (splitAssignments lines).1 root) lines
  | .assignment _ :: lines => extend root lines

def ofLines (lines : List Line) : Option Entries := do
  extend (← Entries.ofAssignments (splitAssignments lines).1) lines

/-- The text without the byte order mark in front of it. -/
def dropMark : List Char → List Char
  | '\ufeff' :: cs => cs
  | cs => cs

def read? (document : String) : Option Entries := do
  let cs := dropMark document.toList
  ofLines (← readLines (cs.length + 1) cs)

end ModuleGraph.Toml
