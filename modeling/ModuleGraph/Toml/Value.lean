import ModuleGraph.Toml.Key

/-! # Values and tables

A table remembers how it came about, since that decides who may still add to it: an inline table
is complete, a table made by dotted keys takes more dotted keys, a table that a header opened
takes the keys under that header only, and a table that a longer header implied may be opened
once.
-/

namespace ModuleGraph.Toml

inductive Origin where
  /-- As a value in braces. -/
  | inline
  /-- By a dotted key through it. -/
  | dotted
  /-- By its header. -/
  | header
  /-- By a header through it. -/
  | implied
  deriving DecidableEq

inductive Value where
  /-- A string. -/
  | text (s : String)
  /-- A number, a boolean or a date-time, whose content no manifest uses. -/
  | scalar
  /-- A list in brackets. -/
  | array (items : List Value)
  /-- The tables that headers in double brackets opened. -/
  | tables (items : List (List (String × Value)))
  /-- A table. -/
  | table (origin : Origin) (entries : List (String × Value))

/-- The entries of a table, in the order of their first mention. -/
abbrev Entries := List (String × Value)

namespace Entries

def get? (es : Entries) (name : String) : Option Value := es.lookup name

def set (es : Entries) (name : String) (v : Value) : Entries :=
  if (es.get? name).isSome then es.map (fun e => if e.1 = name then (name, v) else e)
  else es ++ [(name, v)]

/-- Changes the table at the end of a path, and makes the missing tables on the path. `origin` is
that of the table the path starts in; `dotted` tells a path of a dotted key from that of a header.
The path goes through the last of several tables in double brackets. -/
def change (dotted : Bool) (f : Origin → Entries → Option Entries) :
    (origin : Origin) → Key → Entries → Option Entries
  | origin, [], es => f origin es
  | _, name :: path, es => do
    match es.get? name with
    | none =>
      let origin := if dotted then .dotted else .implied
      return es.set name (.table origin (← change dotted f origin path []))
    | some (.table .inline _) => none
    | some (.table origin inner) =>
      if dotted ∧ origin = .header then none
      else return es.set name (.table origin (← change dotted f origin path inner))
    | some (.tables items) =>
      let last ← items.getLast?
      return es.set name (.tables (items.dropLast ++ [← change dotted f .header path last]))
    | some _ => none

/-- Adds the value of a key to the table that holds it. A dotted key makes its table or adds to one
that dotted keys made; no name gets two values. -/
def assign (es : Entries) : Key × Value → Option Entries
  | (path, v) => do
    let name ← path.getLast?
    change true
      (fun origin es =>
        if (origin = .dotted ↔ path.length = 1) ∨ (es.get? name).isSome then none
        else some (es ++ [(name, v)]))
      .header path.dropLast es

def ofAssignments (l : List (Key × Value)) : Option Entries := l.foldlM assign []

end Entries
end ModuleGraph.Toml
