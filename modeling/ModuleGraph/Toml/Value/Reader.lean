import ModuleGraph.Toml.Scalar
import ModuleGraph.Toml.Value

/-! # Reading values

Arrays and inline tables nest less than `depthLimit` deep. An array may go over several lines, hold
comments and end in a comma; an inline table stands on one line.
-/

namespace ModuleGraph.Toml

/-- Drops blanks, line ends and comments. In a comment a control character stops the reading. -/
def skipSpace : (inComment : Bool) → List Char → List Char
  | _, [] => []
  | inComment, c :: cs =>
    if c = '\n' then skipSpace false cs
    else if c = '\r' then
      match cs with
      | [] => [c]
      | d :: cs => if d = '\n' then skipSpace false cs else c :: d :: cs
    else if inComment then if isPlain c then skipSpace true cs else c :: cs
    else if isBlank c then skipSpace false cs
    else if c = '#' then skipSpace true cs
    else c :: cs

/-- The items of an array, at most `bound`, up to its closing bracket. -/
def readItems (item : List Char → Option (Value × List Char)) :
    (bound : Nat) → List Char → Option (List Value × List Char)
  | 0, _ => none
  | bound + 1, cs =>
    match skipSpace false cs with
    | ']' :: rest => some ([], rest)
    | cs => do
      let (v, rest) ← item cs
      match skipSpace false rest with
      | ']' :: rest => some ([v], rest)
      | ',' :: rest => (readItems item bound rest).map fun (vs, rest) => (v :: vs, rest)
      | _ => none

def readAssignment (value : List Char → Option (Value × List Char)) (cs : List Char) :
    Option ((Key × Value) × List Char) := do
  let (key, rest) ← readKey cs
  match rest with
  | '=' :: rest =>
    let (v, rest) ← value (rest.dropWhile isBlank)
    return ((key, v), rest)
  | _ => none

/-- The assignments of an inline table, at least one and at most `bound`, up to its closing
brace. -/
def readPairs (value : List Char → Option (Value × List Char)) :
    (bound : Nat) → List Char → Option (List (Key × Value) × List Char)
  | 0, _ => none
  | bound + 1, cs => do
    let (pair, rest) ← readAssignment value cs
    match rest.dropWhile isBlank with
    | '\x7d' :: rest => some ([pair], rest)
    | ',' :: rest => (readPairs value bound rest).map fun (pairs, rest) => (pair :: pairs, rest)
    | _ => none

def readFlat (cs : List Char) : Option (Value × List Char) :=
  match cs with
  | '"' :: _ | '\'' :: _ => (readQuoted cs).map fun (s, rest) => (.text (.ofList s), rest)
  | _ => (afterScalar? cs).map fun rest => (.scalar, rest)

def readNested : (depth : Nat) → List Char → Option (Value × List Char)
  | 0, cs => readFlat cs
  | depth + 1, cs =>
    match cs with
    | '[' :: rest =>
      (readItems (readNested depth) (rest.length + 1) rest).map
        fun (items, rest) => (.array items, rest)
    | '\x7b' :: rest =>
      match rest.dropWhile isBlank with
      | '\x7d' :: rest => some (.table .inline [], rest)
      | cs => do
        let (pairs, rest) ← readPairs (readNested depth) (cs.length + 1) cs
        return (.table .inline (← Entries.ofAssignments pairs), rest)
    | _ => readFlat cs

def readValue (cs : List Char) : Option (Value × List Char) := readNested (depthLimit - 1) cs

end ModuleGraph.Toml
