import ModuleGraph.Toml.Quoted.Reader

/-! # Keys

A key is a path of one or more names between dots; blanks around a name do not count. A name is
bare or in quotes on one line. Paths are shorter than `depthLimit`.
-/

namespace ModuleGraph.Toml

/-- A key as the names on its path. -/
abbrev Key := List String

/-- Neither a key nor a value nests this deep. -/
def depthLimit : Nat := 80

def readName : List Char → Option (String × List Char)
  | '"' :: cs => (readBasic cs).map fun (s, rest) => (.ofList s, rest)
  | '\'' :: cs => (readLiteral cs).map fun (s, rest) => (.ofList s, rest)
  | cs =>
    if (cs.takeWhile isBareKeyChar).isEmpty then none
    else some (.ofList (cs.takeWhile isBareKeyChar), cs.dropWhile isBareKeyChar)

def readPath : (bound : Nat) → List Char → Option (Key × List Char)
  | 0, _ => none
  | bound + 1, cs => do
    let (name, rest) ← readName (cs.dropWhile isBlank)
    match rest.dropWhile isBlank with
    | '.' :: rest => (readPath bound rest).map fun (path, rest) => (name :: path, rest)
    | rest => some ([name], rest)

def readKey (cs : List Char) : Option (Key × List Char) := readPath (depthLimit - 1) cs

end ModuleGraph.Toml
