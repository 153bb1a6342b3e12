import ModuleGraph.Manifest
import ModuleGraph.Toml.Quoted

/-! # Writing manifests

Each entry is a table in double brackets with a line for its name and for each list that is not
empty, and a table of its own for the exports to some modules. Blank lines stand between tables.
-/

namespace ModuleGraph.Manifest

open Toml

def arrayText (items : List String) : List Char :=
  '[' :: [',', ' '].intercalate (items.map textValue) ++ [']']

def listLine (key : String) (items : List String) : List Char :=
  keyText key ++ " = ".toList ++ arrayText items ++ ['\n']

/-- A line for a list, left out if the list is empty. -/
def optionalLine (key : String) (items : List String) : List Char :=
  if items = [] then [] else listLine key items

/-- The table of the exports to some modules, left out if there are none. -/
def exportsToText (exportsTo : NameMap (List String)) : List Char :=
  if exportsTo.isEmpty then []
  else "\n[module.exports-to]\n".toList ++ exportsTo.entries.flatMap fun e => listLine e.1 e.2

def entryText (e : Entry) : List Char :=
  "[[module]]\n".toList ++ "name = ".toList ++ textValue e.name ++ ['\n'] ++
  optionalLine "requires" e.requires ++ optionalLine "exports" e.exports ++
  optionalLine "conceals" e.conceals ++ exportsToText e.exportsTo

def text (m : Manifest) : String :=
  .ofList <|
    if m.modules = [] then "module = []\n".toList
    else ['\n'].intercalate (m.modules.map entryText)

end ModuleGraph.Manifest
