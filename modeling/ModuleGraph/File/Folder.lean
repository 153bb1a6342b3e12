import ModuleGraph.File

/-! # Folders

A folder holds files by name and no other folders. It stands somewhere in the tree of directories
of a system, of which the root, the standard directories below it and the null device are known.
A path is followed name by name, from the root if it starts with a slash and else from the folder.
-/

namespace ModuleGraph

abbrev Folder := List (String × ByteArray)

inductive Directory where
  /-- The folder itself. -/
  | folder
  /-- A directory above the folder. -/
  | above
  | root
  /-- A standard directory below the root. -/
  | standard (name : String)
  deriving DecidableEq

inductive Place where
  | directory (d : Directory)
  | file (bytes : ByteArray)

/-- The directories below the root that every system has. -/
def standardDirectories : List String :=
  ["bin", "dev", "etc", "home", "lib", "mnt", "opt", "proc", "root", "run", "sbin", "srv", "sys",
    "tmp", "usr", "var"]

/-- Names have at most this many bytes. -/
def nameLimit : Nat := 255

/-- Paths have fewer bytes. -/
def pathLimit : Nat := 4096

namespace Directory

/-- The directory above. The root is above itself. -/
def parent : Directory → Directory
  | folder | above => above
  | root | standard _ => root

def entry? (f : Folder) (name : String) : Directory → Option Place
  | folder => (f.lookup name).map .file
  | above => none
  | root => if name ∈ standardDirectories then some (.directory (standard name)) else none
  | standard d => if d = "dev" ∧ name = "null" then some (.file .empty) else none

end Directory

namespace Folder

/-- Goes on to a name of a path. An empty name and a dot stay in a directory, two dots leave it. -/
def enter (f : Folder) (place : Place) (name : String) : Except FileError Place :=
  match place with
  | .file _ => .error .notDirectory
  | .directory d =>
    if name = "" ∨ name = "." then .ok place
    else if name = ".." then .ok (.directory d.parent)
    else if nameLimit < name.utf8ByteSize then .error .nameTooLong
    else match d.entry? f name with
      | some place => .ok place
      | none => .error .notFound

def file (f : Folder) (path : String) : FileBytes := do
  if path = "" then throw .notFound
  if pathLimit ≤ path.utf8ByteSize then throw .nameTooLong
  let start := if path.toList.head? = some '/' then Directory.root else .folder
  match ← ((path.toList.splitOn '/').map String.ofList).foldlM f.enter (.directory start) with
  | .directory _ => throw .isDirectory
  | .file bytes => return bytes

end Folder
end ModuleGraph
