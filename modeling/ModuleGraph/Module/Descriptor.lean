import ModuleGraph.Module.Export

/-! # Module descriptors

A descriptor tells what a module requires and which packages it owns. A package is owned if it is
exported or concealed.
-/

namespace ModuleGraph

structure Descriptor where
  name : String
  requires : NameSet
  exports : NameMap Export
  concealed : NameSet
  deriving DecidableEq

namespace Descriptor

/-- The packages of a module, exported and concealed. -/
def packages (d : Descriptor) : NameSet := d.exports.keySet ∪ d.concealed

def owns (d : Descriptor) (package : String) : Bool :=
  d.exports.contains package || d.concealed.contains package

/-- How many names descriptors require, each counted on its own. -/
def totalRequires (ds : List Descriptor) : Nat := ds.foldr (fun d n => d.requires.size + n) 0

theorem totalRequires_append (as bs : List Descriptor) :
    totalRequires (as ++ bs) = totalRequires as + totalRequires bs := by
  induction as with
  | nil => exact (Nat.zero_add _).symm
  | cons a as ih => exact (congrArg (a.requires.size + ·) ih).trans (Nat.add_assoc ..).symm

def exportClause (package : String) : Export → String
  | .unqualified => "exports " ++ package ++ "; "
  | .qualified targets =>
    "exports " ++ package ++ " to " ++ ", ".intercalate targets.toList ++ "; "

/-- The clauses of a descriptor, each group in the order of its names. -/
def clauses (d : Descriptor) : List String :=
  d.requires.toList.map (fun n => "requires " ++ n ++ "; ") ++
  d.exports.entries.map (fun e => exportClause e.1 e.2) ++
  d.concealed.toList.map (fun p => "conceals " ++ p ++ "; ")

/-- A descriptor on one line, such as `module a { requires b; exports p to c; }`. -/
def text (d : Descriptor) : String :=
  "module " ++ d.name ++ " \x7b " ++ String.join d.clauses ++ "\x7d"

end Descriptor
end ModuleGraph
