import ModuleGraph.Configuration
import ModuleGraph.Module.Ref

/-! # Access

A module may access a package of another if it reads that module and the module exports the package
to it. A module without a name reads every named module but is a target of no qualified export, and
it exports nothing itself.
-/

namespace ModuleGraph

inductive Access where
  | permitted
  | deniedNotReadable
  | deniedNotExported
  deriving DecidableEq

/-- Whether a reference reads a visible module. -/
def Configuration.isReadableBy (c : Configuration) (requester : ModuleRef) (target : String) :
    Bool :=
  match requester with
  | .unnamed _ => true
  | .named n => c.doesRead n target

/-- Whether an export reaches a reference. -/
def Export.admitsRef : Export → ModuleRef → Bool
  | .unqualified, _ => true
  | .qualified targets, .named n => targets.contains n
  | .qualified _, .unnamed _ => false

namespace Access

/-- Decides whether a requester may access a package of a target. -/
def check (c : Configuration) (requester target : ModuleRef) (package : String) : Access :=
  if requester = target then permitted
  else match target with
    | .unnamed _ => if requester.isUnnamed then deniedNotExported else deniedNotReadable
    | .named name =>
      match c.find? name with
      | none => deniedNotReadable
      | some d =>
        if c.isReadableBy requester name then
          if (d.exports.get? package).any fun x => x.admitsRef requester then permitted
          else deniedNotExported
        else deniedNotReadable

def isPermitted (a : Access) : Bool := a = permitted

def denial? (requester target : ModuleRef) (package : String) : Access → Option String
  | permitted => none
  | deniedNotReadable => some (requester.text ++ " cannot read " ++ target.text)
  | deniedNotExported =>
    some (target.text ++ " does not export " ++ package ++ " to " ++ requester.text)

end Access
end ModuleGraph
