import ModuleGraph.Module.Name
import ModuleGraph.Module.Descriptor

/-! # Module declarations

A declaration lists what a module says of itself as it was written down. It becomes a descriptor
if every name is valid and nothing is said twice. The checks run in the order of the text: the
module's name, then each item of the requires, of the exports and of the conceals.
-/

namespace ModuleGraph

structure ExportItem where
  package : String
  targets : Option (List String)
  deriving DecidableEq

structure Declaration where
  name : String
  requires : List String
  exports : List ExportItem
  conceals : List String
  deriving DecidableEq

inductive DescriptorError where
  | emptyName
  | invalidModuleName (name : String)
  | selfRequires (owner : String)
  | duplicateRequires (owner dependency : String)
  | invalidPackageName (owner package : String)
  | duplicateExport (owner package : String)
  | emptyExportTargets (owner package : String)
  | invalidExportTarget (owner package target : String)
  | duplicateExportTarget (owner package target : String)
  | exportedAndConcealed (owner package : String)
  | duplicateConceal (owner package : String)
  deriving DecidableEq

def DescriptorError.message : DescriptorError → String
  | emptyName => "Module name cannot be empty"
  | invalidModuleName n => "Invalid module name: " ++ n
  | selfRequires m => "Module " ++ m ++ " cannot require itself"
  | duplicateRequires m d => "Module " ++ m ++ " requires " ++ d ++ " more than once"
  | invalidPackageName m p => "Invalid package name in module " ++ m ++ ": " ++ p
  | duplicateExport m p => "Module " ++ m ++ " exports package " ++ p ++ " more than once"
  | emptyExportTargets m p =>
    "Module " ++ m ++ " exports package " ++ p ++ " to an empty target list"
  | invalidExportTarget m p t =>
    "Module " ++ m ++ " exports package " ++ p ++ " to invalid module name " ++ t
  | duplicateExportTarget m p t =>
    "Module " ++ m ++ " exports package " ++ p ++ " to " ++ t ++ " more than once"
  | exportedAndConcealed m p =>
    "Module " ++ m ++ " declares package " ++ p ++ " as both exported and concealed"
  | duplicateConceal m p => "Module " ++ m ++ " conceals package " ++ p ++ " more than once"

namespace Declaration

def addRequired (owner : String) (before : NameSet) (dependency : String) :
    Except DescriptorError NameSet :=
  if dependency = owner then .error (.selfRequires owner)
  else if isQualifiedName dependency = false then .error (.invalidModuleName dependency)
  else if dependency ∈ before then .error (.duplicateRequires owner dependency)
  else .ok (before.insert dependency)

def addTarget (owner package : String) (before : NameSet) (target : String) :
    Except DescriptorError NameSet :=
  if target ∈ before then .error (.duplicateExportTarget owner package target)
  else .ok (before.insert target)

def exportOf (owner : String) (item : ExportItem) : Except DescriptorError Export :=
  match item.targets with
  | none => .ok .unqualified
  | some targets =>
    if targets = [] then .error (.emptyExportTargets owner item.package)
    else match targets.find? (fun t => !isQualifiedName t) with
      | some t => .error (.invalidExportTarget owner item.package t)
      | none => (targets.foldlM (addTarget owner item.package) ∅).map .qualified

def addExport (owner : String) (before : NameMap Export) (item : ExportItem) :
    Except DescriptorError (NameMap Export) :=
  if isQualifiedName item.package = false then .error (.invalidPackageName owner item.package)
  else if item.package ∈ before then .error (.duplicateExport owner item.package)
  else (exportOf owner item).map (before.insert item.package)

def addConcealed (owner : String) (exports : NameMap Export) (before : NameSet)
    (package : String) : Except DescriptorError NameSet :=
  if isQualifiedName package = false then .error (.invalidPackageName owner package)
  else if package ∈ exports then .error (.exportedAndConcealed owner package)
  else if package ∈ before then .error (.duplicateConceal owner package)
  else .ok (before.insert package)

/-- The descriptor of a declaration, or the first fault in it. -/
def descriptor (d : Declaration) : Except DescriptorError Descriptor :=
  if d.name = "" then .error .emptyName
  else if isQualifiedName d.name = false then .error (.invalidModuleName d.name)
  else do
    let requires ← d.requires.foldlM (addRequired d.name) ∅
    let exports ← d.exports.foldlM (addExport d.name) ∅
    let concealed ← d.conceals.foldlM (addConcealed d.name exports) ∅
    return { name := d.name, requires, exports, concealed }

end Declaration
end ModuleGraph
