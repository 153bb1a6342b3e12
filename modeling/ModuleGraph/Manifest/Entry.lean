import ModuleGraph.Module.Declaration

/-! # Manifest entries

An entry of a manifest declares one module. Packages exported to some modules only are given by
package, so their order is that of the packages; all else keeps the order of the file.
-/

namespace ModuleGraph

structure Entry where
  name : String
  requires : List String
  exports : List String
  conceals : List String
  exportsTo : NameMap (List String)
  deriving DecidableEq

namespace Entry

/-- The declaration of an entry: the unqualified exports come first. -/
def declaration (e : Entry) : Declaration where
  name := e.name
  requires := e.requires
  exports :=
    e.exports.map (fun p => ⟨p, none⟩) ++ e.exportsTo.entries.map (fun (p, ts) => ⟨p, some ts⟩)
  conceals := e.conceals

def descriptor (e : Entry) : Except DescriptorError Descriptor := e.declaration.descriptor

/-- The entry of a descriptor, with every list ascending. -/
def ofDescriptor (d : Descriptor) : Entry where
  name := d.name
  requires := d.requires.toList
  exports := (d.exports.filter fun _ x => !x.isQualified).keys
  conceals := d.concealed.toList
  exportsTo :=
    (d.exports.filter fun _ x => x.isQualified).mapValues fun _ x =>
      (x.targets?.map NameSet.toList).getD []

end Entry
end ModuleGraph
