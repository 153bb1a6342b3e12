import ModuleGraph.Finder
import ModuleGraph.File
import ModuleGraph.Manifest.Entry

/-! # Manifests

A manifest is a list of entries. Names may repeat until a library is made of it.
-/

namespace ModuleGraph

structure Manifest where
  modules : List Entry
  deriving DecidableEq

inductive ManifestError where
  /-- The file cannot be read. -/
  | file (e : FileError)
  /-- The text is no TOML, or holds something else than entries. -/
  | unreadable
  | invalidModule (e : DescriptorError)
  | finder (e : FinderError)
  deriving DecidableEq

namespace ManifestError

/-- What an error adds to the text of its cause. -/
def heading : ManifestError → String
  | file _ => "Failed to read manifest file: "
  | unreadable => "Failed to parse manifest: "
  | invalidModule _ => "Invalid module declaration: "
  | finder _ => "Invalid manifest: "

def cause : ManifestError → String
  | file e => e.message
  | unreadable => "the text is no list of modules in TOML"
  | invalidModule e => e.message
  | finder e => e.message

def message (e : ManifestError) : String := e.heading ++ e.cause

end ManifestError

namespace Manifest

def names (m : Manifest) : List String := m.modules.map (·.name)

/-- The descriptors of the entries, in their order, or the fault of the first entry with one. -/
def descriptors (m : Manifest) : Except ManifestError (List Descriptor) :=
  (m.modules.mapM Entry.descriptor).mapError .invalidModule

def ofDescriptors (ds : List Descriptor) : Manifest := ⟨ds.map .ofDescriptor⟩

def library (m : Manifest) : Except ManifestError Library := do
  (Library.of (← m.descriptors)).mapError .finder

end Manifest
end ModuleGraph
