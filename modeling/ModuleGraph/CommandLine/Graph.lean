import ModuleGraph.CommandLine.Request
import ModuleGraph.Layer
import ModuleGraph.Manifest.Reader
import ModuleGraph.Resolution.Resolver

/-! # From manifests to layers

A command that needs a graph resolves its manifest to a layer, on top of the layer of the parent
manifest if there is one. All modules of a manifest have one loader, named after the file.
-/

namespace ModuleGraph.CommandLine

inductive Failure where
  /-- The manifest in a file cannot be read. -/
  | load (path : String) (e : ManifestError)
  /-- The manifest makes no library. -/
  | library (path : String) (e : ManifestError)
  | resolve (path : String) (e : ResolutionError)
  | layer (e : LayerError)
  deriving DecidableEq

namespace Failure

/-- What was to be done. -/
def context : Failure → String
  | load path _ => "Failed to load " ++ path
  | library path _ => "Invalid manifest " ++ path
  | resolve path _ => "Failed to resolve " ++ path
  | layer e => e.message

/-- Why it was not, from the nearest cause on. -/
def causes : Failure → List String
  | load _ e | library _ e => [e.message, e.cause]
  | resolve _ e => [e.message]
  | layer _ => []

/-- A cause with its lines indented. -/
def indentCause (first others : String) (cause : String) : String :=
  first ++ ("\n" ++ others).intercalate ((cause.toList.splitOn '\n').map .ofList)

/-- The causes as a report lists them, with numbers if there are several. -/
def causeLines : List String → List String
  | [cause] => [indentCause "    " "    " cause]
  | causes => causes.zipIdx.map fun (cause, i) =>
      indentCause ("    " ++ toString i ++ ": ") "       " cause

def report (f : Failure) : String :=
  "Error: " ++ f.context ++
  (if f.causes = [] then "" else "\n\nCaused by:\n" ++ "\n".intercalate (causeLines f.causes)) ++
  "\n"

end Failure

abbrev Files := String → FileBytes

def loadManifest (files : Files) (path : String) : Except Failure Manifest :=
  (Manifest.ofFile (files path)).mapError (.load path)

/-- The layer of the manifest in a file, from some roots or from all modules. -/
def resolveLayer (files : Files) (stamp : Nat) (path : String) (roots : List String)
    (parent : Option Layer) : Except Failure Layer := do
  let manifest ← loadManifest files path
  let library ← manifest.library.mapError (.library path)
  let resolver : Resolver :=
    { finder := .library library, parents := (parent.map (·.configuration)).toList }
  let roots := if roots = [] then manifest.names else roots
  let configuration ← (resolver.resolve stamp roots).outcome.mapError (.resolve path)
  let (layer, _) := (Layer.create configuration parent fun _ => return some path).run ()
  layer.mapError .layer

def buildLayer (files : Files) (g : GraphOptions) : Except Failure Layer := do
  let parent ← g.parent?.mapM fun path => resolveLayer files 0 path g.parentRoots none
  resolveLayer files 1 g.manifest g.roots parent

end ModuleGraph.CommandLine
