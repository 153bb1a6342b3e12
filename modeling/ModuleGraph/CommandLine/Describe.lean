import ModuleGraph.CommandLine.Graph
import ModuleGraph.CommandLine.Json
import ModuleGraph.CommandLine.Style

/-! # Describing modules -/

namespace ModuleGraph.CommandLine

def exportJson : Export → Json
  | .unqualified => .object [("kind", .string "unqualified")]
  | .qualified targets =>
    .object [("kind", .string "qualified"), ("targets", .strings targets.toList)]

def descriptorJson (d : Descriptor) : Json :=
  .object [("name", .string d.name), ("requires", .strings d.requires.toList),
    ("exports", .object (d.exports.entries.map fun (p, x) => (p, exportJson x))),
    ("concealed", .strings d.concealed.toList)]

def exportSpans : String × Export → List Span
  | (p, .unqualified) => [⟨.secondary, "  exports "⟩, plain p, newline]
  | (p, .qualified targets) =>
    [⟨.secondary, "  exports "⟩, plain p, ⟨.secondary, " to "⟩,
      plain (", ".intercalate targets.toList), newline]

def descriptorSpans (d : Descriptor) : List Span :=
  [⟨.heading, "module " ++ d.name⟩, newline] ++
  d.requires.toList.flatMap (fun n => [⟨.secondary, "  requires "⟩, plain n, newline]) ++
  d.exports.entries.flatMap exportSpans ++
  d.concealed.toList.flatMap (fun p => [⟨.secondary, "  conceals "⟩, plain p, newline])

def describe (files : Files) (path : String) (json : Bool) : Except Failure (List Span) := do
  let manifest ← loadManifest files path
  let ds ← manifest.descriptors.mapError (.load path)
  return if json then [plain ((Json.list (ds.map descriptorJson)).text 0), newline]
    else ds.flatMap descriptorSpans

end ModuleGraph.CommandLine
