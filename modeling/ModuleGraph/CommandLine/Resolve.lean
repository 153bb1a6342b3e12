import ModuleGraph.CommandLine.Graph
import ModuleGraph.CommandLine.Json
import ModuleGraph.CommandLine.Style

/-! # Showing what modules read -/

namespace ModuleGraph.CommandLine

def readsIn (l : Layer) (name : String) : List String :=
  ((l.configuration.readsOf? name).map NameSet.toList).getD []

def parentModules (l : Layer) : List String :=
  (l.parent?.map fun p => p.configuration.modules.keys).getD []

def layerJson (l : Layer) : Json :=
  let moduleJson (name : String) : Json :=
    .object [("name", .string name),
      ("loader", ((l.findLoader? name).map Json.string).getD .null),
      ("reads", .strings (readsIn l name))]
  .object [("modules", .list (l.configuration.modules.keys.map moduleJson)),
    ("edges", .number l.configuration.edgeCount), ("parent_modules", .strings (parentModules l))]

/-- The line of a module, where modules of the layer below stand out. -/
def moduleSpans (l : Layer) (name : String) : List Span :=
  let readSpan (n : String) : Span := if n ∈ parentModules l then ⟨.highlight, n⟩ else plain n
  let reads := match readsIn l name with
    | [] => []
    | n :: ns => plain " -> " :: readSpan n :: ns.flatMap fun n => [plain ", ", readSpan n]
  ⟨.heading, name⟩ :: reads ++ [newline]

def layerSpans (l : Layer) : List Span :=
  let names := l.configuration.modules.keys
  [⟨.success, "Resolved"⟩,
    plain (" " ++ toString names.length ++ " modules, " ++ toString l.configuration.edgeCount ++
      " reads edges"),
    newline] ++
  (if parentModules l = [] then []
    else [⟨.secondary, "  parent: " ++ ", ".intercalate (parentModules l)⟩, newline]) ++
  names.flatMap (moduleSpans l)

def resolve (files : Files) (g : GraphOptions) (json : Bool) : Except Failure (List Span) := do
  let l ← buildLayer files g
  return if json then [plain ((layerJson l).text 0), newline] else layerSpans l

end ModuleGraph.CommandLine
