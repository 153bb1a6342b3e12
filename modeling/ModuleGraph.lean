import ModuleGraph.Configuration.Edges
import ModuleGraph.File.Folder
import ModuleGraph.Main
import ModuleGraph.Manifest.Printer
import ModuleGraph.Proofs.Configuration.Edges
import ModuleGraph.Proofs.Configuration.Lookup
import ModuleGraph.Proofs.Resolution.Outcome
import ModuleGraph.Proofs.Configuration.Reachable
import ModuleGraph.Proofs.Configuration.Requires
import ModuleGraph.Proofs.Configuration.Stack
import ModuleGraph.Proofs.Access
import ModuleGraph.Proofs.Resolution.Stacking
import ModuleGraph.Proofs.Resolution.Termination
import ModuleGraph.Proofs.Configuration.Consistency
import ModuleGraph.Proofs.Configuration.Unanimity
import ModuleGraph.Proofs.Configuration.Extension
import ModuleGraph.Proofs.Configuration.Acyclicity
import ModuleGraph.Proofs.Access.Checker
import ModuleGraph.Proofs.Access.Extension
import ModuleGraph.Proofs.Resolution.Noninterference
import ModuleGraph.Proofs.Layer
import ModuleGraph.Proofs.Toml.Quoted
import ModuleGraph.Proofs.Toml.Assignment
import ModuleGraph.Proofs.Toml.Document
import ModuleGraph.Proofs.Manifest
import ModuleGraph.Proofs.Resolution.Locality
import ModuleGraph.Proofs.Resolution.Roots
import ModuleGraph.Proofs.Resolution.Overlaps
import ModuleGraph.Proofs.Manifest.Graph
import ModuleGraph.Proofs.Manifest.NormalForm
import ModuleGraph.Proofs.CommandLine.Json
import ModuleGraph.Proofs.CommandLine.Arguments
import ModuleGraph.Proofs.CommandLine.Request
import ModuleGraph.Proofs.CommandLine.Resolve
import ModuleGraph.Proofs.CommandLine.Check
import ModuleGraph.Proofs.Configuration.Derivation
import ModuleGraph.Proofs.Access.Derivation
import ModuleGraph.Proofs.Finder.Composition
import ModuleGraph.Proofs.Resolution.Composition
import ModuleGraph.Proofs.Resolution.Requirer
import ModuleGraph.Proofs.Layer.Binding
import ModuleGraph.Proofs.Layer.Boot
import ModuleGraph.Proofs.Module.Name
import ModuleGraph.Proofs.Module.Text
import ModuleGraph.Proofs.Resolution.Redundancy
import ModuleGraph.Proofs.Configuration.Declared
import ModuleGraph.Proofs.Configuration.Text
import ModuleGraph.Proofs.Module.Dots
import ModuleGraph.Proofs.Access.TypeName
