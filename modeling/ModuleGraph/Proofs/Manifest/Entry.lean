import ModuleGraph.Manifest.Entry
import ModuleGraph.Proofs.Module.Declaration

/-! # Descriptors of entries

An entry with a descriptor keeps all of its names. Each item of its lists is filed under a name of
its own, so that the descriptor requires what the entry requires and owns what the entry owns.
-/

namespace ModuleGraph.Entry

/-- An entry exports a package, to every module or to some, or conceals it. -/
def Owns (e : Entry) (p : String) : Prop := p ∈ e.exports ∨ p ∈ e.exportsTo ∨ p ∈ e.conceals

variable {e : Entry} {d : Descriptor} {n p : String}

theorem packages_declaration (e : Entry) :
    e.declaration.exports.map (·.package) = e.exports ++ e.exportsTo.keys := by
  rw [declaration, List.map_append, List.map_map, List.map_map]
  exact congrArg (· ++ e.exportsTo.keys) (List.map_id e.exports)

theorem name_of_descriptor (h : e.descriptor = .ok d) : d.name = e.name := by
  obtain ⟨-, rfl⟩ := Declaration.descriptor_eq_ok_iff.1 h
  rfl

theorem mem_requires_of_descriptor (h : e.descriptor = .ok d) :
    n ∈ d.requires ↔ n ∈ e.requires := by
  obtain ⟨-, rfl⟩ := Declaration.descriptor_eq_ok_iff.1 h
  exact NameSet.mem_ofList

theorem owns_of_descriptor (h : e.descriptor = .ok d) : d.owns p = true ↔ e.Owns p := by
  obtain ⟨-, rfl⟩ := Declaration.descriptor_eq_ok_iff.1 h
  rw [Declaration.owns_declared, packages_declaration, List.mem_append, NameMap.mem_keys, or_assoc]
  rfl

end ModuleGraph.Entry
