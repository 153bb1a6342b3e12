import ModuleGraph.Finder.Library

/-! # Module finders

A finder answers names with descriptors. A library files each descriptor under its own name; other
filings may not, so an answer can carry another name than the one asked for. Of several finders
composed, the first with an answer counts.
-/

namespace ModuleGraph

inductive Finder where
  /-- Answers no name. -/
  | empty
  /-- Answers the names of its descriptors. -/
  | library (modules : Library)
  /-- Answers the names its descriptors are filed under; the first filing counts. -/
  | filed (entries : List (String × Descriptor))
  /-- Answers what any of its parts answers; the first part counts. -/
  | composed (parts : List Finder)

namespace Finder

/-- Two finders, the second asked for what the first does not answer. -/
def compose (first second : Finder) : Finder := composed [first, second]

/-- Composed finders with one more that is asked last. -/
def andThen (parts : List Finder) (last : Finder) : Finder := composed (parts ++ [last])

mutual

def find (name : String) : Finder → Option Descriptor
  | empty => none
  | library modules => modules.get? name
  | filed entries => entries.lookup name
  | composed parts => findFirst name parts

def findFirst (name : String) : List Finder → Option Descriptor
  | [] => none
  | f :: fs => (find name f).or (findFirst name fs)

end

theorem findFirst_eq_findSome? (name : String) :
    ∀ fs : List Finder, findFirst name fs = fs.findSome? (find name)
  | [] => rfl
  | f :: fs => by
    rw [findFirst, findFirst_eq_findSome? name fs, List.findSome?_cons]
    cases find name f <;> rfl

mutual

/-- All descriptors, for composed finders one for each name and in the order of names. -/
def findAll : Finder → List Descriptor
  | empty => []
  | library modules => modules.values
  | filed entries => entries.map (·.2)
  | composed parts => (merge ∅ parts).values

/-- Adds the descriptors of finders to a library, the names it has apart. -/
def merge (l : Library) : List Finder → Library
  | [] => l
  | f :: fs => merge ((findAll f).foldl Library.offer l) fs

end

theorem merge_eq_foldl :
    ∀ (l : Library) (fs : List Finder),
      merge l fs = (fs.flatMap findAll).foldl Library.offer l
  | _, [] => rfl
  | l, f :: fs => by
    rw [merge, merge_eq_foldl _ fs, List.flatMap_cons, List.foldl_append]

/-- All descriptors of composed finders, in the order of names, if no name occurs twice. -/
def findAllChecked (parts : List Finder) : Except FinderError (List Descriptor) :=
  (Library.of (parts.flatMap findAll)).map (·.values)

mutual

/-- Every descriptor a finder holds, also those that no name brings up. -/
def stock : Finder → List Descriptor
  | empty => []
  | library modules => modules.values
  | filed entries => entries.map (·.2)
  | composed parts => stockOfAll parts

def stockOfAll : List Finder → List Descriptor
  | [] => []
  | f :: fs => stock f ++ stockOfAll fs

end

theorem stockOfAll_eq_flatMap : ∀ fs : List Finder, stockOfAll fs = fs.flatMap stock
  | [] => rfl
  | f :: fs => by rw [stockOfAll, stockOfAll_eq_flatMap fs, List.flatMap_cons]

mutual

/-- How many names the descriptors of a finder require, each counted on its own. -/
def load : Finder → Nat
  | empty => 0
  | library modules => Descriptor.totalRequires modules.values
  | filed entries => Descriptor.totalRequires (entries.map (·.2))
  | composed parts => loadOfAll parts

def loadOfAll : List Finder → Nat
  | [] => 0
  | f :: fs => load f + loadOfAll fs

end

mutual

theorem load_eq_totalRequires : ∀ f : Finder, load f = Descriptor.totalRequires (stock f)
  | empty => rfl
  | library _ => rfl
  | filed _ => rfl
  | composed parts => loadOfAll_eq_totalRequires parts

theorem loadOfAll_eq_totalRequires :
    ∀ fs : List Finder, loadOfAll fs = Descriptor.totalRequires (stockOfAll fs)
  | [] => rfl
  | f :: fs => by
    rw [loadOfAll, stockOfAll, Descriptor.totalRequires_append, load_eq_totalRequires f,
      loadOfAll_eq_totalRequires fs]

end

end Finder
end ModuleGraph
