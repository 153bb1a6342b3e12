import ModuleGraph.Text.Letter
import ModuleGraph.Text.Number

/-! # Qualified names

A module or package name is a list of identifiers joined by dots. An identifier starts with a
letter, `_` or `$` and goes on with letters, numbers, `_` and `$`. A type name is a package name,
a dot and a simple name.
-/

namespace ModuleGraph

open Text

def isIdentifierStart (c : Char) : Bool := c = '_' || c = '$' || isAlphabetic c

def isIdentifierPart (c : Char) : Bool := isIdentifierStart c || isNumeric c

def isIdentifier : List Char → Bool
  | [] => false
  | c :: cs => isIdentifierStart c && cs.all isIdentifierPart

/-- Whether a text is a module or package name. -/
def isQualifiedName (s : String) : Bool := (s.toList.splitOn '.').all isIdentifier

/-- The package of a type name: the text before its last dot, empty if it has none. -/
def packageOf (typeName : String) : String :=
  .ofList ((typeName.toList.reverse.dropWhile (· != '.')).drop 1).reverse

end ModuleGraph
