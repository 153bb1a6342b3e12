import ModuleGraph.Toml.Number
import ModuleGraph.Toml.DateTime

/-! # Scalars without quotes

Numbers, booleans and date-times are one word each, but for a date and a time with a blank between
them. A reader that has no use for their values needs only where they end.
-/

namespace ModuleGraph.Toml

def endsWord (c : Char) : Bool :=
  isBlank c || c = '\n' || c = '\r' || c = ',' || c = ']' || c = '}' || c = '#'

def splitWord (cs : List Char) : List Char × List Char :=
  (cs.takeWhile (fun c => !endsWord c), cs.dropWhile (fun c => !endsWord c))

def isScalar (cs : List Char) : Bool :=
  cs = ['t', 'r', 'u', 'e'] || cs = ['f', 'a', 'l', 's', 'e'] || isNumber cs || isDateTime cs

def afterScalar? (cs : List Char) : Option (List Char) :=
  let (word, rest) := splitWord cs
  match rest with
  | ' ' :: more =>
    if isDate word ∧ isZonedTime (splitWord more).1 then some (splitWord more).2
    else if isScalar word then some rest
    else none
  | _ => if isScalar word then some rest else none

end ModuleGraph.Toml
