/-! # Sets of code points as ranges

A property of characters is given by the ascending list of the closed ranges where it holds.
-/

namespace ModuleGraph.Text

/-- Whether a code point lies in one of the ranges, which ascend. -/
def inRanges (code : Nat) : List (Nat × Nat) → Bool
  | [] => false
  | (lo, hi) :: rest => if code < lo then false else code ≤ hi || inRanges code rest

end ModuleGraph.Text
