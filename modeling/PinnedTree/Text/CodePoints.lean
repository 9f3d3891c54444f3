/-!
Sets of characters given as ranges of code points, for the properties of characters that a table
states.
-/

namespace PinnedTree.Text

/-- A set of code points: disjoint closed ranges in increasing order. -/
structure CodePoints where
  ranges : List (Nat × Nat)

namespace CodePoints

def contains (points : CodePoints) (c : Char) : Bool :=
  points.ranges.any fun (low, high) => low ≤ c.toNat && c.toNat ≤ high

end CodePoints

end PinnedTree.Text
