/-!
Revisions: tokens that name one state of a whole tree. A store mints them, and a reader only passes
them on and compares them.
-/

namespace PinnedTree

/-- The token that names one state of the tree. -/
structure Revision where
  token : String
  deriving DecidableEq, Repr, Inhabited

namespace Revision

def inspect (revision : Revision) : String :=
  "Revision(" ++ revision.token ++ ")"

/-- Revisions are ordered by their tokens, character by character. -/
def precedes (left right : Revision) : Bool :=
  decide (left.token ≤ right.token)

def sorted (revisions : List Revision) : List Revision :=
  revisions.mergeSort precedes

def distinct (revisions : List Revision) : Nat :=
  revisions.eraseDups.length

end Revision

end PinnedTree
