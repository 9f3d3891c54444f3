import PinnedTree.Double
import PinnedTree.Members

/-!
JSON values. Objects are ordered members; numbers keep apart what is written as an integer and what
is written as a fraction or with an exponent.
-/

namespace PinnedTree

inductive Json.Number where
  | integer (value : Int)
  | float (value : FiniteDouble)
  deriving DecidableEq

/-- A value without parts, other than null. -/
inductive Json.Atom where
  | boolean (value : Bool)
  | number (value : Json.Number)
  | text (value : String)
  deriving DecidableEq

inductive Json where
  | null
  | atom (value : Json.Atom)
  | array (items : List Json)
  | object (members : List (String × Json))

namespace Json

def isObject : Json → Bool
  | .object _ => true
  | _ => false

def atom? : Json → Option Atom
  | .atom value => some value
  | _ => none

end Json

end PinnedTree
