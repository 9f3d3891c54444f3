import PinnedTree.Json.Writer
import PinnedTree.Path
import PinnedTree.Scalar

/-!
Trees of nodes. A node has properties, each an atom or a list of atoms, and named children in
order. A name is either a property or a child of a node: writing it as the one removes it as the
other.
-/

namespace PinnedTree

/-- A node with everything below it. -/
inductive Tree where
  | node (properties : List (String × OneOrMany Json.Atom)) (children : List (String × Tree))

/-- The member of a listing that gives the number of children. No node may use its name. -/
def childNodeCount : String := ":childNodeCount"

inductive TreeError where
  | notObject (value : Json)
  | reservedName
  | badProperty (name : String) (value : Json)
  | badName (error : NameError)

namespace TreeError

def message : TreeError → String
  | notObject value => "invalid node: expected an object, got " ++ value.text
  | reservedName => "invalid node: " ++ childNodeCount ++ " is reserved"
  | badProperty name value =>
    "invalid node: property " ++ Text.quote name
      ++ " must be a scalar or an array of scalars, got " ++ value.text
  | badName error => error.message

end TreeError

namespace Tree

def empty : Tree :=
  .node [] []

instance : Inhabited Tree := ⟨empty⟩

def properties : Tree → Members (OneOrMany Json.Atom)
  | .node properties _ => properties

def children : Tree → Members Tree
  | .node _ children => children

def property? (node : Tree) (name : String) : Option (OneOrMany Json.Atom) :=
  node.properties.find? name

def child? (node : Tree) (name : String) : Option Tree :=
  node.children.find? name

/-- The number of children. -/
def childCount (node : Tree) : Nat :=
  node.children.length

mutual

/-- The number of nodes in the tree, its root included. -/
def nodeCount : Tree → Nat
  | .node _ children => 1 + nodeCountAll children

def nodeCountAll : List (String × Tree) → Nat
  | [] => 0
  | (_, child) :: rest => nodeCount child + nodeCountAll rest

end

mutual

/-- The number of levels below the root. -/
def height : Tree → Nat
  | .node _ children => heightAll children

/-- The number of levels that several trees make below a node that holds them. -/
def heightAll : List (String × Tree) → Nat
  | [] => 0
  | (_, child) :: rest => max (height child + 1) (heightAll rest)

end

/-- What a JSON value is as a property: an atom, or an array of atoms. -/
def propertyValue? : Json → Option (OneOrMany Json.Atom)
  | .atom value => some (.one value)
  | .array items => (items.mapM Json.atom?).map .many
  | _ => none

def propertyJson : OneOrMany Json.Atom → Json
  | .one value => .atom value
  | .many values => .array (values.map .atom)

/-- Writes a property, in place of a property or child of the same name. -/
def setProperty (node : Tree) (name : String) (value : Json) : Except TreeError Tree :=
  if name = childNodeCount then .error .reservedName
  else match propertyValue? value with
    | none => .error (.badProperty name value)
    | some property => .ok (.node (node.properties.put name property) (node.children.without name))

/-- Writes a child, in place of a property or child of the same name. -/
def setChild (node : Tree) (name : String) (child : Tree) : Except TreeError Tree :=
  if name = childNodeCount then .error .reservedName
  else match Path.checkName name with
    | .error error => .error (.badName error)
    | .ok () => .ok (.node (node.properties.without name) (node.children.put name child))

/-- The node at the end of the path that `names` make up, if there is one. -/
def walk? (node : Tree) : List String → Option Tree
  | [] => some node
  | name :: names =>
    match node.child? name with
    | some child => child.walk? names
    | none => none

end Tree

end PinnedTree
