import PinnedTree.Tree

/-!
Trees as JSON values: a node is an object, whose members are children where they are objects, and
properties where they are anything else.
-/

namespace PinnedTree.Tree

mutual

/-- Reads a tree from a JSON value. -/
def ofJson : Json → Except TreeError Tree
  | .object members => setMembers empty members
  | value => .error (.notObject value)
  termination_by structural value => value

def setMembers (node : Tree) : List (String × Json) → Except TreeError Tree
  | [] => .ok node
  | member :: rest => do
    let node ← setMember node member
    setMembers node rest
  termination_by structural members => members

/-- Writes one member of an object into a node. -/
def setMember (node : Tree) : String × Json → Except TreeError Tree
  | (name, value) =>
    if value.isObject then do
      let child ← ofJson value
      node.setChild name child
    else node.setProperty name value
  termination_by structural member => member

end

mutual

/-- A tree as a JSON value: the properties, then the children with all that is below them. -/
def toJson : Tree → Json
  | .node properties children =>
    .object (Members.ofList
      (properties.map (fun property => (property.1, propertyJson property.2)) ++
        childMembers children))
  termination_by structural tree => tree

def childMembers : List (String × Tree) → List (String × Json)
  | [] => []
  | child :: rest => childMember child :: childMembers rest
  termination_by structural children => children

def childMember : String × Tree → String × Json
  | (name, child) => (name, toJson child)
  termination_by structural child => child

end

end PinnedTree.Tree
