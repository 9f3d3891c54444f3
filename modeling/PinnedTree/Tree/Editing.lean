import PinnedTree.Tree

/-!
Editing a node in place. What a call has written before it fails stays written, so that a call has
to check everything before it writes.
-/

namespace PinnedTree

/-- Work on a node that may fail. A failure does not undo what was written before it. -/
abbrev Editing := ExceptT TreeError (StateM Tree)

namespace Editing

def run (editing : Editing Unit) (node : Tree) : Except TreeError Unit × Tree :=
  (ExceptT.run editing).run node

/-- Refuses the reserved name. -/
def checkMemberName (name : String) : Editing Unit :=
  if name = childNodeCount then throw .reservedName else pure ()

/-- Refuses what is not one segment of a path. -/
def checkChildName (name : String) : Editing Unit :=
  match Path.checkName name with
  | .error error => throw (.badName error)
  | .ok () => pure ()

/-- Refuses what is neither an atom nor an array of atoms. -/
def checkPropertyValue (name : String) (value : Json) : Editing (OneOrMany Json.Atom) :=
  match Tree.propertyValue? value with
  | none => throw (.badProperty name value)
  | some property => pure property

def modifyProperties
    (change : Members (OneOrMany Json.Atom) → Members (OneOrMany Json.Atom)) : Editing Unit :=
  modify fun node => .node (change node.properties) node.children

def modifyChildren (change : Members Tree → Members Tree) : Editing Unit :=
  modify fun node => .node node.properties (change node.children)

def setProperty (name : String) (value : Json) : Editing Unit := do
  checkMemberName name
  let property ← checkPropertyValue name value
  modifyChildren (Members.without name)
  modifyProperties (Members.put name property)

def setChild (name : String) (child : Tree) : Editing Unit := do
  checkMemberName name
  checkChildName name
  modifyProperties (Members.without name)
  modifyChildren (Members.put name child)

end Editing

/-- A call that writes one entry of a node. -/
inductive Edit where
  | property (name : String) (value : Json)
  | child (name : String) (tree : Tree)

namespace Edit

def name : Edit → String
  | .property name _ => name
  | .child name _ => name

def property? : Edit → Option Json
  | .property _ value => some value
  | .child _ _ => none

def child? : Edit → Option Tree
  | .property _ _ => none
  | .child _ tree => some tree

def perform : Edit → Editing Unit
  | .property name value => Editing.setProperty name value
  | .child name tree => Editing.setChild name tree

/-- The answer of the call, and the node afterwards. -/
def call (edit : Edit) (node : Tree) : Except TreeError Unit × Tree :=
  edit.perform.run node

end Edit

namespace Tree

/-- A node after calls one after the other. A call that fails does not stop those behind it. -/
def edited (node : Tree) (edits : List Edit) : Tree :=
  edits.foldl (fun node edit => (edit.call node).2) node

/-- The calls that succeed when all are made one after the other. -/
def succeeding (node : Tree) : List Edit → List Edit
  | [] => []
  | edit :: edits =>
    match edit.call node with
    | (.ok (), next) => edit :: succeeding next edits
    | (.error _, next) => succeeding next edits

end Tree

end PinnedTree
