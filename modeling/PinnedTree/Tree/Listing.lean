import PinnedTree.NameFilter
import PinnedTree.Tree

/-!
Listings: one node as a JSON object with its properties, a window of its children, and the total
number of its children. The children are shown down to some depth, and as empty objects below.
-/

namespace PinnedTree

/-- Whether a filter, if there is one, shows a property. -/
def showsProperty (filter : Option NameFilter) (name : String) : Bool :=
  filter.all (·.properties.passes name)

/-- Whether a filter, if there is one, shows a child. -/
def showsNode (filter : Option NameFilter) (name : String) : Bool :=
  filter.all (·.nodes.passes name)

/-- A window of a list: all but the first `offset`, and then at most `max`. -/
def window {α : Type} (offset : Nat) (max : Option Nat) (list : List α) : List α :=
  match max with
  | some max => (list.drop offset).take max
  | none => list.drop offset

namespace Tree

/-- The number of children as the last member of a listing. -/
def totalMember (node : Tree) : String × Json :=
  (childNodeCount, .atom (.number (.integer node.childCount)))

def shownProperties (filter : Option NameFilter) (node : Tree) : List (String × Json) :=
  (node.properties.filter fun property => showsProperty filter property.1).map
    fun property => (property.1, propertyJson property.2)

def shownChildren (offset : Nat) (max : Option Nat) (filter : Option NameFilter) (node : Tree) :
    List (String × Tree) :=
  window offset max (node.children.filter fun child => showsNode filter child.1)

/-- Lists a node. Filter and window go for every level, but only the first skips children; the
total counts all children. -/
def render (max : Option Nat) (filter : Option NameFilter) : Nat → Nat → Tree → Json
  | 0, offset, tree =>
    .object (Members.ofList
      (tree.shownProperties filter ++
        (tree.shownChildren offset max filter).map (fun child => (child.1, .object [])) ++
        [tree.totalMember]))
  | depth + 1, offset, tree =>
    .object (Members.ofList
      (tree.shownProperties filter ++
        (tree.shownChildren offset max filter).map
          (fun child => (child.1, render max filter depth 0 child.2)) ++
        [tree.totalMember]))

end Tree

end PinnedTree
