import PinnedTree.Proofs.Listing.Members
import PinnedTree.Proofs.Tree.Json

/-! How deep trees go, and how deep listings show them. A listing that shows fewer levels is one
that shows more of them, cut off below. A listing that shows all levels has a total at every node,
and without the totals it is the tree as it is written, which can be read back. -/
namespace PinnedTree

namespace Json

/-- A value whose objects are empty where they stand `levels` members below the top. In listings an
array holds no objects, and it stays as it is. -/
def cut : Nat → Json → Json
  | 0, .object _ => .object []
  | levels + 1, .object members =>
    .object (members.map fun member => (member.1, cut levels member.2))
  | _, value => value

theorem cut_zero {value : Json} (h : value.isObject = true) : value.cut 0 = .object [] := by
  cases value with
  | object members => rfl
  | null => cases h
  | atom value => cases h
  | array items => cases h

/-- A value that is no object is not cut. -/
theorem cut_of_not_object {value : Json} (h : value.isObject = false) (levels : Nat) :
    value.cut levels = value := by
  cases value with
  | object members => cases h
  | null => cases levels <;> rfl
  | atom value => cases levels <;> rfl
  | array items => cases levels <;> rfl

mutual

/-- A value without the members that give totals, at every level. -/
def withoutTotals : Json → Json
  | .object members => .object (withoutTotalsIn members)
  | value => value
  termination_by structural value => value

def withoutTotalsIn : List (String × Json) → List (String × Json)
  | [] => []
  | member :: rest =>
    if member.1 = childNodeCount then withoutTotalsIn rest
    else withoutTotalsBelow member :: withoutTotalsIn rest
  termination_by structural members => members

def withoutTotalsBelow : String × Json → String × Json
  | (name, value) => (name, withoutTotals value)
  termination_by structural member => member

end

/-- Members without totals are those of other names, each without totals below. -/
theorem withoutTotalsIn_eq_map (members : List (String × Json)) : withoutTotalsIn members =
    (members.filter fun member => member.1 ≠ childNodeCount).map
      fun member => (member.1, member.2.withoutTotals) := by
  induction members with
  | nil => rfl
  | cons member rest ih =>
      obtain ⟨name, value⟩ := member
      rw [withoutTotalsIn, ih]
      by_cases hName : name = childNodeCount
      · simp [hName]
      · simp [hName, withoutTotalsBelow]

theorem withoutTotalsIn_append (front rest : List (String × Json)) :
    withoutTotalsIn (front ++ rest) = withoutTotalsIn front ++ withoutTotalsIn rest := by
  simp only [withoutTotalsIn_eq_map, List.filter_append, List.map_append]

/-- Only members of the reserved name are left out. -/
theorem withoutTotalsIn_of_notMem {members : List (String × Json)}
    (h : childNodeCount ∉ Members.names members) :
    withoutTotalsIn members = members.map fun member => (member.1, member.2.withoutTotals) := by
  rw [withoutTotalsIn_eq_map, List.filter_eq_self.mpr]
  intro member hMember
  exact decide_eq_true (ne_of_mem_of_not_mem (List.mem_map_of_mem hMember) h)

theorem withoutTotals_of_not_object {value : Json} (h : value.isObject = false) :
    value.withoutTotals = value := by
  cases value with
  | object members => cases h
  | null => rfl
  | atom value => rfl
  | array items => rfl

end Json

namespace Tree

/-! ### Height -/

theorem height_lt_heightAll : ∀ {children : List (String × Tree)} {child : String × Tree},
    child ∈ children → child.2.height < heightAll children
  | _ :: _, _, .head _ => by
      rw [heightAll]
      omega
  | _ :: _, _, .tail _ h => by
      have hRest := height_lt_heightAll h
      rw [heightAll]
      omega

/-- A child has fewer levels below it than its parent. -/
theorem height_lt_of_mem {tree : Tree} {child : String × Tree} (h : child ∈ tree.children) :
    child.2.height < tree.height := by
  cases tree with
  | node properties children => exact height_lt_heightAll h

/-! ### Fewer levels -/

section Cut

variable {node : Tree} {max : Option Nat} {filter : Option NameFilter}

/-- A child is listed as an object at every depth. -/
theorem isObject_shownBelow (max : Option Nat) (filter : Option NameFilter) (depth : Nat)
    (tree : Tree) : (shownBelow max filter depth tree).isObject = true := by
  cases depth with
  | zero => rfl
  | succ depth => rw [shownBelow, render_eq_ofList, Json.isObject]

/-- One level of a listing is cut by cutting what it shows below each child. -/
theorem WellNamed.cut_level (h : node.WellNamed) {depth deeper : Nat} (offset : Nat)
    (hBelow : ∀ child ∈ node.children, (shownBelow max filter deeper child.2).cut depth =
      shownBelow max filter depth child.2) :
    (node.render max filter deeper offset).cut (depth + 1) =
      node.render max filter depth offset := by
  have hProperties : ∀ property ∈ node.shownProperties filter,
      (property.1, property.2.cut depth) = property := by
    intro property hProperty
    obtain ⟨own, -, rfl⟩ := List.mem_map.mp hProperty
    rw [Json.cut_of_not_object (isObject_propertyJson own.2)]
  have hChildren : ∀ child ∈ node.shownChildren offset max filter,
      (child.1, (shownBelow max filter deeper child.2).cut depth) =
        (child.1, shownBelow max filter depth child.2) := by
    intro child hChild
    rw [hBelow child ((shownChildren_sublist offset max filter node).subset hChild)]
  have hTotal : (node.totalMember.1, node.totalMember.2.cut depth) = node.totalMember := by
    rw [totalMember, Json.cut_of_not_object rfl]
  rw [h.render_eq, h.render_eq, Json.cut, listing, listing, List.map_append, List.map_append,
    List.map_map, List.map_congr_left hProperties, List.map_id', List.map_singleton, hTotal,
    ← List.map_congr_left hChildren]
  rfl

/-- A listing of more levels is the one of fewer levels when it is cut off below. The induction is
on the depth of the listing that shows less. Each child is listed anew from its first child on. -/
theorem WellFormed.cut_render (h : node.WellFormed) {depth deeper : Nat} (hDepth : depth ≤ deeper)
    (offset : Nat) :
    (node.render max filter deeper offset).cut (depth + 1) =
      node.render max filter depth offset := by
  induction depth generalizing node deeper offset with
  | zero =>
      apply h.wellNamed.cut_level
      intro child _
      exact Json.cut_zero (isObject_shownBelow max filter deeper child.2)
  | succ depth ih =>
      obtain ⟨more, rfl⟩ := Nat.exists_eq_add_of_le' hDepth
      apply h.wellNamed.cut_level
      intro child hChild
      exact ih (h.of_mem_children hChild) (Nat.le_add_left depth more) 0

end Cut

/-! ### All levels -/

section Whole

variable {node : Tree}

theorem window_all {α : Type} (list : List α) : window 0 none list = list := rfl

/-- The totals are all that a listing of a whole node has besides the node. -/
theorem WellNamed.withoutTotals_level (h : node.WellNamed) {depth : Nat}
    (hBelow : ∀ child ∈ node.children,
      (shownBelow none none depth child.2).withoutTotals = child.2.toJson) :
    (node.render none none depth 0).withoutTotals = node.toJson := by
  have hProperties : Json.withoutTotalsIn node.propertyMembers = node.propertyMembers := by
    rw [Json.withoutTotalsIn_of_notMem (names_propertyMembers node ▸ h.unreservedProperty)]
    refine (List.map_congr_left fun member hMember => ?_).trans (List.map_id _)
    obtain ⟨property, -, rfl⟩ := List.mem_map.mp hMember
    rw [Json.withoutTotals_of_not_object (isObject_propertyJson property.2), id]
  have hChildren : Json.withoutTotalsIn (node.children.map fun child =>
      (child.1, shownBelow none none depth child.2)) = childMembers node.children := by
    have hNames : Members.names (node.children.map fun child =>
        (child.1, shownBelow none none depth child.2)) = Members.names node.children :=
      List.map_map
    rw [Json.withoutTotalsIn_of_notMem (hNames ▸ h.unreservedChild), List.map_map,
      childMembers_eq_map]
    exact List.map_congr_left fun child hChild => congrArg (child.1, ·) (hBelow child hChild)
  have hTotal : Json.withoutTotalsIn [node.totalMember] = [] := by
    rw [Json.withoutTotalsIn, totalMember, if_pos rfl, Json.withoutTotalsIn]
  rw [h.render_eq, h.toJson_eq, Json.withoutTotals, listing, shownProperties_none,
    shownChildren_none, window_all, Json.withoutTotalsIn_append, Json.withoutTotalsIn_append,
    hChildren, hTotal, List.append_nil]
  exact congrArg (fun members => Json.object (members ++ childMembers node.children)) hProperties

/-- A listing of all levels is the tree as it is written, but for the totals. The induction is on
the depth, which the height of the node does not exceed. -/
theorem WellFormed.withoutTotals_render (h : node.WellFormed) {depth : Nat}
    (hHeight : node.height ≤ depth) :
    (node.render none none depth 0).withoutTotals = node.toJson := by
  induction depth generalizing node with
  | zero =>
      apply h.wellNamed.withoutTotals_level
      intro child hChild
      have hBelow := height_lt_of_mem hChild
      omega
  | succ depth ih =>
      apply h.wellNamed.withoutTotals_level
      intro child hChild
      have hBelow := height_lt_of_mem hChild
      exact ih (h.of_mem_children hChild) (by omega)

end Whole

end Tree

/-- Depth only cuts listings. What a listing of fewer levels shows is what one of more levels shows,
with nothing in the objects below the depth, whatever the window and the filter are. A listing of
all levels, without window and filter, is the tree as it is written and a total at every node:
without the totals it is read back as the tree. -/
theorem listing_depth_cuts {node : Tree} (hNode : node.Built) :
    (∀ max filter depth deeper offset, depth ≤ deeper →
      (node.render max filter deeper offset).cut (depth + 1) =
        node.render max filter depth offset) ∧
      ∀ depth, node.height ≤ depth →
        (node.render none none depth 0).withoutTotals = node.toJson ∧
          Tree.ofJson (node.render none none depth 0).withoutTotals = .ok node := by
  have hFormed := hNode.wellFormed
  refine ⟨fun max filter depth deeper offset hDepth => hFormed.cut_render hDepth offset, ?_⟩
  intro depth hHeight
  have hWhole := hFormed.withoutTotals_render hHeight
  exact ⟨hWhole, by rw [hWhole, hFormed.ofJson_toJson]⟩

def Tree.threeLevels : Tree :=
  .node [] [("a", .node [("size", .one (.number (.integer 3)))] [("b", .empty)])]

/-- The tree has a listing of two levels. Cut off below one level, it is the listing of that depth,
and without its totals it is the tree. -/
theorem listing_depth_cuts_sample :
    Tree.threeLevels.Built ∧
      (Tree.threeLevels.render (some 5) none 2 0).cut 1 =
        .object [("a", .object []), (childNodeCount, .atom (.number (.integer 1)))] ∧
      Tree.threeLevels.height ≤ 2 ∧
      Tree.ofJson (Tree.threeLevels.render none none 2 0).withoutTotals = .ok .threeLevels := by
  have hRead : Tree.ofJson Tree.threeLevels.toJson = .ok .threeLevels := rfl
  have hBuilt : Tree.threeLevels.Built := .ofJson hRead
  obtain ⟨hCut, hWhole⟩ := listing_depth_cuts hBuilt
  have hHeight : Tree.threeLevels.height ≤ 2 := by decide
  exact ⟨hBuilt, (hCut (some 5) none 0 2 0 (by decide)).trans rfl, hHeight, (hWhole 2 hHeight).2⟩

end PinnedTree
