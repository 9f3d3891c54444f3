import PinnedTree.Proofs.Tree.Listing

/-! Trees without the names that a filter rejects. A filtered listing of a tree is the listing of
the pruned tree, but for the totals, which count what was pruned as well. -/
namespace PinnedTree.Tree

mutual

/-- A tree without the properties and the children that a filter rejects, at every level. -/
def pruned (filter : NameFilter) : Tree → Tree
  | .node properties children =>
    .node (properties.filter fun property => filter.properties.passes property.1)
      (prunedAll filter children)
  termination_by structural tree => tree

def prunedAll (filter : NameFilter) : List (String × Tree) → List (String × Tree)
  | [] => []
  | child :: rest =>
    if filter.nodes.passes child.1 then prunedChild filter child :: prunedAll filter rest
    else prunedAll filter rest
  termination_by structural children => children

def prunedChild (filter : NameFilter) : String × Tree → String × Tree
  | (name, child) => (name, pruned filter child)
  termination_by structural child => child

end

mutual

/-- A listing with other totals: those of a tree, where the listing of a child below goes with the
child of the same name. Nothing else changes. -/
def recounted (tree : Tree) : Json → Json
  | .object members => .object (recountedMembers tree members)
  | value => value
  termination_by structural value => value

def recountedMembers (tree : Tree) : List (String × Json) → List (String × Json)
  | [] => []
  | member :: rest => recountedMember tree member :: recountedMembers tree rest
  termination_by structural members => members

def recountedMember (tree : Tree) : String × Json → String × Json
  | (name, value) =>
    if name = childNodeCount then tree.totalMember
    else match tree.child? name with
      | some child => (name, recounted child value)
      | none => (name, value)
  termination_by structural member => member

end

/-! ### Pruned trees -/

section Pruned

variable (filter : NameFilter)

theorem prunedAll_eq_map (children : List (String × Tree)) : prunedAll filter children =
    (children.filter fun child => filter.nodes.passes child.1).map
      fun child => (child.1, child.2.pruned filter) := by
  induction children with
  | nil => rfl
  | cons child rest ih =>
      obtain ⟨name, child⟩ := child
      rw [prunedAll, ih]
      by_cases hName : filter.nodes.passes name = true
      · simp [hName, prunedChild]
      · simp [hName]

theorem properties_pruned (node : Tree) : (node.pruned filter).properties =
    node.properties.filter fun property => filter.properties.passes property.1 := by
  cases node
  rfl

/-- The children of a pruned node are those that pass, pruned in turn. -/
theorem children_pruned (node : Tree) : (node.pruned filter).children =
    (node.children.filter fun child => filter.nodes.passes child.1).map
      fun child => (child.1, child.2.pruned filter) := by
  cases node
  exact prunedAll_eq_map filter _

theorem names_children_pruned (node : Tree) : Members.names (node.pruned filter).children =
    (Members.names node.children).filter filter.nodes.passes := by
  rw [children_pruned, Members.names, Members.names, List.map_map, List.filter_map]
  rfl

theorem names_properties_pruned (node : Tree) : Members.names (node.pruned filter).properties =
    (Members.names node.properties).filter filter.properties.passes := by
  rw [properties_pruned, Members.names, Members.names, List.filter_map]
  rfl

/-- Pruning keeps a node well named. -/
theorem WellNamed.pruned {node : Tree} (h : WellNamed node) : WellNamed (node.pruned filter) := by
  have hProperties : ∀ name ∈ Members.names (node.pruned filter).properties,
      name ∈ Members.names node.properties := fun name hName =>
    List.mem_of_mem_filter (names_properties_pruned filter node ▸ hName)
  have hChildren : ∀ name ∈ Members.names (node.pruned filter).children,
      name ∈ Members.names node.children := fun name hName =>
    List.mem_of_mem_filter (names_children_pruned filter node ▸ hName)
  refine ⟨?_, ?_, ?_, ?_, ?_, ?_⟩
  · rw [names_properties_pruned]
    exact h.properties.filter _
  · rw [names_children_pruned]
    exact h.children.filter _
  · exact fun name hChild hProperty =>
      h.disjoint name (hChildren name hChild) (hProperties name hProperty)
  · exact fun hName => h.unreservedProperty (hProperties _ hName)
  · exact fun hName => h.unreservedChild (hChildren _ hName)
  · exact fun name hName => h.childNames name (hChildren name hName)

/-- A pruned tree shows everything that the filter shows of the tree. -/
theorem shownProperties_pruned (node : Tree) :
    (node.pruned filter).shownProperties none = node.shownProperties (some filter) := by
  rw [shownProperties_none, properties_pruned]
  rfl

/-- Without a filter, a pruned node shows the pruned forms of the children that the filter lets
through. -/
theorem shownChildren_pruned (max : Option Nat) (offset : Nat) (node : Tree) :
    (node.pruned filter).shownChildren offset max none =
      (node.shownChildren offset max (some filter)).map
        fun child => (child.1, child.2.pruned filter) := by
  rw [shownChildren_none, children_pruned, ← map_window]
  rfl

end Pruned

/-! ### Totals -/

section Totals

variable {node : Tree}

theorem recountedMembers_eq_map (tree : Tree) (members : List (String × Json)) :
    recountedMembers tree members = members.map (recountedMember tree) := by
  induction members with
  | nil => rfl
  | cons member rest ih => rw [recountedMembers, ih, List.map_cons]

theorem recounted_total (tree other : Tree) :
    recountedMember tree other.totalMember = tree.totalMember := by
  rw [totalMember, recountedMember, if_pos rfl]

/-- Recounting does not change a property. -/
theorem WellNamed.recounted_property (h : WellNamed node) {name : String} (value : Json)
    (hName : name ∈ Members.names node.properties) :
    recountedMember node (name, value) = (name, value) := by
  have hChild : node.child? name = none :=
    Members.find?_eq_none_iff.mpr fun hChild => h.disjoint name hChild hName
  rw [recountedMember, if_neg (ne_of_mem_of_not_mem hName h.unreservedProperty), hChild]

/-- Recounting goes on below a child. -/
theorem WellNamed.recounted_child (h : WellNamed node) {child : String × Tree} (value : Json)
    (hChild : child ∈ node.children) :
    recountedMember node (child.1, value) = (child.1, child.2.recounted value) := by
  have hFound : node.child? child.1 = some child.2 :=
    (Members.find?_eq_some_iff h.children).mpr hChild
  have hName : child.1 ∈ Members.names node.children := List.mem_map_of_mem hChild
  rw [recountedMember, if_neg (ne_of_mem_of_not_mem hName h.unreservedChild), hFound]

/-- One level of a listing: its members go with those of the pruned node, if what is below each
child does. -/
theorem WellNamed.recounted_listing (h : WellNamed node) (filter : NameFilter)
    (max : Option Nat) (depth offset : Nat)
    (hBelow : ∀ child ∈ node.children,
      child.2.recounted (shownBelow max none depth (child.2.pruned filter)) =
        shownBelow max (some filter) depth child.2) :
    recountedMembers node ((node.pruned filter).listing max none depth offset) =
      node.listing max (some filter) depth offset := by
  have hProperties : ∀ property ∈ node.shownProperties (some filter),
      recountedMember node property = property := by
    intro property hProperty
    obtain ⟨own, hOwn, rfl⟩ := List.mem_map.mp hProperty
    exact h.recounted_property _ (List.mem_map_of_mem (List.mem_of_mem_filter hOwn))
  have hChildren : ∀ child ∈ node.shownChildren offset max (some filter),
      recountedMember node (child.1, shownBelow max none depth (child.2.pruned filter)) =
        (child.1, shownBelow max (some filter) depth child.2) := by
    intro child hChild
    have hOwn := (shownChildren_sublist offset max (some filter) node).subset hChild
    rw [h.recounted_child _ hOwn, hBelow child hOwn]
  simp only [recountedMembers_eq_map, listing, List.map_append, shownProperties_pruned,
    shownChildren_pruned, List.map_map, List.map_cons, List.map_nil, recounted_total]
  rw [List.map_congr_left hProperties, List.map_id', ← List.map_congr_left hChildren]
  rfl

/-- Recounting one level of a listing of the pruned node gives that level of the filtered
listing. -/
theorem WellNamed.recounted_level (h : WellNamed node) (filter : NameFilter)
    (max : Option Nat) (depth offset : Nat)
    (hBelow : ∀ child ∈ node.children,
      child.2.recounted (shownBelow max none depth (child.2.pruned filter)) =
        shownBelow max (some filter) depth child.2) :
    node.recounted ((node.pruned filter).render max none depth offset) =
      node.render max (some filter) depth offset := by
  rw [(h.pruned filter).render_eq, h.render_eq, recounted,
    h.recounted_listing filter max depth offset hBelow]

/-- With the totals of the node, the listing of the pruned node is the filtered listing. The
induction is on the depth, since every child is listed anew from its first child on. -/
theorem WellFormed.recounted_render (h : WellFormed node) (filter : NameFilter)
    (max : Option Nat) (depth offset : Nat) :
    node.recounted ((node.pruned filter).render max none depth offset) =
      node.render max (some filter) depth offset := by
  induction depth generalizing node offset with
  | zero =>
      apply h.wellNamed.recounted_level
      intro child _
      rfl
  | succ depth ih =>
      apply h.wellNamed.recounted_level
      intro child hChild
      exact ih (h.of_mem_children hChild) 0

end Totals

end Tree

/-- Filtering a listing is listing the pruned tree. The filtered listing of a tree that can be made
is the listing of what the filter leaves of the tree, with the totals of the whole tree: windows
count what passes, at every level, and totals count everything. -/
theorem filtered_listing {node : Tree} (hNode : node.Built) (filter : NameFilter)
    (max : Option Nat) (depth offset : Nat) :
    node.render max (some filter) depth offset =
      node.recounted ((node.pruned filter).render max none depth offset) :=
  (hNode.wellFormed.recounted_render filter max depth offset).symm

def NameFilter.sample : NameFilter :=
  let rules : NameRules := ⟨[], [⟨[.literal 'l', .anyText]⟩]⟩
  ⟨rules, rules⟩

def Tree.twoLevels : Tree :=
  .node [] [("left", .empty),
    ("right", .node [("length", .one (.number (.integer 3)))] [("left", .empty)])]

/-- The first child is passed over, so the window of one child shows the second. The totals are two
children and one. -/
theorem filtered_listing_sample :
    Tree.twoLevels.Built ∧ Tree.twoLevels.render (some 1) (some .sample) 1 0 =
      .object [("right", .object [(childNodeCount, .atom (.number (.integer 1)))]),
        (childNodeCount, .atom (.number (.integer 2)))] := by
  have hRead : Tree.ofJson Tree.twoLevels.toJson = .ok .twoLevels := rfl
  have hBuilt : Tree.twoLevels.Built := .ofJson hRead
  refine ⟨hBuilt, (filtered_listing hBuilt .sample (some 1) 1 0).trans ?_⟩
  rfl

end PinnedTree
