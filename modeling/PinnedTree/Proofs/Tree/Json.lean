import PinnedTree.Proofs.Json.Keys
import PinnedTree.Proofs.Tree.Property

/-! Trees and JSON values. What can be read as a tree is described without the reader. Reading and
writing undo each other but for the order of members: a tree is written with its properties first,
at every level. -/
namespace PinnedTree

/-! ### Values that are trees -/

namespace Json

mutual

/-- An object of members that a node can have. -/
inductive IsNode : Json → Prop where
  | object {members : List (String × Json)} (h : ∀ member ∈ members, IsMember member) :
      IsNode (.object members)

/-- No name is reserved. What stands under it is a node, and then the name is one segment of a
path, or an atom or an array of atoms. -/
inductive IsMember : String × Json → Prop where
  | child {name : String} {value : Json} (hReserved : name ≠ childNodeCount)
      (hName : Path.IsName name) (hNode : IsNode value) : IsMember (name, value)
  | property {name : String} {value : Json} (hReserved : name ≠ childNodeCount)
      (hValue : IsPropertyValue value) : IsMember (name, value)

end

theorem IsNode.isObject {value : Json} : IsNode value → value.isObject = true
  | .object _ => rfl

theorem IsPropertyValue.isObject {value : Json} : IsPropertyValue value → value.isObject = false
  | .one _ => rfl
  | .many _ => rfl

end Json

namespace Tree

mutual

/-- A value is read as a tree exactly if it is a node. The recursion goes along the value, as
reading does. -/
theorem exists_ofJson_iff : ∀ {value : Json}, (∃ tree, ofJson value = .ok tree) ↔ value.IsNode
  | .object members => by
      have hMembers : (∃ tree, ofJson (.object members) = .ok tree) ↔
          ∀ member ∈ members, Json.IsMember member := exists_setMembers_iff
      rw [hMembers]
      exact ⟨.object, fun | .object h => h⟩
  | .null => ⟨nofun, nofun⟩
  | .atom _ => ⟨nofun, nofun⟩
  | .array _ => ⟨nofun, nofun⟩
  termination_by structural value => value

/-- Members are written exactly when each of them can be. -/
theorem exists_setMembers_iff : ∀ {members : List (String × Json)} {node : Tree},
    (∃ next, setMembers node members = .ok next) ↔ ∀ member ∈ members, Json.IsMember member
  | [], before => ⟨fun _ => nofun, fun _ => ⟨before, rfl⟩⟩
  | member :: rest, before => by
      rw [List.forall_mem_cons]
      constructor
      · rintro ⟨next, h⟩
        obtain ⟨written, hFirst, hRest⟩ := exists_of_bind_eq_ok h
        exact ⟨exists_setMember_iff.mp ⟨written, hFirst⟩, exists_setMembers_iff.mp ⟨next, hRest⟩⟩
      · rintro ⟨hFirst, hRest⟩
        obtain ⟨written, hWritten⟩ : ∃ written, setMember before member = .ok written :=
          exists_setMember_iff.mpr hFirst
        obtain ⟨next, hNext⟩ : ∃ next, setMembers written rest = .ok next :=
          exists_setMembers_iff.mpr hRest
        refine ⟨next, ?_⟩
        rw [setMembers, hWritten]
        exact hNext
  termination_by structural members => members

/-- A member is written exactly when it is one that a node can have. -/
theorem exists_setMember_iff : ∀ {member : String × Json} {node : Tree},
    (∃ next, setMember node member = .ok next) ↔ Json.IsMember member
  | (name, value), before => by
      constructor
      · rintro ⟨next, h⟩
        rcases setMember_cases h with ⟨child, -, hRead, hSet⟩ | ⟨-, hSet⟩
        · obtain ⟨hReserved, hName⟩ := exists_setChild_iff.mp ⟨next, hSet⟩
          exact .child hReserved hName (exists_ofJson_iff.mp ⟨child, hRead⟩)
        · obtain ⟨hReserved, hValue⟩ := exists_setProperty_iff.mp ⟨next, hSet⟩
          exact .property hReserved hValue
      · rintro (⟨hReserved, hName, hNode⟩ | ⟨hReserved, hValue⟩)
        · obtain ⟨child, hChild⟩ := exists_ofJson_iff.mpr hNode
          rw [setMember_object hNode.isObject, hChild]
          exact exists_setChild_iff.mpr ⟨hReserved, hName⟩
        · rw [setMember_other hValue.isObject]
          exact exists_setProperty_iff.mpr ⟨hReserved, hValue⟩
  termination_by structural member => member

end

end Tree

/-! ### Properties first -/

namespace Json

mutual

/-- A value with the members that are objects behind the others, at every level, and each kind in
its order. -/
def propertiesFirst : Json → Json
  | .object members =>
    .object ((propertiesFirstIn members).filter (fun member => !member.2.isObject) ++
      (propertiesFirstIn members).filter fun member => member.2.isObject)
  | value => value
  termination_by structural value => value

def propertiesFirstIn : List (String × Json) → List (String × Json)
  | [] => []
  | member :: rest => propertiesFirstBelow member :: propertiesFirstIn rest
  termination_by structural members => members

def propertiesFirstBelow : String × Json → String × Json
  | (name, value) => (name, propertiesFirst value)
  termination_by structural member => member

end

theorem isObject_propertiesFirst (value : Json) :
    value.propertiesFirst.isObject = value.isObject := by
  cases value <;> rfl

theorem propertiesFirst_of_not_object {value : Json} (h : value.isObject = false) :
    value.propertiesFirst = value := by
  cases value with
  | object members => cases h
  | null => rfl
  | atom value => rfl
  | array items => rfl

end Json

namespace Tree

/-! ### What is written -/

def propertyMembers (node : Tree) : List (String × Json) :=
  node.properties.map fun property => (property.1, propertyJson property.2)

theorem childMembers_eq_map (children : List (String × Tree)) :
    childMembers children = children.map fun child => (child.1, child.2.toJson) := by
  induction children with
  | nil => rfl
  | cons child rest ih => rw [childMembers, ih, List.map_cons, childMember]

theorem names_propertyMembers (node : Tree) :
    Members.names node.propertyMembers = Members.names node.properties := by
  simp [propertyMembers, Members.names]

theorem names_childMembers (children : List (String × Tree)) :
    Members.names (childMembers children) = Members.names children := by
  simp [childMembers_eq_map, Members.names]

/-- A node is written with all its entries, of which none takes the place of another. -/
theorem WellNamed.toJson_eq {node : Tree} (h : WellNamed node) :
    node.toJson = .object (node.propertyMembers ++ childMembers node.children) := by
  cases node with
  | node properties children =>
      rw [toJson]
      refine congrArg Json.object (Members.ofList_of_nodup ?_)
      have hNames : (properties.map fun property => (property.1, propertyJson property.2)).map
          Prod.fst = Members.names properties := names_propertyMembers (.node properties children)
      have hChildren : (childMembers children).map Prod.fst = Members.names children :=
        names_childMembers children
      rw [List.map_append, hNames, hChildren, List.nodup_append]
      refine ⟨h.properties, h.children, ?_⟩
      rintro name hProperty _ hChild rfl
      exact h.disjoint name hChild hProperty

/-! ### Writing what was read -/

/-- A name that a node does not have. -/
structure IsNew (node : Tree) (name : String) : Prop where
  property : name ∉ Members.names node.properties
  child : name ∉ Members.names node.children

/-- A new property goes behind the others. -/
theorem IsNew.setProperty_eq {node next : Tree} {name : String} {value : Json}
    (hNew : node.IsNew name) (h : node.setProperty name value = .ok next) :
    ∃ property, propertyValue? value = some property ∧
      next = .node (node.properties ++ [(name, property)]) node.children := by
  obtain ⟨-, property, hValue, rfl⟩ := setProperty_eq_ok h
  refine ⟨property, hValue, ?_⟩
  rw [Members.put_of_notMem hNew.property, Members.without_of_notMem hNew.child]

/-- A new child goes behind the others. -/
theorem IsNew.setChild_eq {node child next : Tree} {name : String} (hNew : node.IsNew name)
    (h : node.setChild name child = .ok next) :
    next = .node node.properties (node.children ++ [(name, child)]) := by
  obtain ⟨-, -, rfl⟩ := setChild_eq_ok h
  rw [Members.put_of_notMem hNew.child, Members.without_of_notMem hNew.property]

/-- A member does not bring in any name but its own. -/
theorem IsNew.setMember {node next : Tree} {name other : String} {value : Json}
    (hOther : node.IsNew other) (hNe : other ≠ name)
    (h : setMember node (name, value) = .ok next) : next.IsNew other := by
  rcases setMember_cases h with ⟨child, -, -, hSet⟩ | ⟨-, hSet⟩
  · obtain ⟨-, -, rfl⟩ := setChild_eq_ok hSet
    refine ⟨fun hMem => hOther.property (Members.mem_names_without.mp hMem).1, fun hMem => ?_⟩
    exact (Members.mem_names_put.mp hMem).elim hNe hOther.child
  · obtain ⟨-, property, -, rfl⟩ := setProperty_eq_ok hSet
    refine ⟨fun hMem => ?_, fun hMem => hOther.child (Members.mem_names_without.mp hMem).1⟩
    exact (Members.mem_names_put.mp hMem).elim hNe hOther.property

/-- A new member is written behind the others of its kind. -/
theorem members_of_setMember {node next : Tree} {name : String} {value : Json}
    (hNew : node.IsNew name)
    (hBelow : ∀ child, ofJson value = .ok child → child.toJson = value.propertiesFirst)
    (h : setMember node (name, value) = .ok next) :
    next.propertyMembers = node.propertyMembers ++
        [(name, value.propertiesFirst)].filter (fun member => !member.2.isObject) ∧
      childMembers next.children = childMembers node.children ++
        [(name, value.propertiesFirst)].filter fun member => member.2.isObject := by
  rcases setMember_cases h with ⟨child, hObject, hRead, hSet⟩ | ⟨hObject, hSet⟩
  · rw [hNew.setChild_eq hSet]
    simp [propertyMembers, properties, children, childMembers_eq_map, hBelow child hRead,
      Json.isObject_propertiesFirst, hObject]
  · obtain ⟨property, hValue, rfl⟩ := hNew.setProperty_eq hSet
    simp [propertyMembers, properties, children, propertyJson_of_propertyValue? hValue,
      Json.propertiesFirst_of_not_object, hObject]

/-- Members of new names come behind those of a node: the objects behind its children, the others
behind its properties. -/
theorem members_of_setMembers {members : List (String × Json)} {node next : Tree}
    (hNames : (Members.names members).Nodup)
    (hNew : ∀ name ∈ Members.names members, node.IsNew name)
    (hBelow : ∀ member ∈ members, ∀ child, ofJson member.2 = .ok child →
      child.toJson = member.2.propertiesFirst)
    (h : setMembers node members = .ok next) :
    next.propertyMembers = node.propertyMembers ++
        (Json.propertiesFirstIn members).filter (fun member => !member.2.isObject) ∧
      childMembers next.children = childMembers node.children ++
        (Json.propertiesFirstIn members).filter fun member => member.2.isObject := by
  induction members generalizing node with
  | nil =>
      cases h
      simp [Json.propertiesFirstIn]
  | cons member rest ih =>
      obtain ⟨name, value⟩ := member
      rw [setMembers] at h
      obtain ⟨written, hFirst, hRest⟩ := exists_of_bind_eq_ok h
      obtain ⟨hFresh, hDistinct⟩ := List.nodup_cons.mp hNames
      have hStep := members_of_setMember (hNew name List.mem_cons_self)
        (hBelow _ List.mem_cons_self) hFirst
      have hRestNew : ∀ other ∈ Members.names rest, written.IsNew other := fun other hOther =>
        (hNew other (List.mem_cons_of_mem _ hOther)).setMember
          (ne_of_mem_of_not_mem hOther hFresh) hFirst
      obtain ⟨hProperties, hChildren⟩ := ih hDistinct hRestNew
        (fun member hMember => hBelow member (List.mem_cons_of_mem _ hMember)) hRest
      rw [hProperties, hChildren, hStep.1, hStep.2, Json.propertiesFirstIn,
        Json.propertiesFirstBelow, List.append_assoc, List.append_assoc, ← List.filter_append,
        ← List.filter_append]
      exact ⟨rfl, rfl⟩

/-- A tree that was read is written with the properties first at every level. The induction is on
the value, whose members are read in their order. -/
theorem toJson_of_ofJson {value : Json} (hKeys : value.WellKeyed) {tree : Tree}
    (h : ofJson value = .ok tree) : tree.toJson = value.propertiesFirst := by
  induction hKeys generalizing tree with
  | null => cases h
  | atom value => cases h
  | array _ _ => cases h
  | @object members names values ih =>
      have hMembers : setMembers empty members = .ok tree := h
      have hNew : ∀ name ∈ Members.names members, empty.IsNew name := fun name _ =>
        ⟨List.not_mem_nil, List.not_mem_nil⟩
      obtain ⟨hProperties, hChildren⟩ := members_of_setMembers names hNew
        (fun member hMember child hChild => ih member hMember hChild) hMembers
      rw [(wellFormed_ofJson h).wellNamed.toJson_eq, hProperties, hChildren, Json.propertiesFirst]
      rfl

/-! ### Reading what was written -/

theorem setMembers_append (node : Tree) (front rest : List (String × Json)) :
    setMembers node (front ++ rest) =
      setMembers node front >>= fun written => setMembers written rest := by
  induction front generalizing node with
  | nil => rfl
  | cons member front ih =>
      rw [List.cons_append, setMembers, setMembers]
      cases setMember node member with
      | error error => rfl
      | ok written => exact ih written

/-- A property of a new name comes behind the others. -/
theorem IsNew.setMember_property {node : Tree} {name : String} (hNew : node.IsNew name)
    (hReserved : name ≠ childNodeCount) (property : OneOrMany Json.Atom) :
    Tree.setMember node (name, propertyJson property) =
      .ok (.node (node.properties ++ [(name, property)]) node.children) := by
  rw [setMember_other (isObject_propertyJson property),
    setProperty_of_value hReserved (propertyValue?_propertyJson property),
    Members.put_of_notMem hNew.property, Members.without_of_notMem hNew.child]

theorem isObject_toJson (tree : Tree) : tree.toJson.isObject = true := by
  cases tree
  rfl

/-- A child of a new name comes behind the others. -/
theorem IsNew.setMember_child {node child : Tree} {name : String} (hNew : node.IsNew name)
    (hReserved : name ≠ childNodeCount) (hName : Path.IsName name)
    (hRead : ofJson child.toJson = .ok child) :
    Tree.setMember node (name, child.toJson) =
      .ok (.node node.properties (node.children ++ [(name, child)])) := by
  rw [setMember_object (isObject_toJson child), hRead]
  change node.setChild name child = _
  rw [setChild_of_name hReserved hName, Members.put_of_notMem hNew.child,
    Members.without_of_notMem hNew.property]

/-- Properties of new and different names come behind the others. -/
theorem setMembers_properties {front rest : List (String × OneOrMany Json.Atom)}
    (hNames : (Members.names (front ++ rest)).Nodup)
    (hReserved : childNodeCount ∉ Members.names rest) :
    setMembers (.node front []) (rest.map fun property => (property.1, propertyJson property.2)) =
      .ok (.node (front ++ rest) []) := by
  induction rest generalizing front with
  | nil => simp [setMembers]
  | cons property rest ih =>
      obtain ⟨name, value⟩ := property
      rw [Members.names_cons, List.mem_cons, not_or] at hReserved
      have hNew : (Tree.node front []).IsNew name :=
        ⟨Members.notMem_names_of_nodup hNames, List.not_mem_nil⟩
      rw [List.map_cons, setMembers, hNew.setMember_property (Ne.symm hReserved.1) value,
        List.append_cons front (name, value) rest]
      exact ih (by rwa [← List.append_cons]) hReserved.2

/-- Children of new and different names come behind the others. -/
theorem setMembers_children {properties : List (String × OneOrMany Json.Atom)}
    {front rest : List (String × Tree)} (hNames : (Members.names (front ++ rest)).Nodup)
    (hDisjoint : ∀ name ∈ Members.names rest, name ∉ Members.names properties)
    (hReserved : childNodeCount ∉ Members.names rest)
    (hPath : ∀ name ∈ Members.names rest, Path.IsName name)
    (hRead : ∀ child ∈ rest, ofJson child.2.toJson = .ok child.2) :
    setMembers (.node properties front) (childMembers rest) =
      .ok (.node properties (front ++ rest)) := by
  induction rest generalizing front with
  | nil => simp [setMembers, childMembers]
  | cons child rest ih =>
      obtain ⟨name, child⟩ := child
      rw [Members.names_cons, List.mem_cons, not_or] at hReserved
      have hNew : (Tree.node properties front).IsNew name :=
        ⟨hDisjoint name List.mem_cons_self, Members.notMem_names_of_nodup hNames⟩
      rw [childMembers, childMember, setMembers,
        hNew.setMember_child (Ne.symm hReserved.1) (hPath name List.mem_cons_self)
          (hRead _ List.mem_cons_self), List.append_cons front (name, child) rest]
      exact ih (by rwa [← List.append_cons])
        (fun other h => hDisjoint other (List.mem_cons_of_mem _ h)) hReserved.2
        (fun other h => hPath other (List.mem_cons_of_mem _ h))
        (fun other h => hRead other (List.mem_cons_of_mem _ h))

/-- A tree is read back from what it is written as. -/
theorem WellFormed.ofJson_toJson {tree : Tree} (h : WellFormed tree) :
    ofJson tree.toJson = .ok tree := by
  induction h with
  | @intro tree own _ ih =>
      rw [own.toJson_eq]
      change setMembers empty _ = _
      cases tree with
      | node properties children =>
          have hProperties : setMembers empty (Tree.node properties children).propertyMembers =
              .ok (.node ([] ++ properties) []) :=
            setMembers_properties own.properties own.unreservedProperty
          have hChildren : setMembers (.node properties []) (childMembers children) =
              .ok (.node properties ([] ++ children)) :=
            setMembers_children own.children own.disjoint own.unreservedChild own.childNames ih
          rw [setMembers_append, hProperties]
          exact hChildren

end Tree

/-- Reading and writing trees undo each other but for the order of members. A JSON value is read as
a tree exactly if it is a node at every level. What is read is written again with the properties
first, if the names in every object differ, as they do in all values that come from text. What is
written is read back. -/
theorem tree_json_inverse :
    (∀ value : Json, (∃ tree, Tree.ofJson value = .ok tree) ↔ value.IsNode) ∧
      (∀ text value, Json.ofText? text = some value → value.WellKeyed) ∧
      (∀ value : Json, value.WellKeyed → value.IsNode →
        ∃ tree, Tree.ofJson value = .ok tree ∧ tree.toJson = value.propertiesFirst) ∧
      ∀ tree : Tree, tree.Built → Tree.ofJson tree.toJson = .ok tree := by
  refine ⟨fun value => Tree.exists_ofJson_iff, fun text value => Json.wellKeyed_of_ofText?, ?_, ?_⟩
  · intro value hKeys hNode
    obtain ⟨tree, hTree⟩ := Tree.exists_ofJson_iff.mpr hNode
    exact ⟨tree, hTree, Tree.toJson_of_ofJson hKeys hTree⟩
  · intro tree hBuilt
    exact hBuilt.wellFormed.ofJson_toJson

def Json.childFirst : Json :=
  .object [("b", .object [("x", .atom (.boolean true))]), ("a", .atom (.number (.integer 1)))]

theorem Json.wellKeyed_childFirst : Json.childFirst.WellKeyed := by
  refine .object (by decide) ?_
  simp only [List.forall_mem_cons, List.not_mem_nil, false_implies, implies_true, and_true]
  refine ⟨.object (by decide) ?_, .atom _⟩
  simp only [List.forall_mem_cons, List.not_mem_nil, false_implies, implies_true, and_true]
  exact .atom _

theorem Json.isNode_childFirst : Json.childFirst.IsNode := by
  apply IsNode.object
  simp only [List.forall_mem_cons, List.not_mem_nil, false_implies, implies_true, and_true]
  refine ⟨.child (by decide) (by decide) (.object ?_), .property (by decide) (.one _)⟩
  simp only [List.forall_mem_cons, List.not_mem_nil, false_implies, implies_true, and_true]
  exact .property (by decide) (.one _)

/-- The property goes to the front, and what is written then is read as the same tree. -/
theorem tree_json_inverse_sample :
    Json.childFirst.WellKeyed ∧ Json.childFirst.IsNode ∧
      ∃ tree, Tree.ofJson .childFirst = .ok tree ∧ tree.Built ∧
        tree.toJson = .object [("a", .atom (.number (.integer 1))),
          ("b", .object [("x", .atom (.boolean true))])] ∧
        Tree.ofJson tree.toJson = .ok tree := by
  obtain ⟨-, -, hWrite, hReadBack⟩ := tree_json_inverse
  obtain ⟨tree, hRead, hWritten⟩ := hWrite _ Json.wellKeyed_childFirst Json.isNode_childFirst
  have hBuilt : tree.Built := .ofJson hRead
  exact ⟨Json.wellKeyed_childFirst, Json.isNode_childFirst, tree, hRead, hBuilt, hWritten,
    hReadBack tree hBuilt⟩

end PinnedTree
