import PinnedTree.Proofs.Except
import PinnedTree.Proofs.Members
import PinnedTree.Tree.Json

/-! Trees that can be made. Whatever is read from JSON and edited afterwards has distinct names at
every node, a name is not a property and a child at once, and no name stands for something else in
a listing or in a path. -/
namespace PinnedTree.Tree

/-- The trees that come from the empty node and from JSON by edits, with children that were made in
the same way. -/
inductive Built : Tree → Prop where
  | empty : Built empty
  | ofJson {value : Json} {node : Tree} (h : ofJson value = .ok node) : Built node
  | setProperty {node next : Tree} {name : String} {value : Json} (hNode : Built node)
      (h : node.setProperty name value = .ok next) : Built next
  | setChild {node child next : Tree} {name : String} (hNode : Built node) (hChild : Built child)
      (h : node.setChild name child = .ok next) : Built next

/-- What holds of the names at one node, apart from the nodes below it. -/
structure WellNamed (node : Tree) : Prop where
  properties : (Members.names node.properties).Nodup
  children : (Members.names node.children).Nodup
  disjoint : ∀ name ∈ Members.names node.children, name ∉ Members.names node.properties
  unreservedProperty : childNodeCount ∉ Members.names node.properties
  unreservedChild : childNodeCount ∉ Members.names node.children
  childNames : ∀ name ∈ Members.names node.children, Path.IsName name

/-- Every node of the tree is well named. -/
inductive WellFormed : Tree → Prop where
  | intro {node : Tree} (own : WellNamed node)
      (children : ∀ child ∈ node.children, WellFormed child.2) : WellFormed node

theorem WellFormed.wellNamed {node : Tree} : WellFormed node → WellNamed node
  | .intro own _ => own

theorem WellFormed.of_mem_children {node : Tree} {child : String × Tree} :
    WellFormed node → child ∈ node.children → WellFormed child.2
  | .intro _ hChildren, h => hChildren child h

theorem wellFormed_empty : WellFormed empty :=
  .intro ⟨List.nodup_nil, List.nodup_nil, by simp [empty, children], by simp [empty, properties],
    by simp [empty, children], by simp [empty, children]⟩ (by simp [empty, children])

/-- A write of a property that succeeds puts it among the properties and drops a child of its
name. -/
theorem setProperty_eq_ok {node next : Tree} {name : String} {value : Json}
    (h : node.setProperty name value = .ok next) :
    name ≠ childNodeCount ∧ ∃ property, propertyValue? value = some property ∧
      next = .node (node.properties.put name property) (node.children.without name) := by
  simp only [setProperty] at h
  split at h
  · cases h
  · rename_i hName
    split at h
    · cases h
    · rename_i property hValue
      exact ⟨hName, property, hValue, (Except.ok.inj h).symm⟩

/-- A write of a child that succeeds puts it among the children and drops a property of its name. -/
theorem setChild_eq_ok {node child next : Tree} {name : String}
    (h : node.setChild name child = .ok next) :
    name ≠ childNodeCount ∧ Path.IsName name ∧
      next = .node (node.properties.without name) (node.children.put name child) := by
  simp only [setChild] at h
  split at h
  · cases h
  · rename_i hName
    split at h
    · cases h
    · rename_i hCheck
      exact ⟨hName, Path.checkName_eq_ok_iff.mp hCheck, (Except.ok.inj h).symm⟩

/-- Writing a property keeps a tree well formed. -/
theorem WellFormed.setProperty {node next : Tree} {name : String} {value : Json}
    (hNode : WellFormed node) (h : node.setProperty name value = .ok next) : WellFormed next := by
  obtain ⟨hName, property, -, rfl⟩ := setProperty_eq_ok h
  have own := hNode.wellNamed
  refine .intro ⟨Members.nodup_names_put own.properties, Members.nodup_names_without own.children,
    ?_, ?_, ?_, ?_⟩ ?_
  · intro other hOther hProperty
    obtain ⟨hChild, hNe⟩ := Members.mem_names_without.mp hOther
    exact (Members.mem_names_put.mp hProperty).elim hNe (own.disjoint other hChild)
  · intro hReserved
    exact (Members.mem_names_put.mp hReserved).elim (fun he => hName he.symm)
      own.unreservedProperty
  · exact fun hReserved => own.unreservedChild (Members.mem_names_without.mp hReserved).1
  · exact fun other hOther => own.childNames other (Members.mem_names_without.mp hOther).1
  · exact fun child hChild => hNode.of_mem_children (List.mem_of_mem_filter hChild)

/-- Writing a well-formed child keeps a tree well formed. -/
theorem WellFormed.setChild {node child next : Tree} {name : String} (hNode : WellFormed node)
    (hChild : WellFormed child) (h : node.setChild name child = .ok next) : WellFormed next := by
  obtain ⟨hReserved, hName, rfl⟩ := setChild_eq_ok h
  have own := hNode.wellNamed
  refine .intro ⟨Members.nodup_names_without own.properties, Members.nodup_names_put own.children,
    ?_, ?_, ?_, ?_⟩ ?_
  · intro other hOther hProperty
    obtain ⟨hOld, hNe⟩ := Members.mem_names_without.mp hProperty
    exact (Members.mem_names_put.mp hOther).elim hNe fun hMem => own.disjoint other hMem hOld
  · exact fun hMem => own.unreservedProperty (Members.mem_names_without.mp hMem).1
  · intro hMem
    exact (Members.mem_names_put.mp hMem).elim (fun he => hReserved he.symm) own.unreservedChild
  · intro other hOther
    rcases Members.mem_names_put.mp hOther with rfl | hOld
    · exact hName
    · exact own.childNames other hOld
  · intro other hOther
    rcases Members.mem_of_mem_put hOther with rfl | hOld
    · exact hChild
    · exact hNode.of_mem_children hOld

/-- A member is read as a child or as a property, by the kind of its value. -/
theorem setMember_object {node : Tree} {name : String} {value : Json}
    (h : value.isObject = true) :
    setMember node (name, value) = ofJson value >>= fun child => node.setChild name child := by
  rw [setMember, if_pos h]

theorem setMember_other {node : Tree} {name : String} {value : Json}
    (h : value.isObject = false) : setMember node (name, value) = node.setProperty name value := by
  rw [setMember, if_neg (by simp [h])]

/-- A member of an object is written as a child if it is an object, and as a property otherwise. -/
theorem setMember_cases {node next : Tree} {name : String} {value : Json}
    (h : setMember node (name, value) = .ok next) :
    (∃ child, value.isObject = true ∧ ofJson value = .ok child ∧
      node.setChild name child = .ok next) ∨
    (value.isObject = false ∧ node.setProperty name value = .ok next) := by
  cases hObject : value.isObject with
  | true =>
      rw [setMember_object hObject] at h
      obtain ⟨child, hRead, hSet⟩ := exists_of_bind_eq_ok h
      exact .inl ⟨child, rfl, hRead, hSet⟩
  | false =>
      rw [setMember_other hObject] at h
      exact .inr ⟨rfl, h⟩

mutual

/-- A tree that is read is well formed. The induction goes along the JSON value: an object is
written member by member into an empty node, and a member that is an object is a smaller value. -/
theorem wellFormed_ofJson : ∀ {value : Json} {node : Tree}, ofJson value = .ok node →
    WellFormed node
  | .object members, next, h => by
      have hMembers : setMembers empty members = .ok next := h
      exact wellFormed_setMembers wellFormed_empty hMembers
  | .null, _, h => by cases h
  | .atom _, _, h => by cases h
  | .array _, _, h => by cases h
  termination_by structural value => value

/-- Writing members keeps a tree well formed. -/
theorem wellFormed_setMembers : ∀ {members : List (String × Json)} {node next : Tree},
    WellFormed node → setMembers node members = .ok next → WellFormed next
  | [], _, _, hNode, h => Except.ok.inj h ▸ hNode
  | member :: rest, before, _, hNode, h => by
      obtain ⟨written, hMember, hRest⟩ := exists_of_bind_eq_ok h
      exact wellFormed_setMembers (wellFormed_setMember hNode hMember) hRest
  termination_by structural members => members

theorem wellFormed_setMember : ∀ {member : String × Json} {node next : Tree},
    WellFormed node → setMember node member = .ok next → WellFormed next
  | (_, value), _, _, hNode, h => by
      rcases setMember_cases h with ⟨child, -, hRead, hSet⟩ | ⟨-, hSet⟩
      · exact hNode.setChild (wellFormed_ofJson hRead) hSet
      · exact hNode.setProperty hSet
  termination_by structural member => member

end

/-- Every tree that is built is well formed. -/
theorem Built.wellFormed {tree : Tree} (h : Built tree) : WellFormed tree := by
  induction h with
  | empty => exact wellFormed_empty
  | ofJson h => exact wellFormed_ofJson h
  | setProperty _ h ih => exact ih.setProperty h
  | setChild _ _ h ihNode ihChild => exact ihNode.setChild ihChild h

/-- Every node on a path through a well-formed tree is well formed. -/
theorem WellFormed.walk? {tree node : Tree} {names : List String} (hTree : WellFormed tree)
    (h : tree.walk? names = some node) : WellFormed node := by
  induction names generalizing tree with
  | nil => exact Option.some.inj h ▸ hTree
  | cons name names ih =>
      simp only [Tree.walk?] at h
      split at h
      · rename_i child hChild
        exact ih (hTree.of_mem_children (Members.mem_of_find? hChild)) h
      · cases h

end PinnedTree.Tree
