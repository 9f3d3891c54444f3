import PinnedTree.Proofs.Listing.Members
import PinnedTree.Proofs.Tree.Editing
import PinnedTree.Proofs.Tree.Preorder

/-! Listings of trees that can be made. At every level the names of properties and children differ
from each other and from the reserved name, so a listing has all members that are put into it, in
their order. -/
namespace PinnedTree

/-- Trees stay well formed. Whatever calls are made on a node that can be made, with children that
can be made, at every level the names of properties and of children are distinct, no name is both,
none is reserved, every child's name is one segment of a path, and every property is an atom or an
array of atoms. So a listing never overwrites a member: its names are those of the shown properties,
the window of the shown children, and the reserved name, in this order. -/
theorem edited_well_formed {start : Tree} (hStart : start.Built) {edits : List Edit}
    (hEdits : ∀ edit ∈ edits, ∀ child ∈ edit.child?, child.Built) :
    ∀ visit ∈ (start.edited edits).preorder,
      visit.2.WellNamed ∧
      (∀ property ∈ visit.2.properties, (Tree.propertyJson property.2).IsPropertyValue) ∧
      ∀ max filter depth offset,
        visit.2.render max filter depth offset =
          .object (visit.2.listing max filter depth offset) ∧
        (Members.names (visit.2.listing max filter depth offset)).Nodup ∧
        Members.names (visit.2.listing max filter depth offset) =
          (Members.names visit.2.properties).filter (showsProperty filter) ++
            window offset max ((Members.names visit.2.children).filter (showsNode filter)) ++
            [childNodeCount] := by
  intro visit hVisit
  have hFormed := (hStart.edited hEdits).wellFormed.of_mem_preorder hVisit
  refine ⟨hFormed.wellNamed, ?_, ?_⟩
  · exact fun property _ => Tree.isPropertyValue_propertyJson property.2
  · intro max filter depth offset
    exact ⟨hFormed.wellNamed.render_eq max filter depth offset,
      hFormed.wellNamed.nodup_listing max filter depth offset,
      Tree.names_listing max filter depth offset visit.2⟩

def Edit.samples : List Edit :=
  [.property "size" (.atom (.number (.integer 3))), .child "left" .empty, .child "size" .empty,
    .child "a/b" .empty]

/-- The node ends up with two children, which its listing has behind no property. -/
theorem edited_well_formed_sample :
    Tree.Built .empty ∧ (∀ edit ∈ Edit.samples, ∀ child ∈ edit.child?, child.Built) ∧
      ([], Tree.empty.edited Edit.samples) ∈ (Tree.empty.edited Edit.samples).preorder ∧
      (Tree.empty.edited Edit.samples).WellNamed ∧
      Members.names ((Tree.empty.edited Edit.samples).listing none none 1 0) =
        ["left", "size", childNodeCount] := by
  have hEdits : ∀ edit ∈ Edit.samples, ∀ child ∈ edit.child?, child.Built := by
    simp [Edit.samples, Edit.child?, Tree.Built.empty]
  have hTop : ([], Tree.empty.edited Edit.samples) ∈ (Tree.empty.edited Edit.samples).preorder := by
    rw [Tree.preorder_eq]
    exact List.mem_cons_self
  obtain ⟨hNamed, -, hListings⟩ := edited_well_formed .empty hEdits _ hTop
  exact ⟨.empty, hEdits, hTop, hNamed, (hListings none none 1 0).2.2⟩

end PinnedTree
