import PinnedTree.Proofs.Listing.Slicing
import PinnedTree.Proofs.Path

/-! A store in memory. A revision that is known keeps its tree for ever, and all answers about it
come from that tree. -/
namespace PinnedTree

/-- A path is walked part by part. -/
theorem Tree.walk?_append (tree : Tree) (front rest : List String) :
    tree.walk? (front ++ rest) = (tree.walk? front).bind fun node => node.walk? rest := by
  induction front generalizing tree with
  | nil => rfl
  | cons name front ih =>
      rw [List.cons_append, walk?, walk?]
      cases tree.child? name with
      | none => rfl
      | some child => exact ih child

namespace MemoryStore

/-- A known revision keeps its tree, also when a commit mints it once more. -/
theorem root?_commit {store : MemoryStore} {revision : Revision} {tree : Tree}
    (h : store.root? revision = some tree) (root : Tree) :
    (store.commit root).2.root? revision = some tree := by
  simp only [commit]
  split
  · exact h
  · rename_i hNew
    by_cases hSame : Revision.mint (some store.head) root = revision
    · rw [hSame, h] at hNew
      cases hNew
    · rw [root?, commits, List.find?_cons_of_neg (by simpa using hSame)]
      exact h

/-- What is known under the revision of a commit is the tree, unless the revision had one before. -/
theorem root?_committed (store : MemoryStore) (root : Tree) :
    (store.commit root).2.root? (store.commit root).1 =
      some ((store.root? (Revision.mint (some store.head) root)).getD root) := by
  cases hKnown : store.root? (Revision.mint (some store.head) root) with
  | none =>
      simp only [commit, hKnown]
      rw [root?, commits, List.find?_cons_of_pos (by simp)]
      rfl
  | some tree =>
      simp only [commit, hKnown]
      rfl

section Agreement

variable {left right : MemoryStore} {revision : Revision}

/-- What a path leads to depends on the tree of the revision only. -/
theorem resolve_congr (h : left.root? revision = right.root? revision) (path : String) :
    left.resolve path revision = right.resolve path revision := by
  rw [resolve, resolve, root, root, h]

/-- A listing depends on the tree of the revision only. -/
theorem list_congr (request : ListRequest)
    (h : left.root? request.revision = right.root? request.revision) :
    left.list request = right.list request := by
  rw [list, list, resolve_congr h]

/-- Whether there is a node depends on the tree of the revision only. -/
theorem holds_congr (h : left.root? revision = right.root? revision) (path : String) :
    left.holds path revision = right.holds path revision := by
  rw [holds, holds, resolve_congr h]

end Agreement

/-- A path that is resolved is a path, and leads down the tree of a revision that is known. -/
theorem resolve_eq_ok {store : MemoryStore} {path : String} {revision : Revision}
    {node : Option Tree} (h : store.resolve path revision = .ok node) :
    Path.IsPath path ∧ ∃ tree, store.root? revision = some tree ∧
      tree.walk? (Path.segments path) = node := by
  rw [resolve] at h
  split at h
  · cases h
  · rename_i hPath
    refine ⟨Path.check_eq_ok_iff.mp hPath, ?_⟩
    cases hRoot : store.root? revision with
    | none =>
        rw [root, hRoot] at h
        cases h
    | some tree =>
        rw [root, hRoot] at h
        exact ⟨tree, rfl, Except.ok.inj h⟩

/-- A listing is answered only for a node that is there. -/
theorem list_eq_ok {store : MemoryStore} {request : ListRequest} {text : String}
    (h : store.list request = .ok text) :
    ∃ node, store.resolve request.path request.revision = .ok (some node) := by
  cases hNode : store.resolve request.path request.revision with
  | error error =>
      rw [list, hNode] at h
      cases h
  | ok node =>
      cases node with
      | none =>
          rw [list, hNode] at h
          cases h
      | some node => exact ⟨node, rfl⟩

/-- A path is followed from the root of the tree under the revision. -/
theorem resolve_of_isPath {store : MemoryStore} {revision : Revision} {tree : Tree}
    (hRoot : store.root? revision = some tree) {path : String} (hPath : Path.IsPath path) :
    store.resolve path revision = .ok (tree.walk? (Path.segments path)) := by
  rw [resolve, Path.check_eq_ok_iff.mpr hPath, root, hRoot]
  rfl

/-- The path one level down from a node leads to its child, or nowhere. -/
theorem resolve_child {store : MemoryStore} {path : String} {revision : Revision} {node : Tree}
    (h : store.resolve path revision = .ok (some node)) {name : String}
    (hName : Path.IsName name) :
    store.resolve (Path.child path name) revision = .ok (node.child? name) := by
  obtain ⟨hPath, tree, hRoot, hNode⟩ := resolve_eq_ok h
  have hWalk : tree.walk? (Path.segments (Path.child path name)) = node.child? name := by
    rw [Path.segments_child hName, Tree.walk?_append, hNode, Option.bind_some, Tree.walk?]
    cases node.child? name <;> rfl
  rw [resolve_of_isPath hRoot (Path.isPath_child hPath hName), hWalk]

/-! ### The nodes of a store -/

/-- A node of a tree that the store holds, at its path. The number of its children is a machine
word. -/
structure Stored (store : MemoryStore) (path : String) (revision : Revision) (node : Tree) :
    Prop where
  built : ∃ tree, store.root? revision = some tree ∧ tree.Built
  found : store.resolve path revision = .ok (some node)
  countable : node.childCount < UInt64.size

namespace Stored

variable {store : MemoryStore} {path : String} {revision : Revision} {node : Tree}

/-- A stored node is well named. -/
theorem wellNamed (h : store.Stored path revision node) : node.WellNamed := by
  obtain ⟨tree, hRoot, hBuilt⟩ := h.built
  obtain ⟨-, root, hFound, hNode⟩ := resolve_eq_ok h.found
  have hSame : root = tree := Option.some.inj (hFound.symm.trans hRoot)
  rw [hSame] at hNode
  exact (hBuilt.wellFormed.walk? hNode).wellNamed

/-- A node lists a window of its children, and shows nothing below them. -/
theorem list_eq (h : store.Stored path revision node) (offset : Nat) (max : Option Nat) :
    store.list { path, revision, offset, max } = .ok (node.render max none 0 offset).text := by
  rw [list, h.found]
  rfl

/-- The listing of a stored node is read as what it describes, if the integers are in range. -/
theorem ofString_list (h : store.Stored path revision node) (limit : Nat) :
    Listing.ofString limit (node.render (some limit) none 0 0).text =
      Listing.checked node.atoms (node.described limit) :=
  Listing.ofString_render h.wellNamed h.countable limit

/-- A window of a stored node is read as the names of its children there. -/
theorem slice_list (h : store.Stored path revision node) (offset : Nat) (max : Option Nat) :
    Slice.ofString (node.render max none 0 offset).text =
      .ok (window offset max node.childNames) :=
  Slice.ofString_render h.wellNamed h.countable offset max

/-- The child of a node is there exactly when the path one level down leads somewhere. -/
theorem holds_child (h : store.Stored path revision node) {name : String}
    (hName : Path.IsName name) :
    store.holds (Path.child path name) revision = .ok (node.child? name).isSome := by
  rw [holds, resolve_child h.found hName]
  rfl

end Stored

end MemoryStore

/-! ### A small store -/

def Tree.sample : Tree :=
  .node [("size", .one (.number (.integer 3)))] [("left", .empty), ("right", .empty)]

theorem Tree.built_sample : Tree.sample.Built := by
  have hSize : Tree.empty.setProperty "size" (.atom (.number (.integer 3))) =
      .ok (.node [("size", .one (.number (.integer 3)))] []) := rfl
  have hLeft : (Tree.node [("size", .one (.number (.integer 3)))] []).setChild "left" .empty =
      .ok (.node [("size", .one (.number (.integer 3)))] [("left", .empty)]) := rfl
  have hRight : (Tree.node [("size", .one (.number (.integer 3)))] [("left", .empty)]).setChild
      "right" .empty = .ok .sample := rfl
  exact .setChild (.setChild (.setProperty .empty hSize) .empty hLeft) .empty hRight

def MemoryStore.sample : MemoryStore :=
  ⟨⟨⟨"r1"⟩, .sample⟩, []⟩

theorem MemoryStore.stored_sample : MemoryStore.sample.Stored "/" ⟨"r1"⟩ .sample where
  built := ⟨.sample, rfl, Tree.built_sample⟩
  found := rfl
  countable := by decide

end PinnedTree
