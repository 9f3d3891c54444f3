import PinnedTree.Proofs.Json.Determined
import PinnedTree.Proofs.Store.History
import PinnedTree.Proofs.Tree.Json

/-! What is hashed for a commit tells which commit it is. The colon behind the revision before
cannot be moved, the text of a tree is that of one JSON value only, and a tree that can be made is
read back from its JSON value. -/
namespace PinnedTree

/-- A tree is told by its text. -/
theorem Tree.WellFormed.eq_of_text {left right : Tree} (hLeft : left.WellFormed)
    (hRight : right.WellFormed) (h : left.toJson.text = right.toJson.text) : left = right := by
  have hRead := hLeft.ofJson_toJson
  rw [Json.text_injective h, hRight.ofJson_toJson] at hRead
  exact (Except.ok.inj hRead).symm

/-- If the same bytes are hashed for two commits, they have the same revision before, or neither has
one, and the same tree: at every level the same properties and children in the same order. Two
numbers in them are the same if they have the same text. -/
theorem hashed_commit_determined {before other : Option Revision} {root tree : Tree}
    (hBefore : ∀ revision ∈ before, revision.Spelled)
    (hOther : ∀ revision ∈ other, revision.Spelled) (hRoot : root.Built) (hTree : tree.Built)
    (hBytes : (Commit.text before root).toUTF8 = (Commit.text other tree).toUTF8) :
    before = other ∧ root = tree := by
  have hText : Commit.text before root = Commit.text other tree := String.toByteArray_inj.mp hBytes
  obtain ⟨hRevision, hJson⟩ := Commit.text_injective hBefore hOther hText
  exact ⟨hRevision, hRoot.wellFormed.eq_of_text hTree.wellFormed hJson⟩

/-- A node that is read with its child first, and one that is made with its property first. -/
theorem hashed_commit_determined_sample :
    ∃ root child front tree : Tree, Tree.ofJson .childFirst = .ok root ∧
      Tree.empty.setProperty "x" (.atom (.boolean true)) = .ok child ∧
      Tree.empty.setProperty "a" (.atom (.number (.integer 1))) = .ok front ∧
      front.setChild "b" child = .ok tree ∧
      (Commit.text (some MemoryStore.fresh.head) root).toUTF8 =
        (Commit.text (some MemoryStore.fresh.head) tree).toUTF8 ∧ root = tree := by
  have hRevision : ∀ revision ∈ some MemoryStore.fresh.head, revision.Spelled := by
    rintro revision ⟨⟩
    exact Revision.Minted.spelled ⟨none, .empty, rfl⟩
  have hRoot : Tree.ofJson .childFirst = .ok (.node [("a", .one (.number (.integer 1)))]
      [("b", .node [("x", .one (.boolean true))] [])]) := rfl
  have hChild : Tree.empty.setProperty "x" (.atom (.boolean true)) =
      .ok (.node [("x", .one (.boolean true))] []) := rfl
  have hFront : Tree.empty.setProperty "a" (.atom (.number (.integer 1))) =
      .ok (.node [("a", .one (.number (.integer 1)))] []) := rfl
  have hTree : (Tree.node [("a", .one (.number (.integer 1)))] []).setChild "b"
      (.node [("x", .one (.boolean true))] []) = .ok (.node [("a", .one (.number (.integer 1)))]
        [("b", .node [("x", .one (.boolean true))] [])]) := rfl
  have hMade := Tree.Built.setChild (.setProperty .empty hFront) (.setProperty .empty hChild) hTree
  exact ⟨_, _, _, _, hRoot, hChild, hFront, hTree, rfl,
    (hashed_commit_determined hRevision hRevision (.ofJson hRoot) hMade rfl).2⟩

end PinnedTree
