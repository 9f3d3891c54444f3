import PinnedTree.Hash.Blake3
import PinnedTree.Store
import PinnedTree.Tree.Json
import PinnedTree.Tree.Listing

/-!
A store in memory. Every commit keeps a whole tree under a revision that is derived from the
revision before it and from the tree, so the same tree has different revisions after different
histories. What is committed never changes.
-/

namespace PinnedTree

/-- A tree under its revision. -/
structure Commit where
  revision : Revision
  root : Tree

/-- All commits, of which there is at least one. -/
structure MemoryStore where
  latest : Commit
  /-- The commits before the latest, the last one first. -/
  earlier : List Commit

/-- The text that a revision is derived from: a tag, the revision before, and the tree. -/
def Commit.text (before : Option Revision) (root : Tree) : String :=
  "revtree-revision-v1:" ++ before.elim "" Revision.token ++ ":" ++ root.toJson.text

/-- The revision for a tree that is committed after another revision. -/
def Revision.mint (before : Option Revision) (root : Tree) : Revision :=
  ⟨String.ofList ('r' :: Blake3.shortHex (Commit.text before root))⟩

namespace MemoryStore

/-- A store that holds an empty root. -/
def fresh : MemoryStore :=
  ⟨⟨Revision.mint none .empty, .empty⟩, []⟩

instance : Inhabited MemoryStore := ⟨fresh⟩

/-- All commits, the latest first. -/
def commits (store : MemoryStore) : List Commit :=
  store.latest :: store.earlier

def head (store : MemoryStore) : Revision :=
  store.latest.revision

/-- The tree under a revision, if it is known. -/
def root? (store : MemoryStore) (revision : Revision) : Option Tree :=
  (store.commits.find? fun commit => commit.revision = revision).map Commit.root

/-- Commits a tree and answers its revision. A revision that is known keeps the tree it has. -/
def commit (root : Tree) (store : MemoryStore) : Revision × MemoryStore :=
  let revision := Revision.mint (some store.head) root
  match store.root? revision with
  | some _ => (revision, store)
  | none => (revision, ⟨⟨revision, root⟩, store.commits⟩)

def root (store : MemoryStore) (revision : Revision) : Except StoreError Tree :=
  match store.root? revision with
  | some root => .ok root
  | none => .error (.revisionNotFound revision)

/-- The node at a path, which there may not be. -/
def resolve (store : MemoryStore) (path : String) (revision : Revision) :
    Except StoreError (Option Tree) := do
  match Path.check path with
  | .error error => throw (.badPath error)
  | .ok () =>
    let root ← store.root revision
    return root.walk? (Path.segments path)

/-- The text of a listing. -/
def list (request : ListRequest) (store : MemoryStore) : Except StoreError String := do
  match ← store.resolve request.path request.revision with
  | none => throw (.nodeNotFound request.path request.revision)
  | some node => return (node.render request.max request.filter request.depth request.offset).text

/-- Whether there is a node at a path. -/
def holds (path : String) (revision : Revision) (store : MemoryStore) : Except StoreError Bool :=
  (store.resolve path revision).map Option.isSome

instance : NodeStore MemoryStore where
  head store := .ok store.head
  list request store := (store.list request, store)
  holds path revision store := (store.holds path revision, store)

def inspect (store : MemoryStore) : String :=
  "InMemoryNodeStore \x7b revision_count: " ++ toString store.commits.length ++ " \x7d"

end MemoryStore

end PinnedTree
