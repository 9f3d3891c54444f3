import PinnedTree.Proofs.Session.Lookup
import PinnedTree.Proofs.Session.Paging

/-! Going down a stored tree through snapshots. A snapshot of a node whose integers are in range
answers every call, and its children are snapshots of the nodes below. Whatever has been read in
between, the answers are the same. -/
namespace PinnedTree

/-- A node that can be loaded: its integers are in range, and the number of its children is a
machine word. -/
structure Tree.Readable (node : Tree) : Prop where
  inRange : ∀ value ∈ node.integers, Scalar.InLongRange value
  countable : node.childCount < UInt64.size

instance (node : Tree) : Decidable node.Readable :=
  decidable_of_iff
    ((∀ value ∈ node.integers, Scalar.InLongRange value) ∧ node.childCount < UInt64.size)
    ⟨fun h => ⟨h.1, h.2⟩, fun h => ⟨h.inRange, h.countable⟩⟩

/-- The name of a child is one segment of a path. -/
theorem Tree.WellNamed.isName {node child : Tree} {name : String} (h : node.WellNamed)
    (hChild : node.child? name = some child) : Path.IsName name :=
  h.childNames name (Members.mem_names.mpr ⟨child, Members.mem_of_find? hChild⟩)

namespace MemoryStore

/-- The child of a stored node is stored one level down. -/
theorem Stored.child {store : MemoryStore} {path : String} {revision : Revision} {node child : Tree}
    {name : String} (h : store.Stored path revision node) (hChild : node.child? name = some child)
    (hCountable : child.childCount < UInt64.size) :
    store.Stored (Path.child path name) revision child := by
  have hFound := resolve_child h.found (h.wellNamed.isName hChild)
  rw [hChild] at hFound
  exact ⟨h.built, hFound, hCountable⟩

end MemoryStore

namespace Session

/-- A later state of a session over the same store, with every content still up to date. -/
structure Continues (before after : Session MemoryStore) : Prop where
  grows : Grows before after
  store : after.store = before.store
  consistent : after.Consistent

theorem Continues.refl {session : Session MemoryStore} (h : session.Consistent) :
    Continues session session :=
  ⟨.of_eq rfl rfl, rfl, h⟩

theorem Continues.trans {first second third : Session MemoryStore} (left : Continues first second)
    (right : Continues second third) : Continues first third :=
  ⟨left.grows.trans right.grows, right.store.trans left.store, right.consistent⟩

theorem Consistent.continues_add {session : Session MemoryStore} (h : session.Consistent)
    (path : String) (revision : Revision) : Continues session (session.add path revision).2 :=
  ⟨grows_add session path revision, rfl, h.add path revision⟩

/-- A call continues a session. -/
theorem Consistent.continues_call {session : Session MemoryStore} (h : session.Consistent)
    (node : SnapshotId) (call : Call) : Continues session (session.call node call).2 := by
  have hSteps := session.steps_call node call
  exact ⟨hSteps.grows, hSteps.store, h.call node call⟩

/-- A snapshot shows a stored node that can be loaded. -/
structure Presents (session : Session MemoryStore) (node : SnapshotId) (path : String)
    (revision : Revision) (tree : Tree) : Prop where
  shows : session.Shows node path revision
  stored : session.store.Stored path revision tree
  inRange : ∀ value ∈ tree.integers, Scalar.InLongRange value

namespace Presents

variable {session : Session MemoryStore} {node : SnapshotId} {path : String} {revision : Revision}
  {tree : Tree}

theorem mono (h : session.Presents node path revision tree) {after : Session MemoryStore}
    (hAfter : Continues session after) : after.Presents node path revision tree :=
  ⟨hAfter.grows.shows h.shows, hAfter.store ▸ h.stored, h.inRange⟩

/-- A snapshot of a node that can be loaded loads. -/
theorem loads (h : session.Presents node path revision tree) (hConsistent : session.Consistent) :
    ∃ content loaded, session.Loads node tree content loaded := by
  obtain ⟨rfl, rfl⟩ := h.shows.snapshot
  exact hConsistent.loads h.stored h.inRange

theorem properties (h : session.Presents node path revision tree)
    (hConsistent : session.Consistent) :
    (session.properties node).1 =
      .ok (tree.properties.map fun property => (property.1, property.2.map Scalar.ofAtom)) := by
  obtain ⟨content, loaded, hLoads⟩ := h.loads hConsistent
  rw [Session.properties, ask, hLoads.answer, ← hLoads.properties]
  rfl

theorem childCount (h : session.Presents node path revision tree)
    (hConsistent : session.Consistent) :
    (session.childCount node).1 = .ok tree.childCount := by
  obtain ⟨content, loaded, hLoads⟩ := h.loads hConsistent
  rw [Session.childCount, ask, hLoads.answer, ← hLoads.childCount]
  rfl

/-- A page of the children of a stored node is answered by their names. -/
theorem entries (h : session.Presents node path revision tree) (hConsistent : session.Consistent)
    (offset count : Nat) :
    ∃ entries, (session.entries node offset (some count)).1 = .ok entries ∧
      (session.entries node offset (some count)).2.Lists path revision entries
        (Members.names ((tree.children.drop offset).take count)) := by
  obtain ⟨content, loaded, hLoads⟩ := h.loads hConsistent
  obtain ⟨rfl, rfl⟩ := h.shows.snapshot
  have hWanted : PagePlan.wanted session.config content (some count) = .ok count := rfl
  obtain ⟨entries, after, hEntries, hLists⟩ := hLoads.entries offset hWanted
  rw [Tree.childNames, Members.names, ← List.map_drop, ← List.map_take] at hLists
  rw [hEntries]
  exact ⟨entries, rfl, hLists⟩

theorem child (h : session.Presents node path revision tree) (hConsistent : session.Consistent)
    {name : String} {below : Tree} (hChild : tree.child? name = some below) :
    ∃ found, (session.child node name).1 = .ok (some found) ∧
      (session.child node name).2.Shows found (Path.child path name) revision := by
  obtain ⟨content, loaded, hLoads⟩ := h.loads hConsistent
  have hName := h.stored.wellNamed.isName hChild
  obtain ⟨rfl, rfl⟩ := h.shows.snapshot
  obtain ⟨answer, after, hAnswer, hSome, hShows⟩ := hLoads.child hName
  rw [hChild] at hSome
  obtain ⟨found, rfl⟩ := Option.isSome_iff_exists.mp (hSome.mpr rfl)
  rw [hAnswer]
  exact ⟨found, rfl, hShows found rfl⟩

/-- A name that no child has leads nowhere. -/
theorem child_eq_none (h : session.Presents node path revision tree)
    (hConsistent : session.Consistent) {name : String} (hName : Path.IsName name)
    (hChild : tree.child? name = none) : (session.child node name).1 = .ok none := by
  obtain ⟨content, loaded, hLoads⟩ := h.loads hConsistent
  obtain ⟨answer, after, hAnswer, hSome, -⟩ := hLoads.child hName
  rw [hChild] at hSome
  rw [hAnswer, Option.not_isSome_iff_eq_none.mp fun hFound => Bool.false_ne_true (hSome.mp hFound)]

/-- A snapshot one level down presents the child. -/
theorem below (h : session.Presents node path revision tree) {name : String} {child : Tree}
    (hChild : tree.child? name = some child) (hReadable : child.Readable)
    {after : Session MemoryStore} (hAfter : Continues session after) {found : SnapshotId}
    (hFound : after.Shows found (Path.child path name) revision) :
    after.Presents found (Path.child path name) revision child :=
  ⟨hFound, hAfter.store ▸ h.stored.child hChild hReadable.countable, hReadable.inRange⟩

end Presents

end Session

end PinnedTree
