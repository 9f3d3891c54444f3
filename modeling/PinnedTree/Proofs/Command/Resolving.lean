import PinnedTree.Proofs.Command.Reading
import PinnedTree.Proofs.Session.Laziness

/-! Resolving a path. Going down through snapshots, one name after the other, comes to an end where
the store has a node, and nothing has been asked about the snapshot at that end. -/
namespace PinnedTree

namespace Session

/-! ### New snapshots -/

section New

variable {σ : Type}

/-- Entries that are added lead behind all snapshots that were there. -/
theorem size_le_of_mem_addChildren (path : String) (revision : Revision) {names : List String}
    {session : Session σ} {entry : ChildEntry}
    (h : entry ∈ (session.addChildren path revision names).1) :
    session.snapshots.size ≤ entry.node.index := by
  obtain ⟨index, hIndex, rfl⟩ := List.mem_mapIdx.mp h
  exact Nat.le_add_right _ _

variable [NodeStore σ] {session : Session σ} {node child : SnapshotId} {name : String}

/-- A snapshot that gets loaded leads to new snapshots. -/
theorem size_le_content {loaded : Session σ} {content : Content}
    (hNode : node.index < session.snapshots.size)
    (hLoad : (session.snapshot node).load.content? = none)
    (h : session.content node = (.ok content, loaded)) :
    ∀ entry ∈ content.children, session.snapshots.size ≤ entry.node.index := by
  intro entry hEntry
  rw [content_of_not_loaded hLoad] at h
  cases hAttempt : session.loadAnswer node with
  | error error =>
      rw [materialize_of_error hAttempt] at h
      cases h
  | ok listing =>
      obtain ⟨event, hLoaded⟩ := materialize_of_ok hAttempt
      rw [hLoaded] at h
      cases h
      have hNew : (session.asked node).snapshots.size ≤ entry.node.index :=
        size_le_of_mem_addChildren (session.snapshot node).path (session.snapshot node).revision
          hEntry
      exact Nat.le_trans (asks_asked hNode).size hNew

theorem size_le_uncachedChild (h : (session.uncachedChild node name).1 = .ok (some child)) :
    session.snapshots.size ≤ child.index := by
  have hAsked := (session.asks_askHolds node (Path.child (session.snapshot node).path name)
    (session.snapshot node).revision).size
  simp only [uncachedChild] at h
  split at h
  · cases h
  · rename_i found asked hAnswer
    rw [hAnswer] at hAsked
    split at h
    · cases h
      exact hAsked
    · cases h

/-- What is found below a snapshot that was not loaded is new, whether it is kept or not. -/
theorem size_le_child (hNode : node.index < session.snapshots.size)
    (hLoad : (session.snapshot node).load.content? = none)
    (h : (session.child node name).1 = .ok (some child)) :
    session.snapshots.size ≤ child.index := by
  simp only [Session.child] at h
  split at h
  · cases h
  · split at h
    · cases h
    · rename_i content loaded hContent
      split at h
      · rename_i kept hKept
        cases h
        exact size_le_content hNode hLoad hContent _ (Content.child?_eq_some hKept)
      · split at h
        · cases h
        · refine Nat.le_trans ?_ (size_le_uncachedChild h)
          rcases content_eq_ok hNode hContent with ⟨-, rfl⟩ | hLoads
          · exact Nat.le_refl _
          · exact hLoads.asks.size

end New

/-! ### Snapshots that have not been read -/

/-- A snapshot of a stored node that nothing has been asked about. -/
structure Unread (session : Session MemoryStore) (node : SnapshotId) (path : String)
    (revision : Revision) (tree : Tree) : Prop where
  snapshot : session.snapshots[node.index]? = some { path, revision, load := .unloaded }
  built : ∃ root, session.store.root? revision = some root ∧ root.Built
  found : session.store.resolve path revision = .ok (some tree)

namespace Unread

variable {session : Session MemoryStore} {node : SnapshotId} {path name : String}
  {revision : Revision} {tree : Tree}

/-- Nothing has been asked about a root that has just been opened. -/
theorem root (session : Session MemoryStore) (hRoot : session.store.root? revision = some tree)
    (hBuilt : tree.Built) :
    (session.add Path.root revision).2.Unread (session.add Path.root revision).1 Path.root revision
      tree := by
  have hTop := MemoryStore.resolve_of_isPath hRoot (Or.inl rfl : Path.IsPath Path.root)
  rw [Path.segments_root] at hTop
  exact ⟨Array.getElem?_push_size, ⟨tree, hRoot, hBuilt⟩, hTop⟩

/-- A snapshot that nothing has been asked about shows its node. -/
theorem presents (h : session.Unread node path revision tree) (hReadable : tree.Readable) :
    session.Presents node path revision tree :=
  ⟨⟨_, h.snapshot, rfl, rfl⟩, ⟨h.built, h.found, hReadable.countable⟩, hReadable.inRange⟩

theorem load (h : session.Unread node path revision tree) :
    (session.snapshot node).load = .unloaded := by
  rw [Session.snapshot, h.snapshot]
  rfl

/-- Nothing has been asked about a child that is found below. -/
theorem child (h : session.Unread node path revision tree) (hReadable : tree.Readable)
    (hConsistent : session.Consistent) {below : Tree} (hChild : tree.child? name = some below) :
    ∃ found, (session.child node name).1 = .ok (some found) ∧
      (session.child node name).2.Unread found (Path.child path name) revision below := by
  have hPresents := h.presents hReadable
  have hStored := hPresents.stored
  obtain ⟨found, hFound, snapshot, hSnapshot, hPath, hRevision⟩ :=
    hPresents.child hConsistent hChild
  have hNode := hPresents.shows.lt
  have hNone : (session.snapshot node).load.content? = none := by
    rw [h.load]
    rfl
  have hIdle : (session.snapshot node).load ≠ .loading := by
    rw [h.load]
    decide
  have hNew := size_le_child hNode hNone hFound
  obtain ⟨sent, hAsks, -⟩ := (session.call_goes hNode (.child name)).sends hNode hIdle
  have hUnloaded := hAsks.added _ _ hNew hSnapshot
  have hStore : (session.child node name).2.store = session.store :=
    (session.steps_call node (.child name)).store
  refine ⟨found, hFound, ?_, ?_, ?_⟩
  · rw [hSnapshot, ← hPath, ← hRevision, ← hUnloaded]
  · rw [hStore]
    exact h.built
  · rw [hStore, MemoryStore.resolve_child h.found (hStored.wellNamed.isName hChild), hChild]

end Unread

end Session

/-! ### Going down -/

/-- Whatever the names lead to, the nodes before the last one can be loaded. -/
def Tree.ReadableAbove (tree : Tree) (names : List String) : Prop :=
  ∀ front above, front <+: names → front ≠ names → tree.walk? front = some above → above.Readable

namespace Tree.ReadableAbove

variable {tree : Tree} {name : String} {names : List String}

theorem top (h : tree.ReadableAbove (name :: names)) : tree.Readable :=
  h [] tree List.nil_prefix (List.cons_ne_nil name names).symm rfl

/-- If the nodes above the end of a path can be loaded, so can those from the child on. -/
theorem below (h : tree.ReadableAbove (name :: names)) {child : Tree}
    (hChild : tree.child? name = some child) : child.ReadableAbove names := by
  intro front above hFront hProper hAbove
  refine h (name :: front) above (List.cons_prefix_cons.mpr ⟨rfl, hFront⟩) ?_ ?_
  · exact fun hSame => hProper (List.cons.inj hSame).2
  · rw [walk?, hChild]
    exact hAbove

end Tree.ReadableAbove

namespace Reading

open Session

variable {session : Session MemoryStore} {node : SnapshotId} {path : String}
  {revision : Revision} {tree : Tree} {names : List String}

/-- A child that is there is found, and nothing has been asked about its snapshot. -/
theorem gives_child (h : session.Unread node path revision tree) (hConsistent : session.Consistent)
    (hReadable : tree.Readable) {name : String} {below : Tree}
    (hChild : tree.child? name = some below) :
    Gives session (ask (·.child node name)) fun result after =>
      ∃ found, result = some found ∧ after.Unread found (Path.child path name) revision below := by
  obtain ⟨found, hFound, hUnread⟩ := h.child hReadable hConsistent hChild
  exact gives_ask hFound (hConsistent.continues_call node (.child name)) ⟨found, rfl, hUnread⟩

/-- A name that no child has leads nowhere. -/
theorem gives_no_child (h : session.Presents node path revision tree)
    (hConsistent : session.Consistent) {name : String} (hName : Path.IsName name)
    (hChild : tree.child? name = none) :
    Gives session (ask (·.child node name)) fun result _ => result = none :=
  gives_ask (h.child_eq_none hConsistent hName hChild)
    (hConsistent.continues_call node (.child name)) rfl

/-- Each snapshot on the way is loaded and gives the next one, and the last one is left alone. -/
theorem gives_walk (h : session.Unread node path revision tree) (hConsistent : session.Consistent)
    (hWay : tree.ReadableAbove names) {target : Tree} (hTarget : tree.walk? names = some target)
    (whole : String) :
    Gives session (walk whole revision node names) fun found after =>
      after.Unread found (names.foldl Path.child path) revision target := by
  induction names generalizing session node path tree with
  | nil =>
      cases hTarget
      exact gives_pure hConsistent h
  | cons name names ih =>
      rw [Tree.walk?] at hTarget
      split at hTarget
      · rename_i child hChild
        rw [walk]
        refine (gives_child h hConsistent hWay.top hChild).bind ?_
        rintro _ after hAfter ⟨found, rfl, hFound⟩
        exact ih hFound hAfter.consistent (hWay.below hChild) hTarget
      · cases hTarget

/-- The first name that no child has ends the way down. -/
theorem walk_eq_error (h : session.Unread node path revision tree)
    (hConsistent : session.Consistent) (hWay : tree.ReadableAbove names)
    (hNames : ∀ name ∈ names, Path.IsName name) (hTarget : tree.walk? names = none)
    (whole : String) :
    (walk whole revision node names session).1 = .error (.noNode whole revision) := by
  induction names generalizing session node path tree with
  | nil => cases hTarget
  | cons name names ih =>
      obtain ⟨hName, hRest⟩ := List.forall_mem_cons.mp hNames
      rw [Tree.walk?] at hTarget
      rw [walk]
      split at hTarget
      · rename_i child hChild
        obtain ⟨_, after, hAsk, hAfter, found, rfl, hFound⟩ :=
          gives_child h hConsistent hWay.top hChild
        rw [bind_eq_of_ok hAsk]
        exact ih hFound hAfter.consistent (hWay.below hChild) hRest hTarget
      · rename_i hChild
        obtain ⟨_, after, hAsk, -, rfl⟩ :=
          gives_no_child (h.presents hWay.top) hConsistent hName hChild
        rw [bind_eq_of_ok hAsk]
        rfl

end Reading

/-- Going down through snapshots agrees with asking the store about the path as a whole. In every
session that can come about, with any limits, the root of a tree that the store holds leads to a
snapshot exactly when the store has a node at the path. That snapshot is at the path and at the
revision of the root, and is not loaded, so the node there need not be one that can be read. Both
refuse what is no path, and where the store has no node, the way down ends in saying so. -/
theorem resolve_iff_holds {session : Session MemoryStore} (hReachable : session.Reachable)
    {revision : Revision} {tree : Tree} (hRoot : session.store.root? revision = some tree)
    (hBuilt : tree.Built) (path : String)
    (hWay : Path.IsPath path → tree.ReadableAbove (Path.segments path)) :
    let root := (session.add Path.root revision).1
    let opened := (session.add Path.root revision).2
    let outcome := Reading.resolve revision root path opened
    ((∃ found, outcome.1 = .ok found) ↔ session.store.holds path revision = .ok true) ∧
    (∀ found, outcome.1 = .ok found →
      outcome.2.snapshots[found.index]? = some { path, revision, load := .unloaded }) ∧
    (outcome.1 = .error (.noNode path revision) ↔
      session.store.holds path revision = .ok false) ∧
    (outcome.1 = .error (.badPath (.invalidPath path)) ↔ ¬ Path.IsPath path) ∧
    (session.store.holds path revision = .error (.badPath (.invalidPath path)) ↔
      ¬ Path.IsPath path) := by
  intro root opened outcome
  by_cases hPath : Path.IsPath path
  · have hHolds : session.store.holds path revision =
        .ok (tree.walk? (Path.segments path)).isSome := by
      rw [MemoryStore.holds, MemoryStore.resolve_of_isPath hRoot hPath]
      rfl
    have hStart := Session.Unread.root session hRoot hBuilt
    have hOpened := hReachable.consistent.add Path.root revision
    have hOutcome : outcome = Reading.walk path revision root (Path.segments path) opened := by
      show Reading.resolve revision root path opened = _
      rw [Reading.resolve, Path.check_eq_ok_iff.mpr hPath]
    rw [hHolds, hOutcome]
    cases hTarget : tree.walk? (Path.segments path) with
    | some target =>
        obtain ⟨found, after, hWalk, -, hFound⟩ :=
          Reading.gives_walk hStart hOpened (hWay hPath) hTarget path
        rw [hWalk]
        have hSnapshot := hFound.snapshot
        rw [Path.foldl_child_segments hPath] at hSnapshot
        simp [hPath, hSnapshot]
    | none =>
        have hWalk := Reading.walk_eq_error hStart hOpened (hWay hPath)
          (fun _ => Path.isName_of_mem_segments) hTarget path
        rw [hWalk]
        simp [hPath]
  · have hCheck : Path.check path = .error (.invalidPath path) := if_neg hPath
    have hHolds : session.store.holds path revision = .error (.badPath (.invalidPath path)) := by
      rw [MemoryStore.holds, MemoryStore.resolve, hCheck]
      rfl
    have hOutcome : outcome.1 = .error (.badPath (.invalidPath path)) := by
      show (Reading.resolve revision root path opened).1 = _
      rw [Reading.resolve, hCheck]
      rfl
    rw [hHolds, hOutcome]
    simp [hPath]

/-- With one child kept, the root of the small store leads to the other one too, and to no third. -/
theorem resolve_iff_holds_sample :
    let opened := (Session.add { store := MemoryStore.sample, config := { childCacheLimit := 1 } }
      Path.root ⟨"r1"⟩).2
    (∃ found after, Reading.resolve ⟨"r1"⟩ ⟨0⟩ "/right" opened = (.ok found, after) ∧
      after.snapshots[found.index]? =
        some { path := "/right", revision := ⟨"r1"⟩, load := .unloaded }) ∧
    (Reading.resolve ⟨"r1"⟩ ⟨0⟩ "/middle" opened).1 = .error (.noNode "/middle" ⟨"r1"⟩) := by
  have hReachable := Session.Reachable.start MemoryStore.sample { childCacheLimit := 1 }
  have hWay (name : String) : Tree.sample.ReadableAbove [name] := by
    intro front above hFront hProper hAbove
    rcases List.prefix_cons_iff.mp hFront with rfl | ⟨rest, rfl, hRest⟩
    · cases hAbove
      decide
    · rw [List.prefix_nil.mp hRest] at hProper
      exact absurd rfl hProper
  have hRoot : MemoryStore.sample.root? ⟨"r1"⟩ = some .sample := rfl
  have hRight : Path.segments "/right" = ["right"] := by decide
  have hMiddle : Path.segments "/middle" = ["middle"] := by decide
  obtain ⟨hFinds, hUnread, -⟩ := resolve_iff_holds hReachable hRoot Tree.built_sample "/right"
    fun _ => hRight ▸ hWay "right"
  obtain ⟨-, -, hMissing, -⟩ := resolve_iff_holds hReachable hRoot Tree.built_sample "/middle"
    fun _ => hMiddle ▸ hWay "middle"
  obtain ⟨found, hFound⟩ := hFinds.mpr rfl
  exact ⟨⟨found, _, Prod.ext hFound rfl, hUnread found hFound⟩, hMissing.mpr rfl⟩

end PinnedTree
