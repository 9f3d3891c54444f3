import PinnedTree.Proofs.Session.Calls
import PinnedTree.Proofs.Store.Memory

/-! Sessions over a store in memory. What a snapshot keeps is what the store lists for it now,
however many calls and commits lie between, because a revision that is known keeps its tree. -/
namespace PinnedTree

namespace Session

def commit (tree : Tree) (session : Session MemoryStore) : Session MemoryStore :=
  let (revision, store) := session.store.commit tree
  { session with store }.record (.committed revision tree.nodeCount)

/-- The sessions that come about by opening snapshots, by calls on them and by commits. -/
inductive Reachable : Session MemoryStore → Prop where
  | start (store : MemoryStore) (config : Config) : Reachable { store, config }
  | add {session : Session MemoryStore} (path : String) (revision : Revision)
      (prior : Reachable session) : Reachable (session.add path revision).2
  | call {session : Session MemoryStore} (node : SnapshotId) (call : Call)
      (prior : Reachable session) : Reachable (session.call node call).2
  | commit {session : Session MemoryStore} (tree : Tree) (prior : Reachable session) :
      Reachable (session.commit tree)

def listing (session : Session MemoryStore) (path : String) (revision : Revision) :
    Except ReadError Listing :=
  ((session.store.list
      { path, revision, max := some session.config.childCacheLimit }).mapError .store).bind
    fun text => (Listing.ofString session.config.childCacheLimit text).mapError .listing

theorem loadAnswer_eq_listing (session : Session MemoryStore) (node : SnapshotId) :
    session.loadAnswer node =
      session.listing (session.snapshot node).path (session.snapshot node).revision := rfl

/-- A content has what the store lists, and its children lead to snapshots one level down. -/
structure Holds (session : Session MemoryStore) (path : String) (revision : Revision)
    (content : Content) : Prop where
  listing : session.listing path revision = .ok
    { properties := content.properties
      children := content.children.map ChildEntry.name
      childCount := content.childCount }
  children : ∀ entry ∈ content.children,
    session.Shows entry.node (Path.child path entry.name) revision

/-- Every content that is kept is up to date. -/
def Consistent (session : Session MemoryStore) : Prop :=
  ∀ (index : Nat) (snapshot : Snapshot) (content : Content),
    session.snapshots[index]? = some snapshot → snapshot.load = .loaded content →
      session.Holds snapshot.path snapshot.revision content

/-- What is up to date stays so while the session grows over the same store. -/
theorem Holds.mono {before after : Session MemoryStore} {path : String} {revision : Revision}
    {content : Content} (h : before.Holds path revision content) (hGrows : Grows before after)
    (hStore : after.store = before.store) : after.Holds path revision content := by
  refine ⟨?_, fun entry hEntry => hGrows.shows (h.children entry hEntry)⟩
  have hListing := h.listing
  rw [Session.listing] at hListing ⊢
  rw [hGrows.config, hStore]
  exact hListing

/-- A step on the same store has to account for the contents that are new. -/
theorem Consistent.step {before after : Session MemoryStore} (h : before.Consistent)
    (hGrows : Grows before after) (hStore : after.store = before.store)
    (hNew : ∀ (index : Nat) (snapshot : Snapshot) (content : Content),
      after.snapshots[index]? = some snapshot → snapshot.load = .loaded content →
        before.snapshots[index]? = some snapshot ∨
          after.Holds snapshot.path snapshot.revision content) : after.Consistent := by
  intro index snapshot content hSnapshot hLoad
  rcases hNew index snapshot content hSnapshot hLoad with hOld | hHolds
  · exact (h index snapshot content hOld hLoad).mono hGrows hStore
  · exact hHolds

theorem Consistent.of_eq {before after : Session MemoryStore} (h : before.Consistent)
    (hConfig : after.config = before.config) (hSnapshots : after.snapshots = before.snapshots)
    (hStore : after.store = before.store) : after.Consistent :=
  h.step (.of_eq hConfig hSnapshots) hStore fun _ _ _ hSnapshot _ =>
    Or.inl (hSnapshots ▸ hSnapshot)

/-- Adding snapshots of which nothing is known keeps a session consistent. -/
theorem Consistent.of_append {before after : Session MemoryStore} (h : before.Consistent)
    {added : Array Snapshot} (hSnapshots : after.snapshots = before.snapshots ++ added)
    (hAdded : ∀ snapshot ∈ added, snapshot.load = .unloaded)
    (hConfig : after.config = before.config) (hStore : after.store = before.store) :
    after.Consistent := by
  apply h.step (.of_append added hConfig hSnapshots) hStore
  intro index snapshot content hSnapshot hLoad
  rw [hSnapshots, Array.getElem?_append] at hSnapshot
  split at hSnapshot
  · exact Or.inl hSnapshot
  · rw [hAdded snapshot (Array.mem_of_getElem? hSnapshot)] at hLoad
    cases hLoad

theorem Consistent.addChildren {session : Session MemoryStore} (h : session.Consistent)
    (path : String) (revision : Revision) (names : List String) :
    (session.addChildren path revision names).2.Consistent := by
  refine h.of_append (snapshots_addChildren path revision names session) ?_ rfl rfl
  intro snapshot hSnapshot
  obtain ⟨name, -, rfl⟩ := List.mem_map.mp (List.mem_toArray.mp hSnapshot)
  rfl

theorem Consistent.add {session : Session MemoryStore} (h : session.Consistent)
    (path : String) (revision : Revision) : (session.add path revision).2.Consistent := by
  have hSnapshots : (session.add path revision).2.snapshots =
      session.snapshots ++ #[{ path := path, revision := revision }] := Array.push_eq_append
  refine h.of_append hSnapshots ?_ rfl rfl
  intro snapshot hSnapshot
  rw [Array.mem_singleton.mp hSnapshot]

/-- A snapshot may keep a content that the store bears out. -/
theorem Consistent.setLoad {session : Session MemoryStore} (h : session.Consistent)
    (node : SnapshotId) {load : Load}
    (hLoad : ∀ content, load = .loaded content → (session.setLoad node load).Holds
      (session.snapshot node).path (session.snapshot node).revision content) :
    (session.setLoad node load).Consistent := by
  apply h.step (grows_setLoad session node load) rfl
  intro index snapshot content hSnapshot hLoaded
  rw [getElem?_setLoad] at hSnapshot
  split at hSnapshot
  · rename_i hIndex
    obtain ⟨old, hOld, rfl⟩ := Option.map_eq_some_iff.mp hSnapshot
    have hHolds := hLoad content hLoaded
    rw [Session.snapshot, hIndex, hOld] at hHolds
    exact Or.inr hHolds
  · exact Or.inl hSnapshot

/-! ### Loading from the store -/

/-- A listing is answered only for a node that is there. -/
theorem listing_eq_ok {session : Session MemoryStore} {path : String} {revision : Revision}
    {listing : Listing} (h : session.listing path revision = .ok listing) :
    ∃ node, session.store.resolve path revision = .ok (some node) := by
  cases hText : session.store.list
      { path, revision, max := some session.config.childCacheLimit } with
  | error error =>
      rw [Session.listing, hText] at h
      cases h
  | ok text => exact MemoryStore.list_eq_ok hText

/-- Only snapshots that are there can be loaded: no node is at the path of any other. -/
theorem lt_of_listing {session : Session MemoryStore} {node : SnapshotId} {listing : Listing}
    (h : session.listing (session.snapshot node).path (session.snapshot node).revision =
      .ok listing) : node.index < session.snapshots.size := by
  apply Nat.lt_of_not_le
  intro hSize
  obtain ⟨tree, hTree⟩ := listing_eq_ok h
  have hPath := (MemoryStore.resolve_eq_ok hTree).1
  rw [snapshot, Array.getElem?_eq_none hSize] at hPath
  exact absurd hPath (by decide)

/-- What a load keeps is what the store lists. -/
theorem materialize_ok {session : Session MemoryStore} {node : SnapshotId} {listing : Listing}
    (h : session.listing (session.snapshot node).path (session.snapshot node).revision =
      .ok listing) :
    ∃ content, (session.materialize node).1 = .ok content ∧
      (session.materialize node).2.Holds (session.snapshot node).path
        (session.snapshot node).revision content := by
  obtain ⟨event, hLoaded⟩ := materialize_of_ok (session.loadAnswer_eq_listing node ▸ h)
  rw [hLoaded]
  refine ⟨_, rfl, ?_⟩
  have hLists := lists_addChildren (session.snapshot node).path
    (session.snapshot node).revision listing.children (session.asked node)
  refine ⟨?_, ?_⟩
  · refine h.trans (congrArg Except.ok ?_)
    simp only [kept]
    rw [hLists.names]
  · exact (hLists.mono ((grows_setLoad _ node _).trans (.of_eq rfl rfl))).shows

/-- Loading keeps a session consistent. -/
theorem Consistent.materialize {session : Session MemoryStore} (h : session.Consistent)
    (node : SnapshotId) : (session.materialize node).2.Consistent := by
  have hAsked : (session.asked node).Consistent := by
    have hLoading : (session.setLoad node .loading).Consistent := h.setLoad node nofun
    exact hLoading.of_eq rfl rfl rfl
  cases hAnswer : session.loadAnswer node with
  | error error =>
      rw [materialize_of_error hAnswer]
      exact hAsked.setLoad node nofun
  | ok listing =>
      obtain ⟨content, hContent, hHolds⟩ :=
        materialize_ok (session.loadAnswer_eq_listing node ▸ hAnswer)
      obtain ⟨event, hLoaded⟩ := materialize_of_ok hAnswer
      rw [hLoaded] at hContent hHolds ⊢
      cases hContent
      have hShows := (session.steps_asked node).grows.shows (shows_of_lt (lt_of_listing hAnswer))
      have hSnapshot := ((grows_addChildren (session.snapshot node).path
        (session.snapshot node).revision listing.children _).shows hShows).snapshot
      have hAdded := hAsked.addChildren (session.snapshot node).path
        (session.snapshot node).revision listing.children
      refine (hAdded.setLoad node ?_).of_eq rfl rfl rfl
      intro content hContent
      cases hContent
      rw [hSnapshot.1, hSnapshot.2]
      exact hHolds.mono (.of_eq rfl rfl) rfl

theorem Consistent.content {session : Session MemoryStore} (h : session.Consistent)
    (node : SnapshotId) : (session.content node).2.Consistent := by
  rw [Session.content]
  split
  · exact h
  · exact h.materialize node

/-- A snapshot answers from what the store lists now, also when it was loaded before. -/
theorem Consistent.content_ok {session : Session MemoryStore} (h : session.Consistent)
    {node : SnapshotId} {listing : Listing}
    (hListing : session.listing (session.snapshot node).path (session.snapshot node).revision =
      .ok listing) :
    ∃ content, (session.content node).1 = .ok content ∧
      (session.content node).2.Holds (session.snapshot node).path
        (session.snapshot node).revision content := by
  rw [Session.content]
  split
  · rename_i content hLoad
    have hSnapshot := Array.getElem?_eq_getElem (lt_of_listing hListing)
    rw [Session.snapshot, hSnapshot] at hLoad ⊢
    exact ⟨content, rfl, h _ _ _ hSnapshot hLoad⟩
  · exact materialize_ok hListing

theorem Consistent.fetch {session : Session MemoryStore} (h : session.Consistent)
    (node : SnapshotId) (offset requested : Nat) :
    (session.fetch node offset requested).2.Consistent := by
  rcases session.fetch_session node offset requested with hAsked | ⟨names, event, hAdded⟩
  · rw [hAsked]
    exact h.of_eq rfl rfl rfl
  · rw [hAdded]
    have hAsked : (session.askList node (windowRequest (session.snapshot node) offset
        requested)).2.Consistent := h.of_eq rfl rfl rfl
    exact (hAsked.addChildren _ _ _).of_eq rfl rfl rfl

theorem Consistent.uncachedChild {session : Session MemoryStore} (h : session.Consistent)
    (node : SnapshotId) (name : String) : (session.uncachedChild node name).2.Consistent := by
  rcases session.uncachedChild_session node name with hAsked | ⟨event, hRecorded | hAdded⟩
  · rw [hAsked]
    exact h.of_eq rfl rfl rfl
  · rw [hRecorded]
    exact h.of_eq rfl rfl rfl
  · rw [hAdded]
    have hRecorded : Consistent
        ((session.askHolds node (Path.child (session.snapshot node).path name)
          (session.snapshot node).revision).2.record event) := h.of_eq rfl rfl rfl
    exact hRecorded.add _ _

/-- Every call keeps a session consistent. -/
theorem Consistent.call {session : Session MemoryStore} (h : session.Consistent)
    (node : SnapshotId) (call : Call) : (session.call node call).2.Consistent :=
  call_keeps (P := Consistent) (fun _ h => h.content node)
    (fun _ offset requested h => h.fetch node offset requested)
    (fun _ name h => h.uncachedChild node name) h call

/-- A commit keeps a session consistent: the revisions that are known keep their trees. -/
theorem Consistent.commit {session : Session MemoryStore} (h : session.Consistent) (tree : Tree) :
    (session.commit tree).Consistent := by
  intro index snapshot content hSnapshot hLoad
  have hHolds := h index snapshot content hSnapshot hLoad
  refine ⟨?_, hHolds.children⟩
  obtain ⟨node, hNode⟩ := listing_eq_ok hHolds.listing
  obtain ⟨-, root, hRoot, -⟩ := MemoryStore.resolve_eq_ok hNode
  have hKept := MemoryStore.root?_commit hRoot tree
  have hList := MemoryStore.list_congr
    { path := snapshot.path, revision := snapshot.revision,
      max := some session.config.childCacheLimit } (hKept.trans hRoot.symm)
  have hListing := hHolds.listing
  rw [Session.listing, ← hList] at hListing
  exact hListing

/-- Sessions that come about are consistent. -/
theorem Reachable.consistent {session : Session MemoryStore} (h : Reachable session) :
    session.Consistent := by
  induction h with
  | start store config =>
      intro index snapshot content hSnapshot
      cases hSnapshot
  | add path revision prior ih => exact ih.add path revision
  | call node call prior ih => exact ih.call node call
  | commit tree prior ih => exact ih.commit tree

/-! ### The store behind a session -/

/-- The store is only asked, and asking does not change it. -/
theorem Step.store {node : SnapshotId} {before after : Session MemoryStore}
    (step : Step node before after) : after.store = before.store := by
  cases step <;> rfl

/-- Calls do not change the store. -/
theorem Steps.store {node : SnapshotId} {before after : Session MemoryStore}
    (steps : Steps node before after) : after.store = before.store := by
  induction steps with
  | refl => rfl
  | tail prior last ih => exact last.store.trans ih

end Session

end PinnedTree
