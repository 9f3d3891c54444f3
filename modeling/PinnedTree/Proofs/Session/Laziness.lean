import PinnedTree.Proofs.Session.Requests
import PinnedTree.Proofs.Store.Memory

/-! Reads are lazy. Whoever holds a root snapshot, and the snapshots that calls on it give out, can
tell from a snapshot and from a call what the store is asked. Nothing is asked for a snapshot that
is not called, and none but the called one changes. -/
namespace PinnedTree

def Answer.given : Answer → List SnapshotId
  | .child node => node.toList
  | .entries list => list.map ChildEntry.node
  | _ => []

namespace Session

variable {σ : Type}

/-- A snapshot that is not in the middle of loading, and whose children are snapshots one level
below it, at its revision. -/
structure Regular (session : Session σ) (snapshot : Snapshot) : Prop where
  idle : snapshot.load ≠ .loading
  children : ∀ content, snapshot.load = .loaded content → ∀ entry ∈ content.children,
    session.Shows entry.node (Path.child snapshot.path entry.name) snapshot.revision

def Coherent (session : Session σ) : Prop :=
  ∀ (index : Nat) (snapshot : Snapshot), session.snapshots[index]? = some snapshot →
    session.Regular snapshot

theorem Regular.mono {before after : Session σ} {snapshot : Snapshot} (h : before.Regular snapshot)
    (hGrows : Grows before after) : after.Regular snapshot :=
  ⟨h.idle, fun content hLoad entry hEntry => hGrows.shows (h.children content hLoad entry hEntry)⟩

theorem regular_of_unloaded (session : Session σ) {snapshot : Snapshot}
    (h : snapshot.load = .unloaded) : session.Regular snapshot := by
  refine ⟨?_, ?_⟩
  · rw [h]
    exact nofun
  · intro content hLoad
    rw [h] at hLoad
    cases hLoad

/-- A step has to account for the snapshots that are new or have changed. -/
theorem Coherent.step {before after : Session σ} (h : before.Coherent)
    (hGrows : Grows before after)
    (hNew : ∀ (index : Nat) (snapshot : Snapshot), after.snapshots[index]? = some snapshot →
      before.snapshots[index]? = some snapshot ∨ after.Regular snapshot) : after.Coherent := by
  intro index snapshot hSnapshot
  rcases hNew index snapshot hSnapshot with hOld | hRegular
  · exact (h index snapshot hOld).mono hGrows
  · exact hRegular

theorem getElem?_eq_snapshot {session : Session σ} {node : SnapshotId}
    (hNode : node.index < session.snapshots.size) :
    session.snapshots[node.index]? = some (session.snapshot node) := by
  rw [snapshot, Array.getElem?_eq_getElem hNode]
  rfl

/-- Every snapshot of a coherent session is regular. -/
theorem Coherent.regular {session : Session σ} (h : session.Coherent) {node : SnapshotId}
    (hNode : node.index < session.snapshots.size) : session.Regular (session.snapshot node) :=
  h _ _ (getElem?_eq_snapshot hNode)

/-- Of what a call has done, only the called snapshot has to be looked at. -/
theorem Asks.forall_snapshot {before after : Session σ} {node : SnapshotId} {sent : List Query}
    (hAsks : Asks node before after sent) (hNode : node.index < before.snapshots.size)
    {P : Snapshot → Prop}
    (hOld : ∀ (index : Nat) (snapshot : Snapshot),
      before.snapshots[index]? = some snapshot → P snapshot)
    (hNew : ∀ snapshot : Snapshot, snapshot.load = .unloaded → P snapshot)
    (hCalled : P (after.snapshot node)) (index : Nat) (snapshot : Snapshot)
    (hSnapshot : after.snapshots[index]? = some snapshot) : P snapshot := by
  by_cases hIndex : index = node.index
  · rw [hIndex, getElem?_eq_snapshot (Nat.lt_of_lt_of_le hNode hAsks.size)] at hSnapshot
    cases hSnapshot
    exact hCalled
  · by_cases hBefore : index < before.snapshots.size
    · exact hOld index snapshot (hAsks.others index hIndex hBefore ▸ hSnapshot)
    · exact hNew snapshot (hAsks.added index snapshot (Nat.le_of_not_lt hBefore) hSnapshot)

/-- Questions keep a session coherent, if the snapshot that asks is regular. -/
theorem Coherent.asks {before after : Session σ} {node : SnapshotId} {sent : List Query}
    (h : before.Coherent) (hAsks : Asks node before after sent)
    (hNode : node.index < before.snapshots.size)
    (hRegular : after.Regular (after.snapshot node)) : after.Coherent :=
  hAsks.forall_snapshot hNode (fun index snapshot hOld => (h index snapshot hOld).mono hAsks.grows)
    (fun _ => after.regular_of_unloaded) hRegular

theorem Coherent.add {session : Session σ} (h : session.Coherent) (path : String)
    (revision : Revision) : (session.add path revision).2.Coherent := by
  apply h.step (grows_add session path revision)
  intro index snapshot hSnapshot
  rw [Session.add, Array.getElem?_push] at hSnapshot
  split at hSnapshot
  · cases hSnapshot
    exact Or.inr (regular_of_unloaded _ rfl)
  · exact Or.inl hSnapshot

variable [NodeStore σ]

/-- Every call keeps a session coherent. -/
theorem Coherent.call {session : Session σ} (h : session.Coherent) {node : SnapshotId}
    (hNode : node.index < session.snapshots.size) (call : Call) :
    (session.call node call).2.Coherent := by
  have hGoes := session.call_goes hNode call
  generalize (session.call node call).1 = answer at hGoes
  generalize (session.call node call).2 = after at hGoes
  cases hGoes with
  | refused hValid => exact h
  | failed hValid hLoad attempt =>
      refine h.asks attempt.asks hNode (after.regular_of_unloaded ?_)
      rw [attempt.snapshot]
  | @first content loaded after answer hValid hLoad attempt rest =>
      have hSnapshot := rest.snapshot.trans attempt.snapshot
      refine h.asks (attempt.asks.trans rest.asks hNode) hNode ?_
      rw [hSnapshot]
      refine ⟨nofun, ?_⟩
      rintro content ⟨⟩ entry hEntry
      exact rest.asks.grows.shows (attempt.children entry hEntry)
  | later hValid hLoad rest =>
      refine h.asks rest.asks hNode ?_
      rw [rest.snapshot]
      exact (h.regular hNode).mono rest.asks.grows

/-! ### What is given out -/

/-- What is kept leads to children of the snapshot, also right after loading. -/
theorem Coherent.content {session loaded : Session σ} (h : session.Coherent) {node : SnapshotId}
    (hNode : node.index < session.snapshots.size) {content : Content}
    (hContent : session.content node = (.ok content, loaded)) :
    Grows session loaded ∧ (loaded.snapshot node).path = (session.snapshot node).path ∧
      (loaded.snapshot node).revision = (session.snapshot node).revision ∧
      ∀ entry ∈ content.children, loaded.Shows entry.node
        (Path.child (session.snapshot node).path entry.name) (session.snapshot node).revision := by
  have hGrows := (session.steps_content node).grows
  rw [hContent] at hGrows
  obtain ⟨hPath, hRevision⟩ := (hGrows.shows (shows_of_lt hNode)).snapshot
  refine ⟨hGrows, hPath, hRevision, ?_⟩
  rcases content_eq_ok hNode hContent with ⟨hLoaded, rfl⟩ | hLoads
  · exact (h.regular hNode).children content hLoaded
  · exact hLoads.children

/-- The children of a fetched window are one level down. -/
theorem shows_fetch {session : Session σ} {node : SnapshotId} {offset requested : Nat}
    {entries : List ChildEntry} (h : (session.fetch node offset requested).1 = .ok entries) :
    ∀ entry ∈ entries, (session.fetch node offset requested).2.Shows entry.node
      (Path.child (session.snapshot node).path entry.name) (session.snapshot node).revision := by
  simp only [fetch] at h ⊢
  split at h
  · cases h
  · rename_i text asked hAnswer
    split at h
    · cases h
    · rename_i names hNames
      split at h
      · cases h
      · rename_i hFits
        cases h
        rw [if_neg hFits]
        exact ((lists_addChildren _ _ names asked).mono (.of_eq rfl rfl)).shows

/-- A child that the store has is at its own path. -/
theorem shows_uncachedChild {session : Session σ} {node : SnapshotId} {name : String}
    {child : SnapshotId} (h : (session.uncachedChild node name).1 = .ok (some child)) :
    (session.uncachedChild node name).2.Shows child
      (Path.child (session.snapshot node).path name) (session.snapshot node).revision := by
  simp only [uncachedChild] at h ⊢
  split at h
  · cases h
  · split at h
    · rename_i hFound
      cases h
      rw [if_pos hFound]
      exact shows_add _ _ _
    · cases h

/-- A child that is found is one level below its parent, at its revision. -/
theorem Coherent.child {session : Session σ} (h : session.Coherent) {node child : SnapshotId}
    (hNode : node.index < session.snapshots.size) {name : String}
    (hAnswer : (session.child node name).1 = .ok (some child)) :
    (session.child node name).2.Shows child (Path.child (session.snapshot node).path name)
      (session.snapshot node).revision := by
  simp only [Session.child] at hAnswer ⊢
  split at hAnswer
  · cases hAnswer
  · split at hAnswer
    · cases hAnswer
    · rename_i content loaded hContent
      obtain ⟨-, hPath, hRevision, hShows⟩ := h.content hNode hContent
      split at hAnswer
      · rename_i kept hKept
        cases hAnswer
        exact hShows _ (Content.child?_eq_some hKept)
      · split at hAnswer
        · cases hAnswer
        · rename_i hMore
          rw [if_neg hMore, ← hPath, ← hRevision]
          exact shows_uncachedChild hAnswer

/-- The entries of a page lead to snapshots one level below their parent, at its revision. -/
theorem Coherent.entries {session : Session σ} (h : session.Coherent) {node : SnapshotId}
    (hNode : node.index < session.snapshots.size) {offset : Nat} {count : Option Nat}
    {entries : List ChildEntry} (hAnswer : (session.entries node offset count).1 = .ok entries) :
    ∀ entry ∈ entries, (session.entries node offset count).2.Shows entry.node
      (Path.child (session.snapshot node).path entry.name) (session.snapshot node).revision := by
  simp only [Session.entries] at hAnswer ⊢
  split at hAnswer
  · cases hAnswer
  · rename_i content loaded hContent
    obtain ⟨-, hPath, hRevision, hShows⟩ := h.content hNode hContent
    split at hAnswer
    · cases hAnswer
    · rename_i wanted hWanted
      have hKept : ∀ entry ∈ (PagePlan.of loaded.config content offset wanted).kept,
          entry ∈ content.children :=
        fun entry hEntry => List.mem_of_mem_drop (List.mem_of_mem_take hEntry)
      split at hAnswer
      · cases hAnswer
        exact fun entry hEntry => hShows entry (hKept entry hEntry)
      · rename_i start requested hFetch
        obtain ⟨fetched, hFetched, rfl⟩ := exists_of_map_eq_ok hAnswer
        have hBefore := (loaded.steps_fetch node start requested).grows
        intro entry hEntry
        rcases List.mem_append.mp hEntry with hOld | hNew
        · exact hBefore.shows (hShows entry (hKept entry hOld))
        · rw [← hPath, ← hRevision]
          exact shows_fetch hFetched entry hNew

/-- The snapshots that a call gives out are at the revision of the called one. -/
theorem Coherent.given {session : Session σ} (h : session.Coherent) {node : SnapshotId}
    (hNode : node.index < session.snapshots.size) {call : Call} {answer : Answer}
    (hAnswer : (session.call node call).1 = .ok answer) :
    ∀ child ∈ answer.given, ∃ path,
      (session.call node call).2.Shows child path (session.snapshot node).revision := by
  intro child hChild
  cases call with
  | child name =>
      obtain ⟨found, hFound, rfl⟩ := exists_of_map_eq_ok hAnswer
      obtain rfl := Option.mem_toList.mp hChild
      exact ⟨_, h.child hNode hFound⟩
  | entries offset count =>
      obtain ⟨page, hPage, rfl⟩ := exists_of_map_eq_ok hAnswer
      obtain ⟨entry, hEntry, rfl⟩ := List.mem_map.mp hChild
      exact ⟨_, h.entries hNode hPage entry hEntry⟩
  | cachedChildren =>
      obtain ⟨kept, hKept, rfl⟩ := exists_of_map_eq_ok hAnswer
      obtain ⟨entry, hEntry, rfl⟩ := List.mem_map.mp hChild
      obtain ⟨content, hContent, rfl⟩ := exists_of_map_eq_ok hKept
      obtain ⟨-, -, -, hShows⟩ := h.content hNode (Prod.ext hContent rfl)
      exact ⟨_, hShows entry hEntry⟩
  | propertyCount | properties | property | childCount =>
      obtain ⟨value, -, rfl⟩ := exists_of_map_eq_ok hAnswer
      cases hChild

/-! ### Runs -/

/-- The sessions that come about by opening roots and by calls on what has been given out before,
with the snapshots in hand and the revisions that they were opened at. The store may change between
the calls. -/
inductive Reading : Session σ → List (SnapshotId × Revision) → Prop where
  | start (store : σ) (config : Config) : Reading { store, config } []
  | root {session : Session σ} {held : List (SnapshotId × Revision)} (revision : Revision)
      (prior : Reading session held) :
      Reading (session.add Path.root revision).2
        (((session.add Path.root revision).1, revision) :: held)
  | outside {session : Session σ} {held : List (SnapshotId × Revision)} (store : σ)
      (prior : Reading session held) : Reading { session with store } held
  | call {session : Session σ} {held : List (SnapshotId × Revision)} {node : SnapshotId}
      {revision : Revision} (hHeld : (node, revision) ∈ held) (call : Call)
      (prior : Reading session held) :
      Reading (session.call node call).2
        (held ++ ((session.call node call).1.toOption.elim [] Answer.given).map (·, revision))

/-- Whoever reads holds snapshots of the session, each at its revision. -/
structure Held (session : Session σ) (held : List (SnapshotId × Revision)) : Prop where
  coherent : session.Coherent
  shows : ∀ node revision, (node, revision) ∈ held → ∃ path, session.Shows node path revision

/-- What a call gives out is held with the revision of the snapshot that was called. -/
theorem Held.call {session : Session σ} {held : List (SnapshotId × Revision)}
    (h : session.Held held) {node : SnapshotId} {revision : Revision}
    (hHeld : (node, revision) ∈ held) (call : Call) :
    (session.call node call).2.Held
      (held ++ ((session.call node call).1.toOption.elim [] Answer.given).map (·, revision)) := by
  obtain ⟨path, hShows⟩ := h.shows node revision hHeld
  refine ⟨h.coherent.call hShows.lt call, ?_⟩
  intro other pinned hOther
  rcases List.mem_append.mp hOther with hOld | hNew
  · obtain ⟨place, hOld⟩ := h.shows other pinned hOld
    exact ⟨place, (session.steps_call node call).grows.shows hOld⟩
  · obtain ⟨child, hChild, hSame⟩ := List.mem_map.mp hNew
    cases hSame
    cases hAnswer : (session.call node call).1 with
    | error error =>
        rw [hAnswer] at hChild
        cases hChild
    | ok answer =>
        rw [hAnswer] at hChild
        rw [← hShows.snapshot.2]
        exact h.coherent.given hShows.lt hAnswer other hChild

/-- Whoever reads holds snapshots at the revisions that they were opened at. -/
theorem Reading.held {session : Session σ} {held : List (SnapshotId × Revision)}
    (h : session.Reading held) : session.Held held := by
  induction h with
  | start store config => exact ⟨nofun, nofun⟩
  | @root session held revision prior ih =>
      refine ⟨ih.coherent.add Path.root revision, ?_⟩
      intro node pinned hNode
      rcases List.mem_cons.mp hNode with hRoot | hOld
      · cases hRoot
        exact ⟨Path.root, session.shows_add Path.root revision⟩
      · obtain ⟨path, hShows⟩ := ih.shows node pinned hOld
        exact ⟨path, (grows_add session Path.root revision).shows hShows⟩
  | @outside session held store prior ih =>
      have hGrows : Grows session { session with store } := .of_eq rfl rfl
      exact ⟨ih.coherent.step hGrows fun _ _ => Or.inl, ih.shows⟩
  | call hHeld call prior ih => exact ih.call hHeld call

/-- What a call sends, by the state that it finds its snapshot in. -/
theorem Goes.sends {session after : Session σ} {node : SnapshotId} {call : Call}
    {answer : Except ReadError Answer} (h : session.Goes node call answer after)
    (hNode : node.index < session.snapshots.size)
    (hIdle : (session.snapshot node).load ≠ .loading) :
    ∃ sent, session.Asks node after sent ∧ (¬call.Valid → after = session ∧ sent = []) ∧
      (call.Valid →
        ((session.snapshot node).load = .unloaded ∧ after.snapshot node = session.snapshot node ∧
          sent = [session.loadQuery node]) ∨
        ((session.snapshot node).load = .unloaded ∧ ∃ content,
          after.snapshot node = { session.snapshot node with load := .loaded content } ∧
          sent = session.loadQuery node ::
            followUp session.config (session.snapshot node) content call) ∨
        ∃ content, (session.snapshot node).load = .loaded content ∧
          after.snapshot node = session.snapshot node ∧
          sent = followUp session.config (session.snapshot node) content call) := by
  have hUnloaded (hLoad : (session.snapshot node).load.content? = none) :
      (session.snapshot node).load = .unloaded := by
    cases hState : (session.snapshot node).load with
    | unloaded => rfl
    | loading => exact absurd hState hIdle
    | loaded content =>
        rw [hState] at hLoad
        cases hLoad
  cases h with
  | refused hValid => exact ⟨[], .refl node session, fun _ => ⟨rfl, rfl⟩, fun h => absurd h hValid⟩
  | failed hValid hLoad attempt =>
      refine ⟨_, attempt.asks, fun h => absurd hValid h, fun _ => Or.inl ⟨hUnloaded hLoad, ?_, rfl⟩⟩
      rw [attempt.snapshot, ← hUnloaded hLoad]
  | @first content loaded after answer hValid hLoad attempt rest =>
      refine ⟨_, attempt.asks.trans rest.asks hNode, fun h => absurd hValid h,
        fun _ => Or.inr (Or.inl ⟨hUnloaded hLoad, content, ?_, ?_⟩)⟩
      · exact rest.snapshot.trans attempt.snapshot
      · rw [attempt.followUp_eq]
        rfl
  | later hValid hLoad rest =>
      exact ⟨_, rest.asks, fun h => absurd hValid h,
        fun _ => Or.inr (Or.inr ⟨_, hLoad, rest.snapshot, rfl⟩)⟩

end Session

/-- Reads are lazy, and ask for nothing else. A call on a snapshot in hand loads it first if it is
not loaded, with one listing, and asks nothing if its child has no name. Once the snapshot is
loaded, what it keeps decides whether one more question is asked. All questions are about the
revision that the snapshot was opened at. No other snapshot changes, and new ones are not loaded. -/
theorem call_asks {σ : Type} [NodeStore σ] {session : Session σ}
    {held : List (SnapshotId × Revision)} (hReading : session.Reading held) {node : SnapshotId}
    {revision : Revision} (hHeld : (node, revision) ∈ held) (call : Call) :
    let snapshot := session.snapshot node
    let after := (session.call node call).2
    let loading : Query := .list
      { path := snapshot.path, revision, depth := 0, offset := 0
        max := some session.config.childCacheLimit, filter := none } .loading
    snapshot.revision = revision ∧
    (∃ sent, after.queries.toList = session.queries.toList ++ sent ∧
      (¬call.Valid → after = session ∧ sent = []) ∧
      (call.Valid →
        (snapshot.load = .unloaded ∧ after.snapshot node = snapshot ∧ sent = [loading]) ∨
        (snapshot.load = .unloaded ∧ ∃ content,
          after.snapshot node = { snapshot with load := .loaded content } ∧
          sent = loading :: followUp session.config snapshot content call) ∨
        ∃ content, snapshot.load = .loaded content ∧ after.snapshot node = snapshot ∧
          sent = followUp session.config snapshot content call)) ∧
    (∀ index, index ≠ node.index → index < session.snapshots.size →
      after.snapshots[index]? = session.snapshots[index]?) ∧
    ∀ index new, session.snapshots.size ≤ index → after.snapshots[index]? = some new →
      new.load = .unloaded := by
  obtain ⟨path, hShows⟩ := hReading.held.shows node revision hHeld
  obtain ⟨-, rfl⟩ := hShows.snapshot
  have hIdle := (hReading.held.coherent.regular hShows.lt).idle
  obtain ⟨sent, hAsks, hSent⟩ := (session.call_goes hShows.lt call).sends hShows.lt hIdle
  exact ⟨rfl, ⟨sent, hAsks.queries, hSent⟩, hAsks.others, hAsks.added⟩

/-- Looking for a child of the small store asks at its revision for the listing of the root, and
then for the child if the root does not keep it. -/
theorem call_asks_sample :
    let session := (Session.add { store := MemoryStore.sample, config := { childCacheLimit := 1 } }
      Path.root ⟨"r1"⟩).2
    ∃ more, (session.call ⟨0⟩ (.child "right")).2.queries.toList =
      .list { path := "/", revision := ⟨"r1"⟩, max := some 1 } .loading :: more := by
  have hReading := Session.Reading.root ⟨"r1"⟩
    (.start MemoryStore.sample { childCacheLimit := 1 })
  obtain ⟨-, ⟨sent, hSent, -, hValid⟩, -⟩ := call_asks hReading List.mem_cons_self (.child "right")
  have hName : Path.IsName "right" := by decide
  rcases hValid hName with ⟨-, -, rfl⟩ | ⟨-, content, -, rfl⟩ | ⟨content, hLoaded, -⟩
  · exact ⟨_, hSent⟩
  · exact ⟨_, hSent⟩
  · cases hLoaded

end PinnedTree
