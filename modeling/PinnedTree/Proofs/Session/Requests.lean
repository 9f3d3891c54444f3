import PinnedTree.Proofs.Session.Calls

/-! What a call asks of the store. A snapshot that is not loaded asks for its listing, and one that
is loaded asks at most one more question, which depends on what it keeps. No other snapshot changes
on the way, and those that are added are not loaded. -/
namespace PinnedTree

namespace Call

/-- A call about a child has to name it. -/
def Valid : Call → Prop
  | child name => Path.IsName name
  | _ => True

end Call

namespace Content

/-- The answer to a call for which no question is needed beyond the listing. -/
def answer? (content : Content) : Call → Option Answer
  | .propertyCount => some (.count content.properties.length)
  | .properties => some (.properties content.properties)
  | .property name => some (.property (content.property? name))
  | .childCount => some (.count content.childCount)
  | .cachedChildren => some (.entries content.children)
  | .child name => (content.child? name).map fun child => .child (some child)
  | .entries _ _ => none

end Content

/-- What a snapshot that keeps `content` still asks the store for. A child is asked for if it is not
kept and not all children are. A page is asked for from the end of what is kept, as far as that
falls short of the page. -/
def followUp (config : Config) (snapshot : Snapshot) (content : Content) : Call → List Query
  | .child name =>
    if content.child? name = none ∧ config.childCacheLimit < content.childCount then
      [.holds (Path.child snapshot.path name) snapshot.revision (.loaded content)]
    else []
  | .entries offset count =>
    let wanted := count.getD config.maxEnumerateAll
    let supplied := content.children.length - offset
    if ¬(count = none ∧ config.maxEnumerateAll < content.childCount) ∧ supplied < wanted ∧
        config.childCacheLimit < content.childCount then
      [.list
        { path := snapshot.path, revision := snapshot.revision, depth := 0
          offset := max offset content.children.length, max := some (wanted - supplied)
          filter := none }
        (.loaded content)]
    else []
  | _ => []

theorem Load.eq_of_content? {load : Load} {content : Content} (h : load.content? = some content) :
    load = .loaded content := by
  cases load with
  | loaded kept => exact congrArg Load.loaded (Option.some.inj h)
  | unloaded => cases h
  | loading => cases h

/-- What is asked for depends only on where the snapshot is. -/
theorem followUp_with_load (config : Config) (snapshot : Snapshot) (load : Load)
    (content : Content) (call : Call) :
    followUp config { snapshot with load } content call =
      followUp config snapshot content call := by
  cases call <;> rfl

namespace Session

variable {σ : Type}

/-- These questions have been asked, and snapshots have been added of which nothing is known. No
snapshot has changed but perhaps `node`. -/
structure Asks (node : SnapshotId) (before after : Session σ) (sent : List Query) : Prop where
  queries : after.queries.toList = before.queries.toList ++ sent
  grows : Grows before after
  size : before.snapshots.size ≤ after.snapshots.size
  others : ∀ index, index ≠ node.index → index < before.snapshots.size →
    after.snapshots[index]? = before.snapshots[index]?
  added : ∀ index snapshot, before.snapshots.size ≤ index →
    after.snapshots[index]? = some snapshot → snapshot.load = .unloaded

variable {node : SnapshotId} {before after : Session σ}

theorem Asks.refl (node : SnapshotId) (session : Session σ) : Asks node session session [] := by
  refine ⟨(List.append_nil _).symm, .of_eq rfl rfl, Nat.le_refl _, fun _ _ _ => rfl, ?_⟩
  intro index snapshot hNew hSnapshot
  rw [Array.getElem?_eq_none hNew] at hSnapshot
  cases hSnapshot

/-- What is asked in two parts is asked one after the other. -/
theorem Asks.trans {middle : Session σ} {first second : List Query}
    (left : Asks node before middle first) (right : Asks node middle after second)
    (hNode : node.index < before.snapshots.size) :
    Asks node before after (first ++ second) := by
  refine ⟨?_, left.grows.trans right.grows, Nat.le_trans left.size right.size, ?_, ?_⟩
  · rw [right.queries, left.queries, List.append_assoc]
  · intro index hOther hOld
    exact (right.others index hOther (Nat.lt_of_lt_of_le hOld left.size)).trans
      (left.others index hOther hOld)
  · intro index snapshot hNew hSnapshot
    by_cases hMiddle : index < middle.snapshots.size
    · rw [right.others index (by omega) hMiddle] at hSnapshot
      exact left.added index snapshot hNew hSnapshot
    · exact right.added index snapshot (Nat.le_of_not_lt hMiddle) hSnapshot

/-- If a session has more queries and more snapshots and is otherwise the same, these queries were
asked. -/
theorem Asks.of_append {added : Array Snapshot} {sent : List Query}
    (hQueries : after.queries.toList = before.queries.toList ++ sent)
    (hConfig : after.config = before.config)
    (hSnapshots : after.snapshots = before.snapshots ++ added)
    (hAdded : ∀ snapshot ∈ added, snapshot.load = .unloaded) : Asks node before after sent := by
  refine ⟨hQueries, .of_append added hConfig hSnapshots, ?_, ?_, ?_⟩
  · rw [hSnapshots, Array.size_append]
    exact Nat.le_add_right _ _
  · intro index _ hOld
    rw [hSnapshots, Array.getElem?_append_left hOld]
  · intro index snapshot hNew hSnapshot
    rw [hSnapshots, Array.getElem?_append_right hNew] at hSnapshot
    exact hAdded snapshot (Array.mem_of_getElem? hSnapshot)

theorem Asks.record {sent : List Query} (h : Asks node before after sent) (event : Event) :
    Asks node before (after.record event) sent :=
  ⟨h.queries, h.grows.trans (.of_eq rfl rfl), h.size, h.others, h.added⟩

theorem asks_setLoad (session : Session σ) (node : SnapshotId) (load : Load) :
    Asks node session (session.setLoad node load) [] := by
  have hSize : (session.setLoad node load).snapshots.size = session.snapshots.size :=
    Array.size_modify
  refine ⟨(List.append_nil _).symm, grows_setLoad session node load, Nat.le_of_eq hSize.symm, ?_,
    ?_⟩
  · intro index hOther _
    rw [getElem?_setLoad, if_neg (Ne.symm hOther)]
  · intro index snapshot hNew hSnapshot
    rw [Array.getElem?_eq_none (hSize ▸ hNew)] at hSnapshot
    cases hSnapshot

theorem asks_addChildren (session : Session σ) (node : SnapshotId) (path : String)
    (revision : Revision) (names : List String) :
    Asks node session (session.addChildren path revision names).2 [] := by
  refine .of_append (List.append_nil _).symm rfl (snapshots_addChildren path revision names _) ?_
  intro snapshot hSnapshot
  obtain ⟨name, -, rfl⟩ := List.mem_map.mp (List.mem_toArray.mp hSnapshot)
  rfl

theorem asks_add (session : Session σ) (node : SnapshotId) (path : String) (revision : Revision) :
    Asks node session (session.add path revision).2 [] := by
  refine .of_append (List.append_nil _).symm rfl Array.push_eq_append ?_
  intro snapshot hSnapshot
  rw [Array.mem_singleton.mp hSnapshot]

theorem snapshot_setLoad_self {session : Session σ} {node : SnapshotId}
    (hNode : node.index < session.snapshots.size) (load : Load) :
    (session.setLoad node load).snapshot node = { session.snapshot node with load } := by
  rw [snapshot, getElem?_setLoad, if_pos rfl, snapshot, Array.getElem?_eq_getElem hNode]
  rfl

/-- Snapshots that are added behind a snapshot do not change it. -/
theorem snapshot_eq_of_append {added : Array Snapshot}
    (hNode : node.index < before.snapshots.size)
    (hSnapshots : after.snapshots = before.snapshots ++ added) :
    after.snapshot node = before.snapshot node := by
  rw [snapshot, hSnapshots, Array.getElem?_append_left hNode, snapshot]

variable [NodeStore σ]

theorem asks_askList (session : Session σ) (node : SnapshotId) (request : ListRequest) :
    Asks node session (session.askList node request).2
      [.list request (session.snapshot node).load] :=
  .of_append Array.toList_push rfl Array.append_empty.symm nofun

theorem asks_askHolds (session : Session σ) (node : SnapshotId) (path : String)
    (revision : Revision) :
    Asks node session (session.askHolds node path revision).2
      [.holds path revision (session.snapshot node).load] :=
  .of_append Array.toList_push rfl Array.append_empty.symm nofun

/-! ### Loading -/

def loadQuery (session : Session σ) (node : SnapshotId) : Query :=
  .list (loadRequest session.config (session.snapshot node)) .loading

/-- The snapshot has asked for its listing in vain, and is not loaded. -/
structure FailsToLoad (session : Session σ) (node : SnapshotId) (error : ReadError)
    (after : Session σ) : Prop where
  attempt : session.loadAnswer node = .error error
  answer : session.content node = (.error error, after)
  asks : session.Asks node after [session.loadQuery node]
  snapshot : after.snapshot node = { session.snapshot node with load := .unloaded }

/-- The snapshot has asked for its listing, and keeps what that says. -/
structure GetsLoaded (session : Session σ) (node : SnapshotId) (content : Content)
    (after : Session σ) : Prop where
  attempt : session.loadAnswer node = .ok
    { properties := content.properties
      children := content.children.map ChildEntry.name
      childCount := content.childCount }
  answer : session.content node = (.ok content, after)
  asks : session.Asks node after [session.loadQuery node]
  snapshot : after.snapshot node = { session.snapshot node with load := .loaded content }
  children : ∀ entry ∈ content.children, after.Shows entry.node
    (Path.child (session.snapshot node).path entry.name) (session.snapshot node).revision

/-- Loading does not change what is asked afterwards. -/
theorem GetsLoaded.followUp_eq {session loaded : Session σ} {node : SnapshotId} {content : Content}
    (h : session.GetsLoaded node content loaded) (call : Call) :
    followUp loaded.config (loaded.snapshot node) content call =
      followUp session.config (session.snapshot node) content call := by
  rw [h.asks.grows.config, h.snapshot, followUp_with_load]

theorem content_of_loaded {session : Session σ} {node : SnapshotId} {content : Content}
    (h : (session.snapshot node).load = .loaded content) :
    session.content node = (.ok content, session) := by
  rw [Session.content, h]

theorem content_of_not_loaded {session : Session σ} {node : SnapshotId}
    (h : (session.snapshot node).load.content? = none) :
    session.content node = session.materialize node := by
  rw [Session.content]
  split
  · rename_i content hLoad
    rw [hLoad] at h
    cases h
  · rfl

/-- Loading asks for one listing. -/
theorem asks_asked {session : Session σ} {node : SnapshotId}
    (hNode : node.index < session.snapshots.size) :
    session.Asks node (session.asked node) [session.loadQuery node] := by
  have hAsks := (asks_setLoad session node .loading).trans (asks_askList _ node
    (loadRequest session.config (session.snapshot node))) hNode
  rw [snapshot_setLoad_self hNode] at hAsks
  exact hAsks

theorem snapshot_asked {session : Session σ} {node : SnapshotId}
    (hNode : node.index < session.snapshots.size) :
    (session.asked node).snapshot node = { session.snapshot node with load := .loading } :=
  snapshot_setLoad_self hNode .loading

/-- Without a listing, a snapshot asks for it in vain. -/
theorem failsToLoad {session : Session σ} {node : SnapshotId} {error : ReadError}
    (hNode : node.index < session.snapshots.size)
    (hLoad : (session.snapshot node).load.content? = none)
    (h : session.loadAnswer node = .error error) :
    ∃ after, session.FailsToLoad node error after := by
  have hAsked := asks_asked hNode
  have hSize := Nat.lt_of_lt_of_le hNode hAsked.size
  refine ⟨(session.asked node).setLoad node .unloaded, h, ?_, ?_, ?_⟩
  · rw [content_of_not_loaded hLoad, materialize_of_error h]
  · exact hAsked.trans (asks_setLoad _ node .unloaded) hNode
  · rw [snapshot_setLoad_self hSize, snapshot_asked hNode]

/-- With a listing, a snapshot asks for it and keeps what it says. -/
theorem getsLoaded {session : Session σ} {node : SnapshotId} {listing : Listing}
    (hNode : node.index < session.snapshots.size)
    (hLoad : (session.snapshot node).load.content? = none)
    (h : session.loadAnswer node = .ok listing) :
    ∃ content after, session.GetsLoaded node content after := by
  obtain ⟨event, hLoaded⟩ := materialize_of_ok h
  have hAsked := asks_asked hNode
  have hSize := Nat.lt_of_lt_of_le hNode hAsked.size
  have hAdded := asks_addChildren (session.asked node) node (session.snapshot node).path
    (session.snapshot node).revision listing.children
  have hSnapshot := snapshot_eq_of_append hSize (snapshots_addChildren
    (session.snapshot node).path (session.snapshot node).revision listing.children _)
  have hAsks := (hAsked.trans hAdded hNode).trans (asks_setLoad _ node
    (.loaded ((session.asked node).kept (session.snapshot node) listing))) hNode
  have hLists := lists_addChildren (session.snapshot node).path (session.snapshot node).revision
    listing.children (session.asked node)
  refine ⟨_, _, ?_, (content_of_not_loaded hLoad).trans hLoaded, ?_, ?_, ?_⟩
  · rw [h, kept, hLists.names]
  · exact hAsks.record event
  · refine (snapshot_setLoad_self (Nat.lt_of_lt_of_le hSize hAdded.size) _).trans ?_
    rw [hSnapshot, snapshot_asked hNode]
  · exact (hLists.mono ((grows_setLoad _ node _).trans (.of_eq rfl rfl))).shows

/-- What is kept was kept before, or has just been loaded. -/
theorem content_eq_ok {session loaded : Session σ} {node : SnapshotId} {content : Content}
    (hNode : node.index < session.snapshots.size)
    (h : session.content node = (.ok content, loaded)) :
    ((session.snapshot node).load = .loaded content ∧ loaded = session) ∨
      session.GetsLoaded node content loaded := by
  cases hLoad : (session.snapshot node).load.content? with
  | some kept =>
      have hLoaded := Load.eq_of_content? hLoad
      obtain ⟨⟨⟩, rfl⟩ := Prod.mk.inj ((content_of_loaded hLoaded).symm.trans h)
      exact Or.inl ⟨hLoaded, rfl⟩
  | none =>
      cases hAttempt : session.loadAnswer node with
      | error error =>
          obtain ⟨after, hFails⟩ := failsToLoad hNode hLoad hAttempt
          cases hFails.answer.symm.trans h
      | ok listing =>
          obtain ⟨kept, after, hLoads⟩ := getsLoaded hNode hLoad hAttempt
          cases hLoads.answer.symm.trans h
          exact Or.inr hLoads

/-! ### One more question -/

/-- A fetch puts one question, and leaves the snapshot as it is. -/
theorem asks_fetch {session : Session σ} {node : SnapshotId}
    (hNode : node.index < session.snapshots.size) (offset requested : Nat) :
    session.Asks node (session.fetch node offset requested).2
        [.list (windowRequest (session.snapshot node) offset requested)
          (session.snapshot node).load] ∧
      (session.fetch node offset requested).2.snapshot node = session.snapshot node := by
  have hAsked := asks_askList session node (windowRequest (session.snapshot node) offset requested)
  rcases session.fetch_session node offset requested with hSame | ⟨names, event, hAdded⟩
  · rw [hSame]
    exact ⟨hAsked, rfl⟩
  · rw [hAdded]
    have hAsks := hAsked.trans (asks_addChildren _ node (session.snapshot node).path
      (session.snapshot node).revision names) hNode
    refine ⟨hAsks.record event, ?_⟩
    exact snapshot_eq_of_append hNode (snapshots_addChildren _ _ names _)

/-- Looking for a child puts one question, and leaves the snapshot as it is. -/
theorem asks_uncachedChild {session : Session σ} {node : SnapshotId}
    (hNode : node.index < session.snapshots.size) (name : String) :
    session.Asks node (session.uncachedChild node name).2
        [.holds (Path.child (session.snapshot node).path name) (session.snapshot node).revision
          (session.snapshot node).load] ∧
      (session.uncachedChild node name).2.snapshot node = session.snapshot node := by
  have hAsked := asks_askHolds session node (Path.child (session.snapshot node).path name)
    (session.snapshot node).revision
  rcases session.uncachedChild_session node name with hSame | ⟨event, hRecorded | hAdded⟩
  · rw [hSame]
    exact ⟨hAsked, rfl⟩
  · rw [hRecorded]
    exact ⟨hAsked.record event, rfl⟩
  · rw [hAdded]
    have hAsks := (hAsked.record event).trans (asks_add _ node
      (Path.child (session.snapshot node).path name) (session.snapshot node).revision) hNode
    refine ⟨hAsks, ?_⟩
    exact snapshot_eq_of_append hNode Array.push_eq_append

/-! ### Calls -/

/-- What is no name is refused before anything else is done. -/
theorem child_of_not_name (session : Session σ) (node : SnapshotId) {name : String}
    (hName : ¬Path.IsName name) :
    session.child node name = (.error (.badName (.invalidName name)), session) := by
  have hCheck : Path.checkName name = .error (.invalidName name) := if_neg hName
  rw [child, hCheck]

/-- A call without a name for its child does nothing. -/
theorem call_of_not_valid (session : Session σ) (node : SnapshotId) {call : Call}
    (h : ¬call.Valid) : ∃ error, session.call node call = (.error (.badName error), session) := by
  cases call with
  | child name =>
      refine ⟨.invalidName name, ?_⟩
      rw [call, session.child_of_not_name node h]
      rfl
  | _ => exact absurd trivial h

/-- A call that cannot load its snapshot answers why. -/
theorem call_of_error {session after : Session σ} {node : SnapshotId} {call : Call}
    {error : ReadError} (hValid : call.Valid)
    (h : session.content node = (.error error, after)) :
    session.call node call = (.error error, after) := by
  cases call with
  | child name => simp [Session.call, child, Path.checkName_eq_ok_iff.mpr hValid, h, Except.map]
  | entries offset count => simp [Session.call, entries, h, Except.map]
  | _ => simp [Session.call, propertyCount, properties, property?, childCount, cachedChildren, ask,
      h, Except.map]

/-- A child that is not kept is asked for exactly when not all children are kept. -/
theorem child_of_ok {session loaded : Session σ} {node : SnapshotId} {name : String}
    {content : Content} (hName : Path.IsName name) (hNode : node.index < loaded.snapshots.size)
    (h : session.content node = (.ok content, loaded))
    (hLoad : (loaded.snapshot node).load = .loaded content) :
    loaded.Asks node (session.child node name).2
        (followUp loaded.config (loaded.snapshot node) content (.child name)) ∧
      (session.child node name).2.snapshot node = loaded.snapshot node ∧
      ∀ kept, content.child? name = some kept → (session.child node name).1 = .ok (some kept) := by
  simp only [child, Path.checkName_eq_ok_iff.mpr hName, h, followUp]
  cases hKept : content.child? name with
  | some kept =>
      simp only [reduceCtorEq, false_and, if_false]
      refine ⟨.refl node loaded, trivial, ?_⟩
      rintro found ⟨⟩
      rfl
  | none =>
      simp only [true_and]
      by_cases hAll : content.childCount ≤ loaded.config.childCacheLimit
      · rw [if_pos hAll, if_neg (Nat.not_lt.mpr hAll)]
        refine ⟨.refl node loaded, rfl, ?_⟩
        rintro kept ⟨⟩
      · rw [if_neg hAll, if_pos (Nat.lt_of_not_le hAll), ← hLoad]
        obtain ⟨hAsks, hSnapshot⟩ := asks_uncachedChild hNode name
        refine ⟨hAsks, hSnapshot, ?_⟩
        rintro kept ⟨⟩

end Session

/-- A page is fetched from the end of what is kept, if that falls short of the page. -/
theorem PagePlan.fetch_of (config : Config) (content : Content) (offset wanted : Nat) :
    (PagePlan.of config content offset wanted).fetch =
      if content.children.length - offset < wanted ∧
          config.childCacheLimit < content.childCount then
        some (max offset content.children.length, wanted - (content.children.length - offset))
      else none := by
  have hMissing : wanted - ((content.children.drop offset).take wanted).length =
      wanted - (content.children.length - offset) := by
    rw [List.length_take, List.length_drop]
    omega
  simp only [PagePlan.of, hMissing, Nat.sub_pos_iff_lt]

/-- All children are wanted unless there is a count, and not if there are too many. -/
theorem PagePlan.wanted_eq (config : Config) (content : Content) (count : Option Nat) :
    PagePlan.wanted config content count =
      if count = none ∧ config.maxEnumerateAll < content.childCount then
        .error (.tooManyChildren content.childCount config.maxEnumerateAll)
      else .ok (count.getD config.maxEnumerateAll) := by
  cases count with
  | none => simp [PagePlan.wanted]
  | some count => rfl

namespace Session

variable {σ : Type} [NodeStore σ]

/-- A page of a snapshot that is loaded asks for what is missing, if anything. -/
theorem entries_of_ok {session loaded : Session σ} {node : SnapshotId} {content : Content}
    (hNode : node.index < loaded.snapshots.size)
    (h : session.content node = (.ok content, loaded))
    (hLoad : (loaded.snapshot node).load = .loaded content) (offset : Nat) (count : Option Nat) :
    loaded.Asks node (session.entries node offset count).2
        (followUp loaded.config (loaded.snapshot node) content (.entries offset count)) ∧
      (session.entries node offset count).2.snapshot node = loaded.snapshot node := by
  simp only [entries, h, PagePlan.wanted_eq, followUp]
  by_cases hRefused : count = none ∧ loaded.config.maxEnumerateAll < content.childCount
  · rw [if_pos hRefused, if_neg fun hAsks => hAsks.1 hRefused]
    exact ⟨.refl node loaded, rfl⟩
  · rw [if_neg hRefused]
    simp only [PagePlan.fetch_of, hRefused, not_false_eq_true, true_and]
    by_cases hShort : content.children.length - offset < count.getD loaded.config.maxEnumerateAll ∧
        loaded.config.childCacheLimit < content.childCount
    · simp only [if_pos hShort, ← hLoad]
      exact asks_fetch hNode _ _
    · simp only [if_neg hShort, and_true]
      exact .refl node loaded

theorem ask_of_ok {α : Type} {session loaded : Session σ} {node : SnapshotId} {content : Content}
    {answer : Content → α} (h : session.content node = (.ok content, loaded)) :
    session.ask node answer = (.ok (answer content), loaded) := by
  simp only [ask, h]
  rfl

/-- Once its snapshot is loaded, a call asks what is left to ask. -/
theorem call_of_ok {session loaded : Session σ} {node : SnapshotId} {call : Call}
    {content : Content} (hValid : call.Valid) (hNode : node.index < loaded.snapshots.size)
    (h : session.content node = (.ok content, loaded))
    (hLoad : (loaded.snapshot node).load = .loaded content) :
    loaded.Asks node (session.call node call).2
        (followUp loaded.config (loaded.snapshot node) content call) ∧
      (session.call node call).2.snapshot node = loaded.snapshot node ∧
      ∀ answer, content.answer? call = some answer →
        (session.call node call).1 = .ok answer := by
  cases call with
  | child name =>
      obtain ⟨hAsks, hSnapshot, hKept⟩ := child_of_ok hValid hNode h hLoad
      refine ⟨hAsks, hSnapshot, ?_⟩
      intro answer hAnswer
      obtain ⟨kept, hFound, rfl⟩ := Option.map_eq_some_iff.mp hAnswer
      exact congrArg (Except.map Answer.child) (hKept kept hFound)
  | entries offset count =>
      obtain ⟨hAsks, hSnapshot⟩ := entries_of_ok hNode h hLoad offset count
      refine ⟨hAsks, hSnapshot, ?_⟩
      intro answer hAnswer
      cases hAnswer
  | _ =>
      simp only [Session.call, propertyCount, properties, property?, childCount, cachedChildren,
        ask_of_ok h]
      refine ⟨.refl node loaded, rfl, ?_⟩
      rintro answer ⟨⟩
      rfl

/-- A call has answered about a loaded snapshot. -/
structure Answers (loaded : Session σ) (node : SnapshotId) (call : Call) (content : Content)
    (answer : Except ReadError Answer) (after : Session σ) : Prop where
  asks : loaded.Asks node after (followUp loaded.config (loaded.snapshot node) content call)
  snapshot : after.snapshot node = loaded.snapshot node
  known : ∀ value, content.answer? call = some value → answer = .ok value

/-- The ways in which a call can go. -/
inductive Goes (session : Session σ) (node : SnapshotId) (call : Call) :
    Except ReadError Answer → Session σ → Prop where
  /-- The name of the child is none. -/
  | refused {error : NameError} (hValid : ¬call.Valid) :
      Goes session node call (.error (.badName error)) session
  /-- The snapshot is not loaded, and it cannot be. -/
  | failed {error : ReadError} {after : Session σ} (hValid : call.Valid)
      (hLoad : (session.snapshot node).load.content? = none)
      (attempt : session.FailsToLoad node error after) : Goes session node call (.error error) after
  /-- The snapshot has not been loaded before. -/
  | first {content : Content} {loaded after : Session σ} {answer : Except ReadError Answer}
      (hValid : call.Valid) (hLoad : (session.snapshot node).load.content? = none)
      (attempt : session.GetsLoaded node content loaded)
      (rest : loaded.Answers node call content answer after) : Goes session node call answer after
  /-- The snapshot has been loaded before. -/
  | later {content : Content} {after : Session σ} {answer : Except ReadError Answer}
      (hValid : call.Valid) (hLoad : (session.snapshot node).load = .loaded content)
      (rest : session.Answers node call content answer after) : Goes session node call answer after

/-- Every call goes in one of these ways. -/
theorem call_goes {session : Session σ} {node : SnapshotId}
    (hNode : node.index < session.snapshots.size) (call : Call) :
    session.Goes node call (session.call node call).1 (session.call node call).2 := by
  by_cases hValid : call.Valid
  · cases hLoad : (session.snapshot node).load.content? with
    | some content =>
        have hLoaded : (session.snapshot node).load = .loaded content := Load.eq_of_content? hLoad
        obtain ⟨hAsks, hSnapshot, hKnown⟩ :=
          call_of_ok hValid hNode (content_of_loaded hLoaded) hLoaded
        exact .later hValid hLoaded ⟨hAsks, hSnapshot, hKnown⟩
    | none =>
        cases hAttempt : session.loadAnswer node with
        | error error =>
            obtain ⟨after, hFails⟩ := failsToLoad hNode hLoad hAttempt
            rw [call_of_error hValid hFails.answer]
            exact .failed hValid hLoad hFails
        | ok listing =>
            obtain ⟨content, loaded, hLoads⟩ := getsLoaded hNode hLoad hAttempt
            obtain ⟨hAsks, hSnapshot, hKnown⟩ := call_of_ok hValid
              (Nat.lt_of_lt_of_le hNode hLoads.asks.size) hLoads.answer
              (congrArg Snapshot.load hLoads.snapshot)
            exact .first hValid hLoad hLoads ⟨hAsks, hSnapshot, hKnown⟩
  · obtain ⟨error, hRefused⟩ := call_of_not_valid session node hValid
    rw [hRefused]
    exact .refused hValid

end Session

end PinnedTree
