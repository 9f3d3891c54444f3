import Mathlib.Logic.Relation
import PinnedTree.Proofs.Except
import PinnedTree.Session.Pages

/-! Calls on the snapshots of a session. Whatever a store answers, a call only adds snapshots, and
those there are keep their paths and revisions. -/
namespace PinnedTree

/-- What can be asked of a snapshot. -/
inductive Call where
  | propertyCount
  | properties
  | property (name : String)
  | childCount
  | cachedChildren
  | child (name : String)
  | entries (offset : Nat) (count : Option Nat)

inductive Answer where
  | count (value : Nat)
  | properties (properties : Members Property)
  | property (property : Option Property)
  | child (node : Option SnapshotId)
  | entries (entries : List ChildEntry)
  deriving DecidableEq

namespace Content

/-- A kept child is found under its name. -/
theorem child?_eq_some {content : Content} {name : String} {child : SnapshotId}
    (h : content.child? name = some child) : ⟨name, child⟩ ∈ content.children := by
  obtain ⟨entry, hFound, rfl⟩ := Option.map_eq_some_iff.mp h
  have hName : entry.name = name := by simpa using List.find?_some hFound
  rw [← hName]
  exact List.mem_of_find?_eq_some hFound

theorem child?_eq_none {content : Content} {name : String} (h : content.child? name = none) :
    name ∉ content.children.map ChildEntry.name := by
  intro hMem
  obtain ⟨entry, hEntry, hName⟩ := List.mem_map.mp hMem
  have hNone := List.find?_eq_none.mp (Option.map_eq_none_iff.mp h) entry hEntry
  exact hNone (by simpa using hName)

/-- There is a snapshot for a name exactly when a child of that name is kept. -/
theorem isSome_child?_iff {content : Content} {name : String} :
    (content.child? name).isSome = true ↔ name ∈ content.children.map ChildEntry.name := by
  cases h : content.child? name with
  | none => simpa using child?_eq_none h
  | some child => simpa using ⟨_, child?_eq_some h, rfl⟩

end Content

namespace Session

variable {σ : Type}

/-- There is a snapshot under this id, at this path and revision. -/
def Shows (session : Session σ) (node : SnapshotId) (path : String) (revision : Revision) : Prop :=
  ∃ snapshot, session.snapshots[node.index]? = some snapshot ∧ snapshot.path = path ∧
    snapshot.revision = revision

theorem Shows.snapshot {session : Session σ} {node : SnapshotId} {path : String}
    {revision : Revision} (h : session.Shows node path revision) :
    (session.snapshot node).path = path ∧ (session.snapshot node).revision = revision := by
  obtain ⟨snapshot, hSnapshot, hPath, hRevision⟩ := h
  rw [Session.snapshot, hSnapshot]
  exact ⟨hPath, hRevision⟩

theorem Shows.lt {session : Session σ} {node : SnapshotId} {path : String} {revision : Revision}
    (h : session.Shows node path revision) : node.index < session.snapshots.size := by
  obtain ⟨snapshot, hSnapshot, -⟩ := h
  exact (Array.getElem?_eq_some_iff.mp hSnapshot).1

theorem shows_of_lt {session : Session σ} {node : SnapshotId}
    (h : node.index < session.snapshots.size) :
    session.Shows node (session.snapshot node).path (session.snapshot node).revision := by
  refine ⟨session.snapshots[node.index], Array.getElem?_eq_getElem h, ?_, ?_⟩
  · rw [snapshot, Array.getElem?_eq_getElem h]
    rfl
  · rw [snapshot, Array.getElem?_eq_getElem h]
    rfl

/-- A later state of a session under the same limits, with all snapshots where they were. -/
structure Grows (before after : Session σ) : Prop where
  config : after.config = before.config
  shows : ∀ {node : SnapshotId} {path : String} {revision : Revision},
    before.Shows node path revision → after.Shows node path revision

theorem Grows.trans {first second third : Session σ} (left : Grows first second)
    (right : Grows second third) : Grows first third :=
  ⟨right.config.trans left.config, fun h => right.shows (left.shows h)⟩

/-- Only limits and snapshots matter. -/
theorem Grows.of_eq {before after : Session σ} (hConfig : after.config = before.config)
    (hSnapshots : after.snapshots = before.snapshots) : Grows before after := by
  refine ⟨hConfig, ?_⟩
  rintro node path revision ⟨snapshot, hSnapshot, hShown⟩
  exact ⟨snapshot, hSnapshots ▸ hSnapshot, hShown⟩

/-- Adding snapshots behind the others lets a session grow. -/
theorem Grows.of_append {before after : Session σ} (added : Array Snapshot)
    (hConfig : after.config = before.config)
    (hSnapshots : after.snapshots = before.snapshots ++ added) : Grows before after := by
  refine ⟨hConfig, ?_⟩
  rintro node path revision ⟨snapshot, hSnapshot, hShown⟩
  refine ⟨snapshot, ?_, hShown⟩
  obtain ⟨hLt, -⟩ := Array.getElem?_eq_some_iff.mp hSnapshot
  rw [hSnapshots, Array.getElem?_append_left hLt, hSnapshot]

/-- Only the snapshot in question gets another state. -/
theorem getElem?_setLoad (session : Session σ) (node : SnapshotId) (load : Load) (index : Nat) :
    (session.setLoad node load).snapshots[index]? =
      if node.index = index then
        session.snapshots[index]?.map fun snapshot => { snapshot with load }
      else session.snapshots[index]? := by
  rw [setLoad, Array.getElem?_modify]

theorem grows_setLoad (session : Session σ) (node : SnapshotId) (load : Load) :
    Grows session (session.setLoad node load) := by
  refine ⟨rfl, ?_⟩
  rintro other path revision ⟨snapshot, hSnapshot, hShown⟩
  rw [Shows, getElem?_setLoad]
  split
  · rw [hSnapshot]
    exact ⟨_, rfl, hShown⟩
  · exact ⟨snapshot, hSnapshot, hShown⟩

theorem snapshot_setLoad (session : Session σ) (node other : SnapshotId) (load : Load) :
    ((session.setLoad node load).snapshot other).path = (session.snapshot other).path ∧
      ((session.setLoad node load).snapshot other).revision =
        (session.snapshot other).revision := by
  rw [snapshot, snapshot, getElem?_setLoad]
  split
  · cases session.snapshots[other.index]? <;> exact ⟨rfl, rfl⟩
  · exact ⟨rfl, rfl⟩

theorem grows_add (session : Session σ) (path : String) (revision : Revision) :
    Grows session (session.add path revision).2 :=
  .of_append #[{ path, revision }] rfl Array.push_eq_append

theorem shows_add (session : Session σ) (path : String) (revision : Revision) :
    (session.add path revision).2.Shows (session.add path revision).1 path revision :=
  ⟨{ path, revision }, Array.getElem?_push_size, rfl, rfl⟩

/-- Children are added behind the other snapshots, one level below their parent. -/
theorem snapshots_addChildren (path : String) (revision : Revision) (names : List String)
    (session : Session σ) :
    (session.addChildren path revision names).2.snapshots = session.snapshots ++
      (names.map fun name => ({ path := Path.child path name, revision } : Snapshot)).toArray := by
  apply Array.ext'
  rw [addChildren, Array.toList_appendList, Array.toList_append]

theorem grows_addChildren (path : String) (revision : Revision) (names : List String)
    (session : Session σ) : Grows session (session.addChildren path revision names).2 :=
  .of_append _ rfl (snapshots_addChildren path revision names session)

/-- The entries have these names, and lead to the children of a path. -/
structure Lists (session : Session σ) (path : String) (revision : Revision)
    (entries : List ChildEntry) (names : List String) : Prop where
  names : entries.map ChildEntry.name = names
  shows : ∀ entry ∈ entries, session.Shows entry.node (Path.child path entry.name) revision

/-- Entries one behind the other have the names of both. -/
theorem Lists.append {session : Session σ} {path : String} {revision : Revision}
    {left right : List ChildEntry} {leftNames rightNames : List String}
    (hLeft : session.Lists path revision left leftNames)
    (hRight : session.Lists path revision right rightNames) :
    session.Lists path revision (left ++ right) (leftNames ++ rightNames) := by
  refine ⟨?_, ?_⟩
  · rw [List.map_append, hLeft.names, hRight.names]
  · intro entry hEntry
    exact (List.mem_append.mp hEntry).elim (hLeft.shows entry) (hRight.shows entry)

/-- Entries keep leading to their children while a session grows. -/
theorem Lists.mono {before after : Session σ} {path : String} {revision : Revision}
    {entries : List ChildEntry} {names : List String}
    (h : before.Lists path revision entries names) (hGrows : Grows before after) :
    after.Lists path revision entries names :=
  ⟨h.names, fun entry hEntry => hGrows.shows (h.shows entry hEntry)⟩

theorem addChildren_names (path : String) (revision : Revision) (names : List String)
    (session : Session σ) :
    (session.addChildren path revision names).1.map ChildEntry.name = names := by
  apply List.ext_getElem?
  intro index
  rw [addChildren, List.getElem?_map, List.getElem?_mapIdx, Option.map_map]
  exact Option.map_id'

/-- Each entry leads to a snapshot that nothing is known of. -/
theorem addChildren_snapshots {path : String} {revision : Revision} {names : List String}
    {session : Session σ} {entry : ChildEntry}
    (h : entry ∈ (session.addChildren path revision names).1) :
    (session.addChildren path revision names).2.snapshots[entry.node.index]? =
      some { path := Path.child path entry.name, revision } := by
  obtain ⟨index, hIndex, rfl⟩ := List.mem_mapIdx.mp h
  rw [snapshots_addChildren, Array.getElem?_append_right (Nat.le_add_right _ _)]
  simp [hIndex]

/-- The entries for children that are added have their names and lead to them. -/
theorem lists_addChildren (path : String) (revision : Revision) (names : List String)
    (session : Session σ) :
    (session.addChildren path revision names).2.Lists path revision
      (session.addChildren path revision names).1 names :=
  ⟨addChildren_names path revision names session, fun _ hEntry =>
    ⟨_, addChildren_snapshots hEntry, rfl, rfl⟩⟩

variable [NodeStore σ]

def call (session : Session σ) (node : SnapshotId) : Call → Except ReadError Answer × Session σ
  | .propertyCount => (session.propertyCount node).map (Except.map .count) id
  | .properties => (session.properties node).map (Except.map .properties) id
  | .property name => (session.property? node name).map (Except.map .property) id
  | .childCount => (session.childCount node).map (Except.map .count) id
  | .cachedChildren => (session.cachedChildren node).map (Except.map .entries) id
  | .child name => (session.child node name).map (Except.map .child) id
  | .entries offset count => (session.entries node offset count).map (Except.map .entries) id

/-! ### Loading a snapshot -/

/-- The session after the listing of a snapshot was asked for. -/
def asked (session : Session σ) (node : SnapshotId) : Session σ :=
  ((session.setLoad node .loading).askList node
    (loadRequest session.config (session.snapshot node))).2

/-- What a snapshot is loaded from, if the store answers and the answer can be read. -/
def loadAnswer (session : Session σ) (node : SnapshotId) : Except ReadError Listing :=
  ((session.setLoad node .loading).askList node
    (loadRequest session.config (session.snapshot node))).1.bind fun text =>
      (Listing.ofString session.config.childCacheLimit text).mapError .listing

/-- What a snapshot keeps of a listing. -/
def kept (session : Session σ) (snapshot : Snapshot) (listing : Listing) : Content where
  properties := listing.properties
  children := (session.addChildren snapshot.path snapshot.revision listing.children).1
  childCount := listing.childCount

/-- Without a listing, a snapshot is unloaded again. -/
theorem materialize_of_error {session : Session σ} {node : SnapshotId} {error : ReadError}
    (h : session.loadAnswer node = .error error) :
    session.materialize node = (.error error, (session.asked node).setLoad node .unloaded) := by
  rw [loadAnswer] at h
  simp only [materialize, h]
  rfl

/-- With a listing, a snapshot is loaded from it, and its children are added. -/
theorem materialize_of_ok {session : Session σ} {node : SnapshotId} {listing : Listing}
    (h : session.loadAnswer node = .ok listing) :
    ∃ event, session.materialize node =
      (.ok ((session.asked node).kept (session.snapshot node) listing),
        (((session.asked node).addChildren (session.snapshot node).path
            (session.snapshot node).revision listing.children).2.setLoad node
          (.loaded ((session.asked node).kept (session.snapshot node) listing))).record event) := by
  rw [loadAnswer] at h
  simp only [materialize, h]
  exact ⟨_, rfl⟩

/-! ### Asking for more -/

def windowRequest (snapshot : Snapshot) (offset requested : Nat) : ListRequest :=
  { path := snapshot.path, revision := snapshot.revision, offset, max := some requested }

/-- What a fetch answers are the children of a slice, in its order. -/
theorem fetch_names {session : Session σ} {node : SnapshotId} {offset requested : Nat}
    {text : String} {names : List String} {children : List ChildEntry}
    (hAnswer : (session.askList node
      (windowRequest (session.snapshot node) offset requested)).1 = .ok text)
    (hNames : Slice.ofString text = .ok names)
    (h : (session.fetch node offset requested).1 = .ok children) :
    children.map ChildEntry.name = names := by
  rw [windowRequest] at hAnswer
  simp only [fetch] at h
  split at h
  · cases h
  · rename_i found asked hAsked
    rw [hAsked] at hAnswer
    cases hAnswer
    rw [hNames] at h
    dsimp only at h
    split at h
    · cases h
    · cases h
      exact addChildren_names _ _ names asked

/-- A fetch asks once, and then adds the children that it found, or none. -/
theorem fetch_session (session : Session σ) (node : SnapshotId) (offset requested : Nat) :
    (session.fetch node offset requested).2 =
        (session.askList node (windowRequest (session.snapshot node) offset requested)).2 ∨
      ∃ names event, (session.fetch node offset requested).2 =
        ((session.askList node
          (windowRequest (session.snapshot node) offset requested)).2.addChildren
          (session.snapshot node).path (session.snapshot node).revision names).2.record event := by
  rw [windowRequest]
  simp only [fetch]
  split
  · rename_i error asked hAnswer
    exact Or.inl (congrArg Prod.snd hAnswer).symm
  · rename_i text asked hAnswer
    have hAsked : (session.askList node _).2 = asked := congrArg Prod.snd hAnswer
    split
    · exact Or.inl hAsked.symm
    · split
      · exact Or.inl hAsked.symm
      · exact Or.inr ⟨_, _, by rw [hAsked]⟩

/-- Looking for a child asks once, and adds a snapshot if the child is there. -/
theorem uncachedChild_session (session : Session σ) (node : SnapshotId) (name : String) :
    (session.uncachedChild node name).2 =
        (session.askHolds node (Path.child (session.snapshot node).path name)
          (session.snapshot node).revision).2 ∨
      ∃ event,
        (session.uncachedChild node name).2 =
          (session.askHolds node (Path.child (session.snapshot node).path name)
            (session.snapshot node).revision).2.record event ∨
        (session.uncachedChild node name).2 =
          (((session.askHolds node (Path.child (session.snapshot node).path name)
            (session.snapshot node).revision).2.record event).add
              (Path.child (session.snapshot node).path name)
              (session.snapshot node).revision).2 := by
  simp only [uncachedChild]
  split
  · rename_i error asked hAnswer
    exact Or.inl (congrArg Prod.snd hAnswer).symm
  · rename_i found asked hAnswer
    have hAsked : (session.askHolds node _ _).2 = asked := congrArg Prod.snd hAnswer
    split
    · exact Or.inr ⟨_, Or.inr (by rw [hAsked])⟩
    · exact Or.inr ⟨_, Or.inl (by rw [hAsked])⟩

/-! ### Steps -/

/-- What the calls on one snapshot are made of. -/
inductive Step (node : SnapshotId) : Session σ → Session σ → Prop where
  | setLoad (session : Session σ) (load : Load) : Step node session (session.setLoad node load)
  | askList (session : Session σ) (request : ListRequest) :
      Step node session (session.askList node request).2
  | askHolds (session : Session σ) (path : String) (revision : Revision) :
      Step node session (session.askHolds node path revision).2
  | record (session : Session σ) (event : Event) : Step node session (session.record event)
  | add (session : Session σ) (path : String) :
      Step node session (session.add path (session.snapshot node).revision).2
  | addChildren (session : Session σ) (path : String) (names : List String) :
      Step node session (session.addChildren path (session.snapshot node).revision names).2

abbrev Steps (node : SnapshotId) : Session σ → Session σ → Prop :=
  Relation.ReflTransGen (Step node)

theorem Step.grows {node : SnapshotId} {before after : Session σ} (step : Step node before after) :
    Grows before after := by
  cases step with
  | setLoad load => exact grows_setLoad before node load
  | askList request => exact .of_eq rfl rfl
  | askHolds path revision => exact .of_eq rfl rfl
  | record event => exact .of_eq rfl rfl
  | add path => exact grows_add before path _
  | addChildren path names => exact grows_addChildren path _ names before

/-- Any steps let a session grow. -/
theorem Steps.grows {node : SnapshotId} {before after : Session σ}
    (steps : Steps node before after) : Grows before after := by
  induction steps with
  | refl => exact .of_eq rfl rfl
  | tail prior last ih => exact ih.trans last.grows

theorem steps_asked (session : Session σ) (node : SnapshotId) :
    Steps node session (session.asked node) :=
  .tail (.single (.setLoad session .loading)) (.askList _ _)

/-- Loading is made of the steps of calls. -/
theorem steps_materialize (session : Session σ) (node : SnapshotId) :
    Steps node session (session.materialize node).2 := by
  have hAsked := session.steps_asked node
  cases hAnswer : session.loadAnswer node with
  | error error =>
      rw [materialize_of_error hAnswer]
      exact hAsked.tail (.setLoad _ .unloaded)
  | ok listing =>
      obtain ⟨event, hLoaded⟩ := materialize_of_ok hAnswer
      have hRevision : ((session.asked node).snapshot node).revision =
          (session.snapshot node).revision := (session.snapshot_setLoad node node .loading).2
      have hAdded := hAsked.tail
        (.addChildren (session.asked node) (session.snapshot node).path listing.children)
      rw [hRevision] at hAdded
      rw [hLoaded]
      exact (hAdded.tail (.setLoad _ _)).tail (.record _ event)

theorem steps_content (session : Session σ) (node : SnapshotId) :
    Steps node session (session.content node).2 := by
  rw [content]
  split
  · exact .refl
  · exact session.steps_materialize node

theorem steps_fetch (session : Session σ) (node : SnapshotId) (offset requested : Nat) :
    Steps node session (session.fetch node offset requested).2 := by
  have hAsked (request : ListRequest) : Steps node session (session.askList node request).2 :=
    .single (.askList session request)
  rcases session.fetch_session node offset requested with hSame | ⟨names, event, hAdded⟩
  · rw [hSame]
    exact hAsked _
  · rw [hAdded]
    exact ((hAsked _).tail (.addChildren _ _ names)).tail (.record _ event)

theorem steps_uncachedChild (session : Session σ) (node : SnapshotId) (name : String) :
    Steps node session (session.uncachedChild node name).2 := by
  have hAsked (path : String) (revision : Revision) :
      Steps node session (session.askHolds node path revision).2 :=
    .single (.askHolds session path revision)
  rcases session.uncachedChild_session node name with hSame | ⟨event, hRecorded | hAdded⟩
  · rw [hSame]
    exact hAsked _ _
  · rw [hRecorded]
    exact (hAsked _ _).tail (.record _ event)
  · rw [hAdded]
    exact ((hAsked _ _).tail (.record _ event)).tail (.add _ _)

/-- A call loads the snapshot, and may then fetch more children or ask for one. What all three keep
is kept by every call. -/
theorem call_keeps {P : Session σ → Prop} {node : SnapshotId}
    (hContent : ∀ session, P session → P (session.content node).2)
    (hFetch : ∀ session offset requested, P session → P (session.fetch node offset requested).2)
    (hUncached : ∀ session name, P session → P (session.uncachedChild node name).2)
    {session : Session σ} (h : P session) (call : Call) : P (session.call node call).2 := by
  have hLoaded := hContent session h
  cases call with
  | propertyCount => exact hLoaded
  | properties => exact hLoaded
  | property name => exact hLoaded
  | childCount => exact hLoaded
  | cachedChildren => exact hLoaded
  | child name =>
      show P (session.child node name).2
      rw [child]
      split
      · exact h
      · cases hAnswer : session.content node with
        | mk answer loaded =>
            rw [hAnswer] at hLoaded
            cases answer with
            | error error => exact hLoaded
            | ok content =>
                dsimp only
                split
                · exact hLoaded
                · split
                  · exact hLoaded
                  · exact hUncached loaded name hLoaded
  | entries offset count =>
      show P (session.entries node offset count).2
      rw [entries]
      cases hAnswer : session.content node with
      | mk answer loaded =>
          rw [hAnswer] at hLoaded
          cases answer with
          | error error => exact hLoaded
          | ok content =>
              dsimp only
              split
              · exact hLoaded
              · split
                · exact hLoaded
                · exact hFetch loaded _ _ hLoaded

/-- Every call is made of such steps. -/
theorem steps_call (session : Session σ) (node : SnapshotId) (call : Call) :
    Steps node session (session.call node call).2 :=
  call_keeps (P := Steps node session) (fun after h => h.trans (after.steps_content node))
    (fun after offset requested h => h.trans (after.steps_fetch node offset requested))
    (fun after name h => h.trans (after.steps_uncachedChild node name)) .refl call

end Session

end PinnedTree
