import Mathlib.Logic.Function.Basic
import PinnedTree.Session

/-!
Several callers that want the content of one snapshot at the same time. What has been loaded is
published for all. A caller that finds nothing published waits for a lock, looks again, and only
then asks the store; it publishes what it has read before it lets go of the lock. Between any two
steps of a caller the others may take any number of theirs.
-/

namespace PinnedTree

namespace Session

variable {σ : Type}

def setUnlessLoaded (session : Session σ) (node : SnapshotId) (load : Load) : Session σ :=
  match (session.snapshot node).load with
  | .loaded _ => session
  | _ => session.setLoad node load

def sendLoad (session : Session σ) (node : SnapshotId) : Session σ :=
  let snapshot := session.snapshot node
  { session with
    queries := session.queries.push (.list (loadRequest session.config snapshot) snapshot.load) }

/-- The store answers the question for the listing of a snapshot. What the answer says is read, and
there are snapshots of the children then, but it is not yet kept. -/
def receiveLoad [NodeStore σ] (session : Session σ) (node : SnapshotId) :
    Except ReadError Content × Session σ :=
  let snapshot := session.snapshot node
  let config := session.config
  let (answer, store) := NodeStore.list (loadRequest config snapshot) session.store
  let received := { session with store }
  let listing := (answer.mapError ReadError.store).bind fun text =>
    (Listing.ofString config.childCacheLimit text).mapError .listing
  match listing with
  | .error error => (.error error, received)
  | .ok listing =>
    let (children, added) := received.addChildren snapshot.path snapshot.revision listing.children
    let content : Content :=
      { properties := listing.properties, children, childCount := listing.childCount }
    let event := Event.materialized snapshot.path snapshot.revision content.properties.length
      content.childCount content.children.length
    (.ok content, added.record event)

end Session

namespace FirstRead

inductive Place where
  /-- At the start, before it looks for what is published. -/
  | starting
  /-- Nothing was published; it wants the lock. -/
  | waiting
  /-- It has the lock, and is to look again. -/
  | locked
  /-- Still nothing was published; it is to ask. -/
  | asking
  /-- It has asked, and waits for the answer. -/
  | listening
  /-- It has read a content, which it is to publish. -/
  | listed (content : Content)
  /-- It knows its result, and is to let go of the lock. -/
  | leaving (result : Except ReadError Content)
  /-- It knows its result, and has no lock. -/
  | returning (result : Except ReadError Content)
  | returned (result : Except ReadError Content)

inductive Event where
  | checked
  | acquired
  | rechecked
  | sent
  | answered (outcome : Except ReadError Content)
  | published (content : Content)
  /-- It has found, when it was to publish, that something is published already. -/
  | adopted
  | released
  | returned (result : Except ReadError Content)

/-- What the callers share: the session with the snapshot, and the lock. -/
structure Shared (σ ι : Type) where
  session : Session σ
  holder : Option ι := none

variable {σ ι : Type}

/-- How far the snapshot has got. It is loaded when its content is published. -/
def Shared.load (shared : Shared σ ι) (node : SnapshotId) : Load :=
  (shared.session.snapshot node).load

/-- One step of the caller `i`, from its place and what is shared to its next place and what is
shared then. -/
inductive Acts [NodeStore σ] (node : SnapshotId) (i : ι) :
    Place → Shared σ ι → Event → Place → Shared σ ι → Prop where
  | found {shared : Shared σ ι} {content : Content} (hLoad : shared.load node = .loaded content) :
      Acts node i .starting shared .checked (.returning (.ok content)) shared
  | missed {shared : Shared σ ι} (hLoad : (shared.load node).content? = none) :
      Acts node i .starting shared .checked .waiting shared
  | acquire {shared : Shared σ ι} (hFree : shared.holder = none) :
      Acts node i .waiting shared .acquired .locked
        { session := shared.session.setUnlessLoaded node .loading, holder := some i }
  | refound {shared : Shared σ ι} {content : Content}
      (hLoad : shared.load node = .loaded content) :
      Acts node i .locked shared .rechecked (.leaving (.ok content)) shared
  | remissed {shared : Shared σ ι} (hLoad : (shared.load node).content? = none) :
      Acts node i .locked shared .rechecked .asking shared
  | send {shared : Shared σ ι} :
      Acts node i .asking shared .sent .listening
        { shared with session := shared.session.sendLoad node }
  | fail {shared : Shared σ ι} {error : ReadError} {received : Session σ}
      (hAnswer : shared.session.receiveLoad node = (.error error, received)) :
      Acts node i .listening shared (.answered (.error error)) (.leaving (.error error))
        { shared with session := received }
  | list {shared : Shared σ ι} {content : Content} {received : Session σ}
      (hAnswer : shared.session.receiveLoad node = (.ok content, received)) :
      Acts node i .listening shared (.answered (.ok content)) (.listed content)
        { shared with session := received }
  | publish {shared : Shared σ ι} {content : Content}
      (hLoad : (shared.load node).content? = none) :
      Acts node i (.listed content) shared (.published content) (.leaving (.ok content))
        { shared with session := shared.session.setUnlessLoaded node (.loaded content) }
  | adopt {shared : Shared σ ι} {content kept : Content} (hLoad : shared.load node = .loaded kept) :
      Acts node i (.listed content) shared .adopted (.leaving (.ok kept)) shared
  | release {shared : Shared σ ι} {result : Except ReadError Content} :
      Acts node i (.leaving result) shared .released (.returning result)
        { session := shared.session.setUnlessLoaded node .unloaded, holder := none }
  | finish {shared : Shared σ ι} {result : Except ReadError Content} :
      Acts node i (.returning result) shared (.returned result) (.returned result) shared

structure State (σ ι : Type) where
  shared : Shared σ ι
  place : ι → Place

namespace State

/-- All callers are at the start, and the lock is free. -/
def start (session : Session σ) : State σ ι :=
  ⟨{ session }, fun _ => .starting⟩

end State

variable [DecidableEq ι] [NodeStore σ]

inductive Step (node : SnapshotId) : State σ ι → ι × Event → State σ ι → Prop where
  | act {state : State σ ι} {i : ι} {event : Event} {place : Place} {shared : Shared σ ι}
      (acts : Acts node i (state.place i) state.shared event place shared) :
      Step node state (i, event) ⟨shared, Function.update state.place i place⟩

/-- Any steps of the callers, one after the other, with the list of what each has done. -/
inductive Run (node : SnapshotId) (first : State σ ι) : List (ι × Event) → State σ ι → Prop where
  | refl : Run node first [] first
  | tail {trace : List (ι × Event)} {state next : State σ ι} {entry : ι × Event}
      (prior : Run node first trace state) (last : Step node state entry next) :
      Run node first (trace ++ [entry]) next

end FirstRead

end PinnedTree
