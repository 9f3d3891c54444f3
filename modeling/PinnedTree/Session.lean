import PinnedTree.Event
import PinnedTree.Listing.Slice
import PinnedTree.Store

/-!
Snapshots of nodes and the session that they live in. A snapshot names a node at a fixed revision;
what it says about the node is asked from the store when it is first wanted, and kept from then on.
Children are snapshots of their own that nothing has been asked about. A session keeps the store,
all its snapshots, and a record of what was asked of the store and of what happened.
-/

namespace PinnedTree

inductive ReadError where
  | listing (error : ListingError)
  | tooManyChildren (childCount limit : Nat)
  | badName (error : NameError)
  | store (error : StoreError)
  deriving DecidableEq, Repr

def ReadError.message : ReadError → String
  | listing (.malformed error) => "malformed node listing: " ++ error.message
  | listing (.unexpectedToken token) => "unexpected token: " ++ token
  | tooManyChildren childCount limit =>
    "too many child nodes to enumerate: " ++ toString childCount ++ " exceeds " ++ toString limit
  | badName error => "invalid child name: " ++ error.message
  | store error => "store error: " ++ error.message

/-- Names a snapshot of a session. -/
structure SnapshotId where
  index : Nat
  deriving DecidableEq, Repr, Inhabited

/-- A child of a node: its name, and the snapshot of it. -/
structure ChildEntry where
  name : String
  node : SnapshotId
  deriving DecidableEq, Repr

/-- What a snapshot keeps of its listing. -/
structure Content where
  properties : Members Property
  /-- The children that were listed, which need not be all. -/
  children : List ChildEntry
  childCount : Nat
  deriving DecidableEq

namespace Content

def property? (content : Content) (name : String) : Option Property :=
  content.properties.find? name

def child? (content : Content) (name : String) : Option SnapshotId :=
  (content.children.find? fun entry => entry.name = name).map ChildEntry.node

end Content

/-- How far a snapshot has got. -/
inductive Load where
  | unloaded
  /-- The listing has been asked for. -/
  | loading
  | loaded (content : Content)
  deriving DecidableEq

namespace Load

def label : Load → String
  | unloaded => "Unloaded"
  | loading => "Loading"
  | loaded _ => "Loaded"

def content? : Load → Option Content
  | loaded content => some content
  | _ => none

end Load

/-- A snapshot: a path at a revision, and what is known of the node there. -/
structure Snapshot where
  path : String
  revision : Revision
  load : Load := .unloaded
  deriving DecidableEq

instance : Inhabited Snapshot := ⟨{ path := "", revision := default }⟩

/-- A question to the store, with the state of the snapshot that asks it. -/
inductive Query where
  | list (request : ListRequest) (asker : Load)
  | holds (path : String) (revision : Revision) (asker : Load)
  deriving DecidableEq

/-- A store, the snapshots of its nodes, and what has been asked and has happened so far. -/
structure Session (σ : Type) where
  store : σ
  config : Config
  snapshots : Array Snapshot := #[]
  queries : Array Query := #[]
  events : Array Event := #[]

namespace Session

variable {σ : Type}

def snapshot (session : Session σ) (node : SnapshotId) : Snapshot :=
  session.snapshots[node.index]?.getD default

/-- Adds a snapshot that nothing is known of. -/
def add (session : Session σ) (path : String) (revision : Revision) : SnapshotId × Session σ :=
  (⟨session.snapshots.size⟩,
    { session with snapshots := session.snapshots.push { path, revision } })

/-- Adds a snapshot for each child of a node, in order. -/
def addChildren (path : String) (revision : Revision) (names : List String) (session : Session σ) :
    List ChildEntry × Session σ :=
  let first := session.snapshots.size
  let entries : List ChildEntry := names.mapIdx fun index name => ⟨name, ⟨first + index⟩⟩
  let children : List Snapshot := names.map fun name => { path := Path.child path name, revision }
  (entries, { session with snapshots := session.snapshots ++ children })

/-- Changes how far a snapshot has got. -/
def setLoad (session : Session σ) (node : SnapshotId) (load : Load) : Session σ :=
  { session with
    snapshots := session.snapshots.modify node.index fun snapshot => { snapshot with load } }

def record (session : Session σ) (event : Event) : Session σ :=
  { session with events := session.events.push event }

variable [NodeStore σ]

/-- Asks the store for a listing on behalf of a snapshot. -/
def askList (session : Session σ) (node : SnapshotId) (request : ListRequest) :
    Except ReadError String × Session σ :=
  let (answer, store) := NodeStore.list request session.store
  (answer.mapError .store,
    { session with
      store
      queries := session.queries.push (.list request (session.snapshot node).load) })

/-- Asks the store on behalf of a snapshot whether there is a node at a path. -/
def askHolds (session : Session σ) (node : SnapshotId) (path : String) (revision : Revision) :
    Except ReadError Bool × Session σ :=
  let (answer, store) := NodeStore.holds path revision session.store
  (answer.mapError .store,
    { session with
      store
      queries := session.queries.push (.holds path revision (session.snapshot node).load) })

/-- Adds a snapshot of the root at the latest revision. -/
def head (session : Session σ) : Except ReadError SnapshotId × Session σ :=
  match NodeStore.head session.store with
  | .error error => (.error (.store error), session)
  | .ok revision =>
    let (node, session) := session.add Path.root revision
    (.ok node, session)

/-- The request for the listing that a snapshot is loaded from. -/
def loadRequest (config : Config) (snapshot : Snapshot) : ListRequest :=
  { path := snapshot.path, revision := snapshot.revision, max := some config.childCacheLimit }

/-- Loads a snapshot from its listing. When that fails, the snapshot is as before. -/
def materialize (session : Session σ) (node : SnapshotId) : Except ReadError Content × Session σ :=
  let snapshot := session.snapshot node
  let config := session.config
  let (answer, asked) :=
    (session.setLoad node .loading).askList node (loadRequest config snapshot)
  let listing := answer.bind fun text =>
    (Listing.ofString config.childCacheLimit text).mapError .listing
  match listing with
  | .error error => (.error error, asked.setLoad node .unloaded)
  | .ok listing =>
    let (children, added) := asked.addChildren snapshot.path snapshot.revision listing.children
    let content : Content :=
      { properties := listing.properties, children, childCount := listing.childCount }
    let event := Event.materialized snapshot.path snapshot.revision content.properties.length
      content.childCount content.children.length
    (.ok content, (added.setLoad node (.loaded content)).record event)

/-- What a snapshot keeps of its listing. It is loaded if it has not been. -/
def content (session : Session σ) (node : SnapshotId) : Except ReadError Content × Session σ :=
  match (session.snapshot node).load with
  | .loaded content => (.ok content, session)
  | _ => session.materialize node

def ask {α : Type} (session : Session σ) (node : SnapshotId) (answer : Content → α) :
    Except ReadError α × Session σ :=
  let (content, session) := session.content node
  (content.map answer, session)

def propertyCount (session : Session σ) (node : SnapshotId) : Except ReadError Nat × Session σ :=
  session.ask node fun content => content.properties.length

def properties (session : Session σ) (node : SnapshotId) :
    Except ReadError (Members Property) × Session σ :=
  session.ask node Content.properties

def property? (session : Session σ) (node : SnapshotId) (name : String) :
    Except ReadError (Option Property) × Session σ :=
  session.ask node (·.property? name)

def childCount (session : Session σ) (node : SnapshotId) : Except ReadError Nat × Session σ :=
  session.ask node Content.childCount

/-- The children that the snapshot keeps. -/
def cachedChildren (session : Session σ) (node : SnapshotId) :
    Except ReadError (List ChildEntry) × Session σ :=
  session.ask node Content.children

/-- Asks the store for a child that is not among those kept. -/
def uncachedChild (session : Session σ) (node : SnapshotId) (name : String) :
    Except ReadError (Option SnapshotId) × Session σ :=
  let snapshot := session.snapshot node
  let path := Path.child snapshot.path name
  match session.askHolds node path snapshot.revision with
  | (.error error, asked) => (.error error, asked)
  | (.ok found, asked) =>
    let recorded := asked.record (.checkedChild path snapshot.revision found)
    if found then
      let (child, added) := recorded.add path snapshot.revision
      (.ok (some child), added)
    else (.ok none, recorded)

/-- The snapshot of the child called `name`, if there is such a child. The store is asked only when
the node has more children than snapshots keep. -/
def child (session : Session σ) (node : SnapshotId) (name : String) :
    Except ReadError (Option SnapshotId) × Session σ :=
  match Path.checkName name with
  | .error error => (.error (.badName error), session)
  | .ok () =>
    match session.content node with
    | (.error error, session) => (.error error, session)
    | (.ok content, session) =>
      match content.child? name with
      | some child => (.ok (some child), session)
      | none =>
        if content.childCount ≤ session.config.childCacheLimit then (.ok none, session)
        else session.uncachedChild node name

def inspect (session : Session σ) (node : SnapshotId) : String :=
  let snapshot := session.snapshot node
  "KernelNodeState \x7b path: " ++ Text.quote snapshot.path ++ ", revision: "
    ++ snapshot.revision.inspect ++ ", state: " ++ snapshot.load.label ++ " \x7d"

def inspectEntry (session : Session σ) (entry : ChildEntry) : String :=
  "ChildNodeEntry \x7b name: " ++ Text.quote entry.name ++ ", node: "
    ++ session.inspect entry.node ++ " \x7d"

def inspectContext (session : Session σ) : String :=
  "KernelContext \x7b config: " ++ session.config.inspect ++ ", .. \x7d"

end Session

end PinnedTree
