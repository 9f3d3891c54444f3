import PinnedTree.Command
import PinnedTree.Command.Style
import PinnedTree.Session.Pages
import PinnedTree.Store.Memory
import PinnedTree.Toml.Limits

/-!
What commands print. A command commits the tree of its file to a fresh store, and reads it back
through snapshots or asks the store itself.
-/

namespace PinnedTree

inductive CommandError where
  | readingConfig (file : String)
  | parsingConfig (file : String)
  | readingFixture (file : String)
  | parsingFixture (file : String)
  | badTree (error : TreeError)
  | emptyPages
  | badFilter
  | badPath (error : NameError)
  | noNode (path : String) (revision : Revision)
  | read (error : ReadError)
  | store (error : StoreError)
  /-- There are more nodes than the tree can have. -/
  | endless
  /-- No level is wanted, and still one below it. -/
  | noLevelLeft

def CommandError.message : CommandError → String
  | readingConfig file => "reading config " ++ file
  | parsingConfig file => "parsing config " ++ file
  | readingFixture file => "reading fixture " ++ file
  | parsingFixture file => "parsing fixture " ++ file
  | badTree error => error.message
  | emptyPages => "--page must be at least 1"
  | badFilter => "parsing --filter"
  | badPath error => error.message
  | noNode path revision => "no node at " ++ path ++ " in " ++ revision.token
  | read error => error.message
  | store error => error.message
  | endless => "the tree does not end"
  | noLevelLeft => "attempt to subtract with overflow"

/-- A command at work: it reads snapshots of a session, and may fail. -/
abbrev Reading (α : Type) := ExceptT CommandError (StateM (Session MemoryStore)) α

namespace Reading

/-- Reads from the session. -/
def ask {α : Type}
    (question : Session MemoryStore → Except ReadError α × Session MemoryStore) : Reading α :=
  fun session =>
    let (answer, session) := question session
    (answer.mapError .read, session)

/-- Goes down from a snapshot by names. -/
def walk (path : String) (revision : Revision) : SnapshotId → List String → Reading SnapshotId
  | node, [] => return node
  | node, name :: names => do
    match ← ask (·.child node name) with
    | some child => walk path revision child names
    | none => throw (.noNode path revision)

/-- The snapshot at a path, reached from the root. -/
def resolve (revision : Revision) (root : SnapshotId) (path : String) : Reading SnapshotId :=
  match Path.check path with
  | .error error => throw (.badPath error)
  | .ok () => walk path revision root (Path.segments path)

end Reading

namespace Command

def line (text : String) : String :=
  text ++ "\n"

def showNode (paint : Style → String → String) (path : String) (revision : Revision)
    (node : SnapshotId) (offset : Nat) (count : Option Nat) : Reading (List String) := do
  let properties ← Reading.ask (·.properties node)
  let entries ← Reading.ask (·.entries node offset count)
  let childCount ← Reading.ask (·.childCount node)
  return [paint .bold path ++ " @ " ++ paint .yellow revision.token,
      "properties (" ++ toString properties.length ++ "):"]
    ++ properties.map (fun (name, value) => "  " ++ Property.line name value)
    ++ ["children (" ++ toString childCount ++ "):"]
    ++ entries.map fun entry => "  " ++ paint .blue entry.name

def indentation (level : Nat) : String :=
  String.ofList (List.replicate (2 * level) ' ')

/-- What `below` prints for the children of a node from `offset` on, taken page by page. The last
page is the first that is not full. There are at most `remaining` children. -/
def pages (below : ChildEntry → Reading (List String)) (page : Nat) (node : SnapshotId)
    (remaining offset : Nat) : Reading (List String) := do
  let entries ← Reading.ask (·.entries node offset (some page))
  let lines ← entries.mapM below
  let rest ←
    if entries.length < page then pure []
    else if _hMore : 0 < entries.length ∧ entries.length ≤ remaining then
      pages below page node (remaining - entries.length) (offset + entries.length)
    else throw .endless
  return lines.flatten ++ rest
  termination_by remaining

/-- The number of levels wanted below the children of a node, if not all. -/
def nextDepth : Option Nat → Reading (Option Nat)
  | none => return none
  | some 0 => throw .noLevelLeft
  | some (depth + 1) => return some depth

/-- Shows a node with what is below it. The first number bounds the nodes that are shown, the last
is the number of levels wanted, if not all. -/
def showTree (paint : Style → String → String) (page : Nat) :
    Nat → Nat → Option Nat → String → SnapshotId → Reading (List String)
  | size, level, depth, name, node => do
    let properties ← Reading.ask (·.properties node)
    let pad := indentation level
    let lines := (pad ++ paint .boldBlue name) :: properties.map fun (name, value) =>
      pad ++ "  " ++ paint .dimmed (Property.line name value)
    match depth, size with
    | some 0, _ => return lines
    | _, 0 => throw .endless
    | depth, size + 1 => do
      let below (entry : ChildEntry) : Reading (List String) := do
        let next ← nextDepth depth
        showTree paint page size (level + 1) next entry.name entry.node
      let rest ← pages below page node size 0
      return lines ++ rest

def perform (paint : Style → String → String) (root : Tree) (revision : Revision) :
    CommandAction → Reading (List String)
  | .show path offset count => do
    let start ← fun session =>
      let (start, session) := session.add Path.root revision
      (.ok start, session)
    let node ← Reading.resolve revision start path
    showNode paint path revision node offset count
  | .tree path depth page => do
    let start ← fun session =>
      let (start, session) := session.add Path.root revision
      (.ok start, session)
    let node ← Reading.resolve revision start path
    showTree paint page root.nodeCount 0 depth path node
  | .list path depth offset max filter => do
    let filter ← match filter with
      | none => pure none
      | some text =>
        match NameFilter.ofJson text with
        | .error _ => throw .badFilter
        | .ok filter => pure (some filter)
    let store := (← get).store
    match store.list { path, revision, depth, offset, max, filter } with
    | .error error => throw (.store error)
    | .ok text => return [text]

/-- The limits to keep to, and the event of having read them. -/
def loadConfig (read : String → Option String) :
    Option String → Except CommandError (Config × List Event)
  | none => .ok ({}, [])
  | some file =>
    match read file with
    | none => .error (.readingConfig file)
    | some text =>
      match Config.ofToml? text with
      | none => .error (.parsingConfig file)
      | some config => .ok (config, [.loadedConfig file config])

def loadTree (read : String → Option String) (file : String) : Except CommandError Tree :=
  match read file with
  | none => .error (.readingFixture file)
  | some text =>
    match Json.ofString? text with
    | none => .error (.parsingFixture file)
    | some value => (Tree.ofJson value).mapError .badTree

def wantsEmptyPages : CommandAction → Bool
  | .tree _ _ 0 => true
  | _ => false

/-- Carries out a command, where `read` gives the contents of files. Answers what is printed, and
what happened up to the end or the failure. -/
def run (colored : Bool) (read : String → Option String) (command : Command) :
    Except CommandError String × List Event :=
  match loadConfig read command.config with
  | .error error => (.error error, [])
  | .ok (config, events) =>
    if wantsEmptyPages command.action then (.error .emptyPages, events)
    else match loadTree read command.fixture with
      | .error error => (.error error, events)
      | .ok root =>
        let (revision, store) := MemoryStore.fresh.commit root
        let session : Session MemoryStore :=
          { store, config, events := (events ++ [Event.committed revision root.nodeCount]).toArray }
        let (lines, session) := perform (Style.paint colored) root revision command.action session
        (lines.map fun lines => String.join (lines.map line), session.events.toList)

def log (command : Command) (events : List Event) : List String :=
  if command.verbose then events.flatMap Event.lines else []

/-- What a command writes beside its output: the entries of the log, if it is to write any, and then
its failure. -/
def errorText (command : Command) (events : List Event) (outcome : Except CommandError String) :
    String :=
  let entries := if command.verbose then events.map Event.entry else []
  let failure := match outcome with
    | .ok _ => []
    | .error error => ["Error: " ++ error.message]
  String.join ((entries ++ failure).map line)

/-- The first line of a text that tells of a failure. -/
def failure? (text : String) : Option String :=
  ((Text.lines text.toList).find? ("Error: ".toList.isPrefixOf ·)).map String.ofList

end Command

end PinnedTree
