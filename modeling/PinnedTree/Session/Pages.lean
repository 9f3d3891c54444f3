import PinnedTree.Session

/-!
Pages of children. What a page wants is taken from the children that the snapshot keeps as far as
they go; for the rest the store is asked once, from where they end or from the page's own start if
that lies behind them. Children fetched so are answered and not kept.
-/

namespace PinnedTree

structure PagePlan where
  /-- The children that are kept. -/
  kept : List ChildEntry
  /-- The window to fetch: how many children to skip, and how many to answer at most. -/
  fetch : Option (Nat × Nat)
  deriving DecidableEq, Repr

namespace PagePlan

/-- The number of children that a page wants. All children are wanted when there is no count, which
is refused when there are too many. -/
def wanted (config : Config) (content : Content) : Option Nat → Except ReadError Nat
  | some count => .ok count
  | none =>
    if config.maxEnumerateAll < content.childCount then
      .error (.tooManyChildren content.childCount config.maxEnumerateAll)
    else .ok config.maxEnumerateAll

def of (config : Config) (content : Content) (offset wanted : Nat) : PagePlan :=
  let kept := (content.children.drop offset).take wanted
  let missing := wanted - kept.length
  { kept
    fetch :=
      if 0 < missing ∧ config.childCacheLimit < content.childCount then
        some (max offset content.children.length, missing)
      else none }

end PagePlan

namespace Session

variable {σ : Type} [NodeStore σ]

/-- Asks the store for a window of children. More children than asked for are refused. -/
def fetch (session : Session σ) (node : SnapshotId) (offset requested : Nat) :
    Except ReadError (List ChildEntry) × Session σ :=
  let snapshot := session.snapshot node
  let request : ListRequest :=
    { path := snapshot.path, revision := snapshot.revision, offset, max := some requested }
  match session.askList node request with
  | (.error error, asked) => (.error error, asked)
  | (.ok text, asked) =>
    match Slice.ofString text with
    | .error error => (.error (.listing error), asked)
    | .ok names =>
      if requested < names.length then
        let error : ParseError :=
          ⟨Text.byteLength text.toList, .moreThanRequested names.length requested⟩
        (.error (.listing (.malformed error)), asked)
      else
        let (children, added) := asked.addChildren snapshot.path snapshot.revision names
        let event := Event.fetchedChildren snapshot.path snapshot.revision offset requested
          names.length
        (.ok children, added.record event)

/-- The children of a node from `offset` on, at most `count` of them or all. -/
def entries (session : Session σ) (node : SnapshotId) (offset : Nat) (count : Option Nat) :
    Except ReadError (List ChildEntry) × Session σ :=
  match session.content node with
  | (.error error, session) => (.error error, session)
  | (.ok content, session) =>
    match PagePlan.wanted session.config content count with
    | .error error => (.error error, session)
    | .ok wanted =>
      let plan := PagePlan.of session.config content offset wanted
      match plan.fetch with
      | none => (.ok plan.kept, session)
      | some (offset, requested) =>
        let (fetched, session) := session.fetch node offset requested
        (fetched.map fun fetched => plan.kept ++ fetched, session)

end Session

end PinnedTree
