import PinnedTree.Proofs.Json.Tokens
import PinnedTree.Proofs.Session.Requests
import PinnedTree.Store.Scripted

/-! A snapshot is loaded once and as a whole, whatever the store answers. Until a listing has been
read the snapshot is as it was made, and from then on it is as that listing made it. -/
namespace PinnedTree

/-- A call on a snapshot, with the sessions around it. -/
structure Turn (σ : Type) where
  before : Session σ
  call : Call
  answer : Except ReadError Answer
  after : Session σ

namespace Session

variable {σ : Type} [NodeStore σ]

def turn (session : Session σ) (node : SnapshotId) (call : Call) : Turn σ :=
  ⟨session, call, (session.call node call).1, (session.call node call).2⟩

def turns (session : Session σ) (node : SnapshotId) : List Call → List (Turn σ)
  | [] => []
  | call :: rest => session.turn node call :: (session.turn node call).after.turns node rest

end Session

namespace Turn

variable {σ : Type}

/-- The call has no name for the child that it asks about, and does nothing. -/
structure Refused (turn : Turn σ) : Prop where
  answer : ∃ error, turn.answer = .error (.badName error)
  after : turn.after = turn.before

variable [NodeStore σ]

/-- The snapshot is not loaded, and stays so. A call that needs to know something asks for the
listing, just once, and answers what is wrong with that. -/
structure Fails (node : SnapshotId) (turn : Turn σ) : Prop where
  found : (turn.before.snapshot node).load = .unloaded
  left : turn.after.snapshot node = turn.before.snapshot node
  refused : ¬turn.call.Valid → turn.Refused
  asked : turn.call.Valid → ∃ error, turn.before.loadAnswer node = .error error ∧
    turn.answer = .error error ∧
    turn.after.queries.toList = turn.before.queries.toList ++ [turn.before.loadQuery node]

/-- The snapshot is not loaded, and then it is, from one listing. The call has a name for the child
that it asks about, and behind the listing it asks only for what is not kept. -/
structure Loads (node : SnapshotId) (content : Content) (turn : Turn σ) : Prop where
  found : (turn.before.snapshot node).load = .unloaded
  valid : turn.call.Valid
  attempt : turn.before.loadAnswer node = .ok
    { properties := content.properties
      children := content.children.map ChildEntry.name
      childCount := content.childCount }
  left : turn.after.snapshot node = { turn.before.snapshot node with load := .loaded content }
  asked : turn.after.queries.toList = turn.before.queries.toList ++ turn.before.loadQuery node ::
    followUp turn.before.config (turn.before.snapshot node) content turn.call
  known : ∀ value, content.answer? turn.call = some value → turn.answer = .ok value

omit [NodeStore σ] in
/-- The snapshot is loaded, and nothing about it changes. It asks only for what is not kept, and
what is kept is answered. -/
structure Keeps (node : SnapshotId) (content : Content) (turn : Turn σ) : Prop where
  found : (turn.before.snapshot node).load = .loaded content
  left : turn.after.snapshot node = turn.before.snapshot node
  refused : ¬turn.call.Valid → turn.Refused
  asked : turn.call.Valid → turn.after.queries.toList = turn.before.queries.toList ++
    followUp turn.before.config (turn.before.snapshot node) content turn.call
  known : turn.call.Valid → ∀ value, content.answer? turn.call = some value →
    turn.answer = .ok value

end Turn

namespace Session

variable {σ : Type} [NodeStore σ]

/-- A snapshot that is there stays there. -/
theorem lt_turn {session : Session σ} {node other : SnapshotId}
    (h : node.index < session.snapshots.size) (call : Call) :
    node.index < (session.turn other call).after.snapshots.size :=
  ((session.steps_call other call).grows.shows (shows_of_lt h)).lt

/-- A call on a loaded snapshot asks just what is not kept, and changes nothing about the
snapshot. -/
theorem keeps_call {session : Session σ} {node : SnapshotId} {content : Content}
    (hNode : node.index < session.snapshots.size)
    (hLoad : (session.snapshot node).load = .loaded content) (call : Call) :
    (session.turn node call).Keeps node content := by
  have hGoes := session.call_goes hNode call
  rw [turn]
  generalize (session.call node call).1 = answer at hGoes ⊢
  generalize (session.call node call).2 = after at hGoes ⊢
  cases hGoes with
  | refused hValid =>
      exact ⟨hLoad, rfl, fun _ => ⟨⟨_, rfl⟩, rfl⟩, fun h => absurd h hValid,
        fun h => absurd h hValid⟩
  | failed hValid hNone attempt =>
      rw [hLoad] at hNone
      cases hNone
  | first hValid hNone attempt rest =>
      rw [hLoad] at hNone
      cases hNone
  | later hValid hLoaded rest =>
      cases hLoad.symm.trans hLoaded
      exact ⟨hLoad, rest.snapshot, fun h => absurd hValid h, fun _ => rest.asks.queries,
        fun _ => rest.known⟩

/-- A loaded snapshot keeps its content through any calls. -/
theorem keeps_turns {session : Session σ} {node : SnapshotId} {content : Content}
    (hNode : node.index < session.snapshots.size)
    (hLoad : (session.snapshot node).load = .loaded content) (calls : List Call) :
    ∀ turn ∈ session.turns node calls, turn.Keeps node content := by
  induction calls generalizing session with
  | nil => exact List.forall_mem_nil _
  | cons call rest ih =>
      have hKeeps := keeps_call hNode hLoad call
      rw [turns, List.forall_mem_cons]
      exact ⟨hKeeps, ih (lt_turn hNode call) ((congrArg Snapshot.load hKeeps.left).trans hLoad)⟩

/-- A call on a snapshot that is not loaded either fails or loads it. -/
theorem fails_or_loads_call {session : Session σ} {node : SnapshotId}
    (hNode : node.index < session.snapshots.size)
    (hLoad : (session.snapshot node).load = .unloaded) (call : Call) :
    (session.turn node call).Fails node ∨
      ∃ content, (session.turn node call).Loads node content := by
  have hGoes := session.call_goes hNode call
  rw [turn]
  generalize (session.call node call).1 = answer at hGoes ⊢
  generalize (session.call node call).2 = after at hGoes ⊢
  cases hGoes with
  | refused hValid =>
      exact Or.inl ⟨hLoad, rfl, fun _ => ⟨⟨_, rfl⟩, rfl⟩, fun h => absurd h hValid⟩
  | failed hValid hNone attempt =>
      refine Or.inl ⟨hLoad, ?_, fun h => absurd hValid h,
        fun _ => ⟨_, attempt.attempt, rfl, attempt.asks.queries⟩⟩
      rw [attempt.snapshot, ← hLoad]
  | @first content loaded after answer hValid hNone attempt rest =>
      have hSent := (attempt.asks.trans rest.asks hNode).queries
      rw [attempt.followUp_eq] at hSent
      exact Or.inr ⟨content, hLoad, hValid, attempt.attempt,
        rest.snapshot.trans attempt.snapshot, hSent, rest.known⟩
  | later hValid hLoaded rest => cases hLoad.symm.trans hLoaded

end Session

/-- A snapshot is loaded at most once, and never half-way. Whatever the store answers to the calls
on a new snapshot, there is first a time in which no listing could be read, and the snapshot is not
loaded. Then one call may load it, and from then on it keeps what that listing said and asks only
for what it does not keep. A call without a name for its child never does anything. -/
theorem loaded_once {σ : Type} [NodeStore σ] {session : Session σ} {node : SnapshotId}
    (hNode : node.index < session.snapshots.size)
    (hLoad : (session.snapshot node).load = .unloaded) (calls : List Call) :
    ∃ failed rest, session.turns node calls = failed ++ rest ∧
      (∀ turn ∈ failed, turn.Fails node) ∧
      (rest = [] ∨ ∃ content first later, rest = first :: later ∧ first.Loads node content ∧
        ∀ turn ∈ later, turn.Keeps node content) := by
  -- The calls fail until one loads the snapshot; the rest is settled by `keeps_turns`.
  induction calls generalizing session with
  | nil => exact ⟨[], [], rfl, List.forall_mem_nil _, Or.inl rfl⟩
  | cons call calls ih =>
      have hNext : node.index < (session.turn node call).after.snapshots.size :=
        Session.lt_turn hNode call
      rcases Session.fails_or_loads_call hNode hLoad call with hFails | ⟨content, hLoads⟩
      · obtain ⟨failed, rest, hTurns, hFailed, hRest⟩ :=
          ih hNext ((congrArg Snapshot.load hFails.left).trans hLoad)
        refine ⟨_ :: failed, rest, ?_, List.forall_mem_cons.mpr ⟨hFails, hFailed⟩, hRest⟩
        rw [Session.turns, hTurns, List.cons_append]
      · have hKeeps := Session.keeps_turns hNext (congrArg Snapshot.load hLoads.left) calls
        exact ⟨[], _, rfl, List.forall_mem_nil _, Or.inr ⟨content, _, _, rfl, hLoads, hKeeps⟩⟩

theorem Listing.ofString_empty (limit : Nat) :
    ofString limit (Json.object []).text =
      .ok { properties := [], children := [], childCount := 0 } := by
  rw [ofString, Json.ofString_text]
  rfl

/-- A store that cannot be reached at first, and has an empty root. -/
def ScriptedStore.flaky : ScriptedStore where
  latest := ⟨"r1"⟩
  entries := [⟨Path.root, none, [.error (.unavailable "down"), .ok (Json.object []).text]⟩]
  existence := []

/-- Of three calls on the flaky store the first fails, the second loads the root and the third finds
it loaded. -/
theorem loaded_once_sample :
    let session := (Session.add { store := ScriptedStore.flaky, config := {} } Path.root ⟨"r1"⟩).2
    ∃ failed first later content,
      session.turns ⟨0⟩ [.childCount, .childCount, .childCount] = [failed, first, later] ∧
        failed.Fails ⟨0⟩ ∧ first.Loads ⟨0⟩ content ∧ later.Keeps ⟨0⟩ content := by
  intro session
  have hNode : (⟨0⟩ : SnapshotId).index < session.snapshots.size := by decide
  have hLoad : (session.snapshot ⟨0⟩).load = .unloaded := rfl
  have hDown : session.loadAnswer ⟨0⟩ = .error (.store (.unavailable "down")) := rfl
  have hUp : (session.turn ⟨0⟩ .childCount).after.loadAnswer ⟨0⟩ =
      .ok { properties := [], children := [], childCount := 0 } :=
    congrArg (Except.mapError ReadError.listing) (Listing.ofString_empty _)
  obtain ⟨failed, rest, hTurns, hFailed, hRest⟩ :=
    loaded_once hNode hLoad [.childCount, .childCount, .childCount]
  match failed, rest, hTurns with
  | [], _, rfl =>
      rcases hRest with hEmpty | ⟨content, first, later, hSplit, hLoads, -⟩
      · cases hEmpty
      · cases hSplit
        cases hDown.symm.trans hLoads.attempt
  | [_], _, rfl =>
      rcases hRest with hEmpty | ⟨content, first, later, hSplit, hLoads, hLater⟩
      · cases hEmpty
      · cases hSplit
        exact ⟨_, _, _, content, rfl, hFailed _ List.mem_cons_self, hLoads,
          hLater _ List.mem_cons_self⟩
  | _ :: second :: _, _, hTurns =>
      have hSecond := (List.cons.inj (List.cons.inj hTurns).2).1
      obtain ⟨error, hError, -⟩ := (hFailed second (by simp)).asked (hSecond ▸ trivial)
      rw [← hSecond] at hError
      cases hUp.symm.trans hError

end PinnedTree
