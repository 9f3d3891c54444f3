import PinnedTree.Proofs.Session.FirstRead.Steps

/-! A first reader that nobody gets in the way of. It reads what a call on the snapshot reads, and
leaves the session as that does. -/
namespace PinnedTree

namespace Session

variable {σ : Type} [NodeStore σ] {session : Session σ} {node : SnapshotId}

/-- Asking is putting the question and receiving the answer. -/
theorem askList_loadRequest (hNode : node.index < session.snapshots.size) :
    (session.setLoad node .loading).askList node
        (loadRequest session.config (session.snapshot node)) =
      let sent := (session.setLoad node .loading).sendLoad node
      let received := NodeStore.list (loadRequest sent.config (sent.snapshot node)) sent.store
      (received.1.mapError .store, { sent with store := received.2 }) := by
  have hSnapshot : (session.setLoad node .loading).snapshot node =
      { session.snapshot node with load := .loading } := snapshot_setLoad_self hNode .loading
  have hRequest : loadRequest session.config (session.snapshot node) =
      loadRequest session.config ((session.setLoad node .loading).snapshot node) := by
    rw [hSnapshot]
    rfl
  rw [hRequest]
  rfl

/-- Loading is putting the question, receiving the answer, and keeping what that says. -/
theorem materialize_eq (hNode : node.index < session.snapshots.size) :
    session.materialize node =
      match ((session.setLoad node .loading).sendLoad node).receiveLoad node with
      | (.error error, received) => (.error error, received.setLoad node .unloaded)
      | (.ok content, received) => (.ok content, received.setLoad node (.loaded content)) := by
  have hAsk := askList_loadRequest hNode
  have hSnapshot : ((session.setLoad node .loading).sendLoad node).snapshot node =
      { session.snapshot node with load := .loading } := snapshot_setLoad_self hNode .loading
  have hConfig : ((session.setLoad node .loading).sendLoad node).config = session.config := rfl
  generalize (session.setLoad node .loading).sendLoad node = sent at hAsk hSnapshot hConfig
  simp only [materialize, hAsk, receiveLoad, hSnapshot, hConfig]
  generalize Except.bind _ _ = listing
  cases listing <;> rfl

end Session

namespace FirstRead

variable {σ ι : Type} [DecidableEq ι] [NodeStore σ] {node : SnapshotId} {start : State σ ι}

/-- One more step of a caller that is the only one to move. -/
theorem Run.next {places : ι → Place} {i : ι} {place next : Place} {shared after : Shared σ ι}
    {event : Event} {trace : List (ι × Event)}
    (run : Run node start trace ⟨shared, Function.update places i place⟩)
    (acts : Acts node i place shared event next after) :
    Run node start (trace ++ [(i, event)]) ⟨after, Function.update places i next⟩ := by
  have hActs : Acts node i (Function.update places i place i) shared event next after := by
    rw [Function.update_self]
    exact acts
  have hStep : Step node ⟨shared, Function.update places i place⟩ (i, event) _ := .act hActs
  rw [Function.update_idem] at hStep
  exact .tail run hStep

/-- A caller that nobody gets in the way of returns what a call finds out about the snapshot, and
leaves the session as the call does. -/
theorem run_alone {session : Session σ} {places : ι → Place} {i : ι}
    {trace : List (ι × Event)} (run : Run node start trace ⟨{ session }, places⟩)
    (hNode : node.index < session.snapshots.size) (hPlace : places i = .starting) :
    ∃ later, Run node start later ⟨{ session := (session.content node).2 },
      Function.update places i (.returned (session.content node).1)⟩ := by
  have hPlaces : Function.update places i .starting = places := by
    rw [← hPlace, Function.update_eq_self]
  rw [← hPlaces] at run
  cases hLoad : (session.snapshot node).load.content? with
  | some content =>
      have hLoaded := Load.eq_of_content? hLoad
      rw [Session.content_of_loaded hLoaded]
      exact ⟨_, (run.next (.found hLoaded)).next .finish⟩
  | none =>
      have hAcquired := (run.next (.missed hLoad)).next (.acquire rfl)
      rw [Session.setUnlessLoaded_of_not_loaded hLoad] at hAcquired
      have hLoading : ((session.setLoad node .loading).snapshot node).load = .loading :=
        congrArg Snapshot.load (Session.snapshot_setLoad_self hNode .loading)
      have hSent := (hAcquired.next (.remissed (congrArg Load.content? hLoading))).next .send
      have hSize := Nat.lt_of_lt_of_le hNode (Session.asks_setLoad session node .loading).size
      have hReceived := ((session.setLoad node .loading).sendLoad node).asks_receiveLoad hSize
      rw [Session.content_of_not_loaded hLoad, Session.materialize_eq hNode]
      cases hAnswer : ((session.setLoad node .loading).sendLoad node).receiveLoad node with
      | mk result received =>
        rw [hAnswer] at hReceived
        have hStill : (received.snapshot node).load = .loading :=
          (congrArg Snapshot.load hReceived.2).trans hLoading
        have hUnpublished := congrArg Load.content? hStill
        cases result with
        | error error =>
            have hLeft := (hSent.next (.fail hAnswer)).next .release
            rw [Session.setUnlessLoaded_of_not_loaded hUnpublished] at hLeft
            exact ⟨_, hLeft.next .finish⟩
        | ok content =>
            have hPublished := (hSent.next (.list hAnswer)).next (.publish hUnpublished)
            rw [Session.setUnlessLoaded_of_not_loaded hUnpublished] at hPublished
            have hLoaded : ((received.setLoad node (.loaded content)).snapshot node).load =
                .loaded content := congrArg Snapshot.load (Session.snapshot_setLoad_self
              (Nat.lt_of_lt_of_le hSize hReceived.1.size) (.loaded content))
            have hLeft := hPublished.next .release
            rw [Session.setUnlessLoaded_of_loaded hLoaded] at hLeft
            exact ⟨_, hLeft.next .finish⟩

end FirstRead

end PinnedTree
