import PinnedTree.Proofs.Session.Requests
import PinnedTree.Session.FirstRead

/-! The steps of a first reader. Only the holder of the lock changes how far the snapshot has got,
so what a caller can rely on at its place depends on the lock alone. -/
namespace PinnedTree

namespace Session

variable {σ : Type} {session : Session σ} {node : SnapshotId}

/-! ### Steps on the session -/

theorem setUnlessLoaded_of_loaded {content : Content} {load : Load}
    (h : (session.snapshot node).load = .loaded content) :
    session.setUnlessLoaded node load = session := by
  rw [setUnlessLoaded, h]

theorem setUnlessLoaded_of_not_loaded {load : Load}
    (h : (session.snapshot node).load.content? = none) :
    session.setUnlessLoaded node load = session.setLoad node load := by
  rw [setUnlessLoaded]
  split
  · rename_i content hLoad
    rw [hLoad] at h
    cases h
  · rfl

theorem asks_setUnlessLoaded (session : Session σ) (node : SnapshotId) (load : Load) :
    Asks node session (session.setUnlessLoaded node load) [] := by
  rw [setUnlessLoaded]
  split
  · exact .refl node session
  · exact asks_setLoad session node load

/-- Putting the question asks for the listing, and nothing else. -/
theorem asks_sendLoad (session : Session σ) (node : SnapshotId) :
    Asks node session (session.sendLoad node)
      [.list (loadRequest session.config (session.snapshot node))
        (session.snapshot node).load] :=
  .of_append Array.toList_push rfl Array.append_empty.symm nofun

variable [NodeStore σ]

/-- What is received adds snapshots of the children, and nothing else. -/
theorem asks_receiveLoad (session : Session σ) {node : SnapshotId}
    (hNode : node.index < session.snapshots.size) :
    Asks node session (session.receiveLoad node).2 [] ∧
      (session.receiveLoad node).2.snapshot node = session.snapshot node := by
  have hStore (store : σ) : Asks node session { session with store } [] :=
    .of_append (List.append_nil _).symm rfl Array.append_empty.symm nofun
  simp only [receiveLoad]
  split
  · exact ⟨hStore _, rfl⟩
  · rename_i listing hListing
    refine ⟨((hStore _).trans (asks_addChildren _ node _ _ listing.children) hNode).record _, ?_⟩
    exact snapshot_eq_of_append hNode (snapshots_addChildren _ _ listing.children _)

end Session

namespace FirstRead

variable {σ ι : Type}

namespace Event

def isSent : Event → Bool
  | sent => true
  | _ => false

def isAnswered : Event → Bool
  | answered _ => true
  | _ => false

def isPublished : Event → Bool
  | published _ => true
  | _ => false

end Event

namespace Place

def holding : Place → Bool
  | locked | asking | listening | listed _ | leaving _ => true
  | _ => false

def result? : Place → Option (Except ReadError Content)
  | leaving result | returning result | returned result => some result
  | _ => none

/-- What a caller can rely on here about the snapshot. -/
def Fits : Place → Load → Prop
  | locked, load => load ≠ .unloaded
  | asking, load | listening, load | listed _, load | leaving (.error _), load => load = .loading
  | leaving (.ok content), load | returning (.ok content), load | returned (.ok content), load =>
    load = .loaded content
  | _, _ => True

/-- The listings that have been asked for and have not led to a publication. -/
def owes : Place → Nat
  | listening | listed _ | leaving (.error _) | returning (.error _) | returned (.error _) => 1
  | _ => 0

/-- The listings that have not been answered. -/
def awaits : Place → Nat
  | listening => 1
  | _ => 0

/-- The publications that are possible at most. -/
def mayHavePublished : Place → Nat
  | leaving (.ok _) | returning (.ok _) | returned (.ok _) => 1
  | _ => 0

def failed : Place → Bool
  | returned (.error _) => true
  | _ => false

/-- A caller without the lock relies only on what has been published. -/
theorem Fits.mono {place : Place} {before after : Load} (h : place.Fits before)
    (hFree : place.holding = false)
    (hKept : ∀ content, before = .loaded content → after = .loaded content) :
    place.Fits after := by
  cases place with
  | starting | waiting => trivial
  | locked | asking | listening | listed content | leaving result => cases hFree
  | returning result | returned result =>
      cases result with
      | error error => trivial
      | ok content => exact hKept content h

end Place

section Acts

variable [NodeStore σ] {node : SnapshotId} {i j : ι} {place next : Place}
  {shared after : Shared σ ι}
  {event : Event} {trace : List (ι × Event)}

/-! ### What one step does -/

/-- The only question that is ever put is that for the listing. -/
theorem Acts.asks (acts : Acts node i place shared event next after)
    (hNode : node.index < shared.session.snapshots.size) :
    Session.Asks node shared.session after.session
      (if event.isSent then
        [.list (Session.loadRequest shared.session.config (shared.session.snapshot node))
          (shared.load node)]
      else []) := by
  have hReceived := shared.session.asks_receiveLoad hNode
  cases acts with
  | acquire | publish | release => exact Session.asks_setUnlessLoaded _ node _
  | send => exact Session.asks_sendLoad _ node
  | fail hAnswer | list hAnswer =>
      rw [hAnswer] at hReceived
      exact hReceived.1
  | _ => exact .refl node _

/-- What is received does not change how far the snapshot has got. -/
theorem load_received {result : Except ReadError Content} {received : Session σ}
    (hNode : node.index < shared.session.snapshots.size)
    (h : shared.session.receiveLoad node = (result, received)) :
    Shared.load { shared with session := received } node = shared.load node := by
  have hReceived := shared.session.asks_receiveLoad hNode
  rw [h] at hReceived
  exact congrArg Snapshot.load hReceived.2

omit [NodeStore σ] in
theorem load_setUnlessLoaded {session : Session σ} {load : Load} {holder : Option ι}
    (hNode : node.index < session.snapshots.size)
    (h : (session.snapshot node).load.content? = none) :
    Shared.load { session := session.setUnlessLoaded node load, holder } node = load := by
  rw [Session.setUnlessLoaded_of_not_loaded h]
  exact congrArg Snapshot.load (Session.snapshot_setLoad_self hNode load)

omit [NodeStore σ] in
theorem load_setUnlessLoaded_of_loaded {session : Session σ} {load : Load} {holder : Option ι}
    {content : Content} (h : (session.snapshot node).load = .loaded content) :
    Shared.load { session := session.setUnlessLoaded node load, holder } node =
      .loaded content := by
  rw [Session.setUnlessLoaded_of_loaded h]
  exact h

/-- What has been published stays. -/
theorem Acts.loaded (acts : Acts node i place shared event next after)
    (hNode : node.index < shared.session.snapshots.size) {content : Content}
    (h : shared.load node = .loaded content) : after.load node = .loaded content := by
  cases acts with
  | acquire | publish | release => exact load_setUnlessLoaded_of_loaded h
  | send => exact h
  | fail hAnswer | list hAnswer => exact (load_received hNode hAnswer).trans h
  | _ => exact h

/-- Only who holds the lock, or takes it when it is free, changes how far the snapshot has got. -/
theorem Acts.load_eq (acts : Acts node i place shared event next after)
    (hFree : place.holding = false) (hHeld : shared.holder ≠ none) :
    after.load node = shared.load node := by
  cases acts with
  | acquire hHolder => exact absurd hHolder hHeld
  | send | fail | list | publish | release => cases hFree
  | _ => rfl

/-- Nobody takes or gives back the lock for another. -/
theorem Acts.holder_eq_iff (acts : Acts node i place shared event next after)
    (hLock : place.holding = true ↔ shared.holder = some i) (hOther : j ≠ i) :
    after.holder = some j ↔ shared.holder = some j := by
  cases acts with
  | acquire hFree => simp [hFree, hOther.symm]
  | release =>
      rw [hLock.mp rfl]
      simp [hOther.symm]
  | _ => exact Iff.rfl

/-! ### What the caller that acts knows -/

/-- After a step, its caller holds the lock exactly if it is at a place where it does. -/
theorem Acts.lock (acts : Acts node i place shared event next after)
    (h : place.holding = true ↔ shared.holder = some i) :
    next.holding = true ↔ after.holder = some i := by
  cases acts with
  | found | missed | finish => exact h
  | acquire => exact iff_of_true rfl rfl
  | release => exact iff_of_false Bool.false_ne_true (Option.some_ne_none i).symm
  | _ => exact iff_of_true rfl (h.mp rfl)

/-- After a step, a caller can rely on what its next place says. -/
theorem Acts.fits (acts : Acts node i place shared event next after)
    (hNode : node.index < shared.session.snapshots.size) (h : place.Fits (shared.load node)) :
    next.Fits (after.load node) := by
  cases acts with
  | missed => trivial
  | found hLoad | refound hLoad | adopt hLoad => exact hLoad
  | acquire =>
      cases hLoad : (shared.load node).content? with
      | none =>
          rw [load_setUnlessLoaded hNode hLoad]
          exact nofun
      | some content =>
          rw [load_setUnlessLoaded_of_loaded (Load.eq_of_content? hLoad)]
          exact nofun
  | remissed hLoad =>
      cases hState : shared.load node with
      | unloaded => exact absurd hState h
      | loading => rfl
      | loaded content =>
          rw [hState] at hLoad
          cases hLoad
  | send => exact h
  | fail hAnswer | list hAnswer => exact (load_received hNode hAnswer).trans h
  | publish hLoad => exact load_setUnlessLoaded hNode hLoad
  | @release shared result =>
      cases result with
      | error error => trivial
      | ok content => exact load_setUnlessLoaded_of_loaded h
  | @finish shared result => cases result <;> exact h

/-- An error is known to a caller only from its own listing. -/
theorem Acts.failed (acts : Acts node i place shared event next after)
    (h : ∀ error, place.result? = some (.error error) → (i, .answered (.error error)) ∈ trace) :
    ∀ error, next.result? = some (.error error) →
      (i, .answered (.error error)) ∈ trace ++ [(i, event)] := by
  intro error hError
  cases acts with
  | fail hAnswer =>
      cases hError
      exact List.mem_append_right _ List.mem_cons_self
  | release | finish => exact List.mem_append_left _ (h error hError)
  | _ => cases hError

/-- A listing that is asked for is owed until something is published. A caller that is to publish
finds nothing published, as nobody else has had the lock. -/
theorem Acts.balance (acts : Acts node i place shared event next after)
    (h : place.Fits (shared.load node)) :
    next.owes + event.isPublished.toNat = place.owes + event.isSent.toNat ∧
      place.mayHavePublished + event.isPublished.toNat ≤ next.mayHavePublished ∧
      place.awaits + event.isSent.toNat = next.awaits + event.isAnswered.toNat := by
  cases acts with
  | adopt hLoad => cases h.symm.trans hLoad
  | @release shared result | @finish shared result =>
      cases result <;> exact ⟨rfl, Nat.le_refl _, rfl⟩
  | found | refound => exact ⟨rfl, Nat.zero_le _, rfl⟩
  | _ => exact ⟨rfl, Nat.le_refl _, rfl⟩

/-- A caller that asks has said that it is loading. -/
theorem Acts.load_of_sent (acts : Acts node i place shared event next after)
    (h : place.Fits (shared.load node)) (hSent : event.isSent = true) :
    shared.load node = .loading := by
  cases acts with
  | send => exact h
  | _ => cases hSent

/-- What is published changes by a publication only, and there is nothing before that. -/
theorem Acts.publication (acts : Acts node i place shared event next after)
    (hNode : node.index < shared.session.snapshots.size) :
    ((after.load node).content? = (shared.load node).content? ∧ event.isPublished = false) ∨
      ∃ content, event = .published content ∧ (shared.load node).content? = none ∧
        after.load node = .loaded content := by
  have hSet (load : Load) (holder : Option ι) (hLoad : load.content? = none) :
      (Shared.load { session := shared.session.setUnlessLoaded node load, holder }
        node).content? = (shared.load node).content? := by
    cases hState : (shared.load node).content? with
    | none => rw [load_setUnlessLoaded hNode hState, hLoad]
    | some content =>
        rw [load_setUnlessLoaded_of_loaded (Load.eq_of_content? hState)]
        rfl
  cases acts with
  | publish hLoad => exact Or.inr ⟨_, rfl, hLoad, load_setUnlessLoaded hNode hLoad⟩
  | acquire | release => exact Or.inl ⟨hSet _ _ rfl, rfl⟩
  | fail hAnswer | list hAnswer =>
      exact Or.inl ⟨congrArg Load.content? (load_received hNode hAnswer), rfl⟩
  | _ => exact Or.inl ⟨rfl, rfl⟩

end Acts

end FirstRead

end PinnedTree
