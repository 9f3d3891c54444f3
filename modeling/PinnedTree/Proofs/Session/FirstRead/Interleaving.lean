import Mathlib.Algebra.BigOperators.Group.Finset.Piecewise
import Mathlib.Data.Fintype.Card
import PinnedTree.Proofs.Session.FirstRead.Alone
import PinnedTree.Proofs.Session.Once

/-! Any number of first readers of one snapshot. However their steps interleave, what the holder of
the lock knows about the snapshot stays true until it lets go, and all listings but one have failed.
-/
namespace PinnedTree

namespace FirstRead

variable {σ ι : Type}

/-! ### What stays true of the session -/

section Common

variable {node : SnapshotId} {first : Session σ} {trace : List (ι × Event)} {shared : Shared σ ι}

/-- What is true of the shared state all the time. -/
structure Common (node : SnapshotId) (first : Session σ) (trace : List (ι × Event))
    (shared : Shared σ ι) : Prop where
  size : node.index < shared.session.snapshots.size
  request : Session.loadRequest shared.session.config (shared.session.snapshot node) =
    Session.loadRequest first.config (first.snapshot node)
  queries : shared.session.queries.toList = first.queries.toList ++
    List.replicate (trace.countP fun entry => entry.2.isSent) (first.loadQuery node)
  published : (trace.countP fun entry => entry.2.isPublished) =
    (shared.load node).content?.toList.length
  known : ∀ content, shared.load node = .loaded content → ∃ i, (i, .published content) ∈ trace

/-- There is at most one publication. -/
theorem Common.published_le (h : Common node first trace shared) :
    (trace.countP fun entry => entry.2.isPublished) ≤ 1 := by
  rw [h.published]
  cases (shared.load node).content? with
  | none => exact Nat.zero_le 1
  | some content => exact Nat.le_refl 1

/-- A step of any caller preserves what is true of the shared state. -/
theorem Common.acts [NodeStore σ] {i : ι} {place next : Place} {after : Shared σ ι} {event : Event}
    (h : Common node first trace shared) (acts : Acts node i place shared event next after)
    (hFits : place.Fits (shared.load node)) : Common node first (trace ++ [(i, event)]) after := by
  have hAsks := acts.asks h.size
  obtain ⟨hPath, hRevision⟩ := (hAsks.grows.shows (Session.shows_of_lt h.size)).snapshot
  refine ⟨Nat.lt_of_lt_of_le h.size hAsks.size, ?_, ?_, ?_, ?_⟩
  · rw [← h.request, Session.loadRequest, Session.loadRequest, hPath, hRevision, hAsks.grows.config]
  · rw [hAsks.queries, h.queries, List.countP_append, List.countP_singleton, List.append_assoc,
      h.request]
    cases hSent : event.isSent with
    | false => simp
    | true =>
        rw [acts.load_of_sent hFits hSent, List.replicate_add]
        rfl
  · rw [List.countP_append, List.countP_singleton, h.published]
    rcases acts.publication h.size with ⟨hSame, hEvent⟩ | ⟨content, rfl, hNone, hLoaded⟩
    · rw [hSame, hEvent]
      rfl
    · rw [hNone, hLoaded]
      rfl
  · intro content hContent
    rcases acts.publication h.size with ⟨hSame, -⟩ | ⟨other, rfl, -, hLoaded⟩
    · rw [hContent] at hSame
      obtain ⟨caller, hCaller⟩ := h.known content (Load.eq_of_content? hSame.symm)
      exact ⟨caller, List.mem_append_left _ hCaller⟩
    · cases hLoaded.symm.trans hContent
      exact ⟨i, List.mem_append_right _ List.mem_cons_self⟩

end Common

/-! ### What stays true of a caller -/

variable [DecidableEq ι]

/-- How often a caller has done a kind of step. -/
def tally (kind : Event → Bool) (i : ι) (trace : List (ι × Event)) : Nat :=
  trace.countP fun entry => decide (entry.1 = i) && kind entry.2

theorem tally_self (kind : Event → Bool) (i : ι) (trace : List (ι × Event)) (event : Event) :
    tally kind i (trace ++ [(i, event)]) = tally kind i trace + (kind event).toNat := by
  rw [tally, tally, List.countP_append, List.countP_singleton]
  cases kind event <;> simp

theorem tally_other (kind : Event → Bool) {i j : ι} (h : j ≠ i) (trace : List (ι × Event))
    (event : Event) : tally kind j (trace ++ [(i, event)]) = tally kind j trace := by
  rw [tally, tally, List.countP_append, List.countP_singleton]
  simp [h.symm]

/-- Together the callers have done all steps. -/
theorem sum_tally [Fintype ι] (kind : Event → Bool) (trace : List (ι × Event)) :
    ∑ i, tally kind i trace = trace.countP fun entry => kind entry.2 := by
  induction trace with
  | nil => simp [tally]
  | cons entry rest ih =>
      simp only [tally, List.countP_cons, Finset.sum_add_distrib] at ih ⊢
      rw [ih]
      cases kind entry.2 <;> simp [Finset.sum_ite_eq]

/-- What is true of a caller all the time. -/
structure Local (node : SnapshotId) (trace : List (ι × Event)) (shared : Shared σ ι) (i : ι)
    (place : Place) : Prop where
  lock : place.holding = true ↔ shared.holder = some i
  load : place.Fits (shared.load node)
  failed : ∀ error, place.result? = some (.error error) → (i, .answered (.error error)) ∈ trace
  sent : tally Event.isSent i trace = place.owes + tally Event.isPublished i trace
  published : tally Event.isPublished i trace ≤ place.mayHavePublished
  answered : tally Event.isSent i trace = tally Event.isAnswered i trace + place.awaits

structure Sound (node : SnapshotId) (first : Session σ) (trace : List (ι × Event))
    (state : State σ ι) : Prop where
  common : Common node first trace state.shared
  callers : ∀ i, Local node trace state.shared i (state.place i)

/-! ### What a run amounts to -/

section Results

variable {node : SnapshotId} {first : Session σ} {trace : List (ι × Event)} {state : State σ ι}

/-- Who returns a content returns what is published. -/
theorem Sound.returned_ok (h : Sound node first trace state) {i : ι} {content : Content}
    (hPlace : state.place i = .returned (.ok content)) :
    state.shared.load node = .loaded content := by
  have hFits := (h.callers i).load
  rw [hPlace] at hFits
  exact hFits

/-- Who returns an error has asked once, and that is what the answer was. -/
theorem Sound.returned_error (h : Sound node first trace state) {i : ι} {error : ReadError}
    (hPlace : state.place i = .returned (.error error)) :
    tally Event.isSent i trace = 1 ∧ (i, .answered (.error error)) ∈ trace := by
  have hCaller := h.callers i
  rw [hPlace] at hCaller
  have hNone := Nat.le_zero.mp hCaller.published
  refine ⟨?_, hCaller.failed error rfl⟩
  rw [hCaller.sent, hNone]
  rfl

variable [Fintype ι]

/-- When a caller is about to ask, it has the lock, nothing is published, and nothing that was asked
for is left to be answered. -/
theorem Sound.asking (h : Sound node first trace state) {i : ι} (hPlace : state.place i = .asking) :
    state.shared.holder = some i ∧ (trace.countP fun entry => entry.2.isPublished) = 0 ∧
      (trace.countP fun entry => entry.2.isSent) =
        trace.countP fun entry => entry.2.isAnswered := by
  have hCaller := h.callers i
  rw [hPlace] at hCaller
  have hHolder := hCaller.lock.mp rfl
  have hIdle : ∀ j, (state.place j).awaits = 0 := by
    intro j
    cases hOther : state.place j with
    | listening =>
        have hLock := (h.callers j).lock
        rw [hOther] at hLock
        cases (hLock.mp rfl).symm.trans hHolder
        cases hPlace.symm.trans hOther
    | _ => rfl
  refine ⟨hHolder, ?_, ?_⟩
  · rw [h.common.published, show state.shared.load node = .loading from hCaller.load]
    rfl
  · calc
      (trace.countP fun entry => entry.2.isSent)
      _ = ∑ j, tally Event.isSent j trace := (sum_tally _ trace).symm
      _ = ∑ j, tally Event.isAnswered j trace := by
        apply Finset.sum_congr rfl
        intro j _
        rw [(h.callers j).answered, hIdle, Nat.add_zero]
      _ = trace.countP fun entry => entry.2.isAnswered := sum_tally _ trace

/-- When all have returned, only the errors and the publication are left of the listings. -/
theorem Sound.all_returned (h : Sound node first trace state)
    (hReturned : ∀ i, ∃ result, state.place i = .returned result) :
    (trace.countP fun entry => entry.2.isSent) =
      (Finset.univ.filter fun i => (state.place i).failed).card +
        trace.countP (fun entry => entry.2.isPublished) := by
  have hOwes : ∀ i, (state.place i).owes = if (state.place i).failed then 1 else 0 := by
    intro i
    obtain ⟨result, hResult⟩ := hReturned i
    rw [hResult]
    cases result <;> rfl
  calc
    (trace.countP fun entry => entry.2.isSent)
    _ = ∑ i, tally Event.isSent i trace := (sum_tally _ trace).symm
    _ = ∑ i, ((if (state.place i).failed then 1 else 0) + tally Event.isPublished i trace) := by
      apply Finset.sum_congr rfl
      intro i _
      rw [(h.callers i).sent, hOwes]
    _ = (Finset.univ.filter fun i => (state.place i).failed).card +
          trace.countP (fun entry => entry.2.isPublished) := by
      rw [Finset.sum_add_distrib, sum_tally, Finset.card_filter]

/-- If no listing fails, the first of some callers loads the snapshot for all. -/
theorem Sound.sent_eq_one [Nonempty ι] (h : Sound node first trace state)
    (hReturned : ∀ i, ∃ result, state.place i = .returned result)
    (hWell : ∀ i error, (i, .answered (.error error)) ∉ trace) :
    (trace.countP fun entry => entry.2.isSent) = 1 := by
  have hOk : ∀ i, ∃ content, state.place i = .returned (.ok content) := by
    intro i
    obtain ⟨result, hResult⟩ := hReturned i
    cases result with
    | error error => exact absurd (h.returned_error hResult).2 (hWell i error)
    | ok content => exact ⟨content, hResult⟩
  have hNoFailure : (Finset.univ.filter fun i => (state.place i).failed) = ∅ := by
    apply Finset.filter_eq_empty_iff.mpr
    intro i _
    obtain ⟨content, hContent⟩ := hOk i
    rw [hContent]
    exact Bool.false_ne_true
  obtain ⟨content, hContent⟩ := hOk (Classical.arbitrary ι)
  rw [h.all_returned hReturned, hNoFailure, h.common.published, h.returned_ok hContent]
  rfl

end Results

variable [NodeStore σ]

section Local

variable {node : SnapshotId} {i j : ι} {place next : Place} {shared after : Shared σ ι}
  {event : Event} {trace : List (ι × Event)}

/-- A step of one caller leaves what is known of the others. -/
theorem Local.other {other : Place} (h : Local node trace shared j other) (hOther : j ≠ i)
    (acts : Acts node i place shared event next after)
    (hNode : node.index < shared.session.snapshots.size)
    (hActing : Local node trace shared i place) :
    Local node (trace ++ [(i, event)]) after j other := by
  refine ⟨?_, ?_, ?_, ?_, ?_, ?_⟩
  · rw [acts.holder_eq_iff hActing.lock hOther]
    exact h.lock
  · cases hHolding : other.holding with
    | false => exact h.load.mono hHolding fun content hLoaded => acts.loaded hNode hLoaded
    | true =>
        have hHolder := h.lock.mp hHolding
        have hFree : place.holding = false := by
          rw [← Bool.not_eq_true, hActing.lock, hHolder]
          exact fun hSame => hOther (Option.some.inj hSame)
        rw [acts.load_eq hFree (hHolder ▸ Option.some_ne_none j)]
        exact h.load
  · exact fun error hError => List.mem_append_left _ (h.failed error hError)
  · rw [tally_other _ hOther, tally_other _ hOther]
    exact h.sent
  · rw [tally_other _ hOther]
    exact h.published
  · rw [tally_other _ hOther, tally_other _ hOther]
    exact h.answered

/-- A step preserves what is true of the caller that takes it. -/
theorem Local.acting (h : Local node trace shared i place)
    (acts : Acts node i place shared event next after)
    (hNode : node.index < shared.session.snapshots.size) :
    Local node (trace ++ [(i, event)]) after i next := by
  obtain ⟨hOwes, hMay, hAwaits⟩ := acts.balance h.load
  have hSent := h.sent
  have hPublished := h.published
  have hAnswered := h.answered
  refine ⟨acts.lock h.lock, acts.fits hNode h.load, acts.failed h.failed, ?_, ?_, ?_⟩
  · rw [tally_self, tally_self]
    omega
  · rw [tally_self]
    omega
  · rw [tally_self, tally_self]
    omega

end Local

/-! ### Runs -/

variable {node : SnapshotId} {first : Session σ} {trace : List (ι × Event)}

/-- Each step preserves what is true of the shared state and of all callers. -/
theorem Sound.step {state next : State σ ι} {entry : ι × Event} (h : Sound node first trace state)
    (step : Step node state entry next) : Sound node first (trace ++ [entry]) next := by
  cases step with | @act i event place shared acts =>
  have hNode := h.common.size
  have hActing := h.callers i
  refine ⟨h.common.acts acts hActing.load, ?_⟩
  intro j
  dsimp only
  by_cases hSame : j = i
  · subst hSame
    rw [Function.update_self]
    exact hActing.acting acts hNode
  · rw [Function.update_of_ne hSame]
    exact (h.callers j).other hSame acts hNode hActing

/-- Only a caller that is about to ask puts the question. -/
theorem Step.asking_of_sent {state next : State σ ι} {i : ι}
    (step : Step node state (i, .sent) next) : state.place i = .asking := by
  cases step with | act acts =>
  generalize state.place i = place at acts
  cases acts
  rfl

/-- What is true of the shared state and of all callers is true after any run. At the start nobody
knows or owes anything. -/
theorem Run.sound (hNode : node.index < first.snapshots.size)
    (hLoad : (first.snapshot node).load = .unloaded) {state : State σ ι}
    (run : Run node (.start first) trace state) : Sound node first trace state := by
  induction run with
  | refl =>
      refine ⟨⟨hNode, rfl, (List.append_nil _).symm, ?_, ?_⟩, fun i => ?_⟩
      · rw [State.start, Shared.load, hLoad]
        rfl
      · intro content hContent
        cases hLoad.symm.trans hContent
      · exact ⟨iff_of_false Bool.false_ne_true nofun, trivial, nofun, rfl, Nat.le_refl _, rfl⟩
  | tail prior last ih => exact ih.step last

/-- A run up to the step that made an entry. -/
theorem Run.split {start : State σ ι} {before rest : List (ι × Event)} {entry : ι × Event}
    {state : State σ ι} (run : Run node start trace state)
    (hTrace : trace = before ++ entry :: rest) :
    ∃ middle next, Run node start before middle ∧ Step node middle entry next := by
  induction run generalizing rest with
  | refl =>
      have hSome := List.append_ne_nil_of_right_ne_nil before (List.cons_ne_nil entry rest)
      exact absurd hTrace.symm hSome
  | @tail trace state next entry prior last ih =>
      rcases rest.eq_nil_or_concat with rfl | ⟨rest, final, rfl⟩
      · obtain ⟨rfl, hEntry⟩ := List.append_inj' hTrace rfl
        cases hEntry
        exact ⟨state, next, prior, last⟩
      · rw [List.concat_eq_append, ← List.cons_append, ← List.append_assoc] at hTrace
        exact ih (List.append_inj' hTrace rfl).1

end FirstRead

open FirstRead in
/-- Of any number of first readers, however their steps interleave, one loads the snapshot. At most
one content is published. A listing is asked for only by the holder of the lock, while there is
nothing published and all listings before have been answered. Who gets a content gets the published
one, and who gets an error gets that of its own listing. In the end, each listing has led to an
error or to the publication. -/
theorem first_read {σ ι : Type} [NodeStore σ] [DecidableEq ι] [Fintype ι] {node : SnapshotId}
    {first : Session σ} (hNode : node.index < first.snapshots.size)
    (hLoad : (first.snapshot node).load = .unloaded) {trace : List (ι × FirstRead.Event)}
    {state : State σ ι} (hRun : Run node (.start first) trace state) :
    (trace.countP fun entry => entry.2.isPublished) ≤ 1 ∧
    (∀ before i rest, trace = before ++ (i, .sent) :: rest →
      (∃ middle : State σ ι,
        Run node (.start first) before middle ∧ middle.shared.holder = some i) ∧
      (before.countP fun entry => entry.2.isPublished) = 0 ∧
      (before.countP fun entry => entry.2.isSent) = before.countP fun entry => entry.2.isAnswered) ∧
    (∀ i content, state.place i = .returned (.ok content) →
      state.shared.load node = .loaded content ∧ ∃ j, (j, .published content) ∈ trace) ∧
    (∀ i error, state.place i = .returned (.error error) →
      tally Event.isSent i trace = 1 ∧ (i, .answered (.error error)) ∈ trace) ∧
    state.shared.session.queries.toList = first.queries.toList ++
      List.replicate (trace.countP fun entry => entry.2.isSent) (first.loadQuery node) ∧
    ((∀ i, ∃ result, state.place i = .returned result) →
      (trace.countP fun entry => entry.2.isSent) =
          (Finset.univ.filter fun i => (state.place i).failed).card +
            trace.countP (fun entry => entry.2.isPublished) ∧
      (Nonempty ι → (∀ i error, (i, .answered (.error error)) ∉ trace) →
        (trace.countP fun entry => entry.2.isSent) = 1)) := by
  have hSound := hRun.sound hNode hLoad
  refine ⟨hSound.common.published_le, ?_, ?_, ?_, hSound.common.queries, ?_⟩
  · intro before i rest hTrace
    obtain ⟨middle, next, hBefore, hStep⟩ := hRun.split hTrace
    obtain ⟨hHolder, hUnpublished, hAnswered⟩ :=
      (hBefore.sound hNode hLoad).asking hStep.asking_of_sent
    exact ⟨⟨middle, hBefore, hHolder⟩, hUnpublished, hAnswered⟩
  · intro i content hPlace
    have hPublished := hSound.returned_ok hPlace
    exact ⟨hPublished, hSound.common.known content hPublished⟩
  · exact fun i error hPlace => hSound.returned_error hPlace
  · intro hReturned
    exact ⟨hSound.all_returned hReturned, fun hCallers hWell => hSound.sent_eq_one hReturned hWell⟩

open FirstRead in
/-- Two callers of a store that is down for the first ask twice, and the second of them loads the
root. -/
theorem first_read_sample :
    let first := (Session.add { store := ScriptedStore.flaky, config := {} } Path.root ⟨"r1"⟩).2
    ∃ (trace : List (Bool × FirstRead.Event)) (state : State ScriptedStore Bool) (error : ReadError)
      (content : Content), Run ⟨0⟩ (.start first) trace state ∧
        state.place false = .returned (.error error) ∧
        state.place true = .returned (.ok content) ∧
        (trace.countP fun entry => entry.2.isSent) = 2 := by
  intro first
  have hNode : 0 < first.snapshots.size := by decide
  have hUp : (first.content ⟨0⟩).2.loadAnswer ⟨0⟩ =
      .ok { properties := [], children := [], childCount := 0 } :=
    congrArg (Except.mapError ReadError.listing) (Listing.ofString_empty _)
  have hKept : (⟨0⟩ : SnapshotId).index < (first.content ⟨0⟩).2.snapshots.size := by decide
  have hUnloaded : ((first.content ⟨0⟩).2.snapshot ⟨0⟩).load.content? = none := rfl
  obtain ⟨content, last, hLoads⟩ := Session.getsLoaded hKept hUnloaded hUp
  obtain ⟨firstTrace, hFirst⟩ :=
    run_alone (.refl : Run ⟨0⟩ (.start first) [] (.start first)) hNode (i := false) rfl
  obtain ⟨trace, hRun⟩ := run_alone hFirst hKept (i := true) rfl
  rw [hLoads.answer] at hRun
  refine ⟨trace, _, _, content, hRun, rfl, rfl, ?_⟩
  obtain ⟨hOnce, -, hOk, -, -, hAll⟩ := first_read hNode rfl hRun
  obtain ⟨-, caller, hCaller⟩ := hOk true content rfl
  have hPublished : 0 < trace.countP fun entry => entry.2.isPublished :=
    List.countP_pos_iff.mpr ⟨_, hCaller, rfl⟩
  obtain ⟨hSent, -⟩ := hAll fun i => by cases i <;> exact ⟨_, rfl⟩
  rw [hSent, Nat.le_antisymm hOnce hPublished]
  rfl

end PinnedTree
