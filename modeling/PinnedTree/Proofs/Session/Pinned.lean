import PinnedTree.Proofs.Session.Memory

/-! Snapshots are pinned to their revisions. Commits between calls change no answer, because a call
asks only about the revision of its snapshot, and a revision that is known keeps its tree. -/
namespace PinnedTree

/-- Minted revisions have a tag in front, so none is the revision of a missing snapshot. -/
theorem Revision.mint_ne_default (before : Option Revision) (root : Tree) :
    mint before root ≠ default := by
  intro hSame
  have hToken := congrArg (fun revision => revision.token.toList) hSame
  rw [mint, String.toList_ofList] at hToken
  cases hToken

namespace MemoryStore

/-- A revision whose tree can no longer change. -/
def Settled (store : MemoryStore) (revision : Revision) : Prop :=
  revision = default ∨ ∃ tree, store.root? revision = some tree

/-- A commit does not change a tree that is settled. -/
theorem Settled.root?_commit {store : MemoryStore} {revision : Revision}
    (h : store.Settled revision) (root : Tree) :
    (store.commit root).2.root? revision = store.root? revision := by
  rcases h with rfl | ⟨tree, hTree⟩
  · simp only [commit]
    split
    · rfl
    · rw [root?, commits, List.find?_cons_of_neg]
      · rfl
      · exact fun hSame => Revision.mint_ne_default _ _ (of_decide_eq_true hSame)
  · rw [MemoryStore.root?_commit hTree root, hTree]

end MemoryStore

namespace Session

section Revisions

variable {σ : Type}

/-- Every snapshot has the revision that it had, or that of the snapshot that was called. -/
def Spreads (node : SnapshotId) (before after : Session σ) : Prop :=
  ∀ other, (after.snapshot other).revision = (before.snapshot other).revision ∨
    (after.snapshot other).revision = (before.snapshot node).revision

theorem Spreads.refl (node : SnapshotId) (session : Session σ) : Spreads node session session :=
  fun _ => Or.inl rfl

theorem Spreads.trans {node : SnapshotId} {first second third : Session σ}
    (left : Spreads node first second) (right : Spreads node second third) :
    Spreads node first third := by
  intro other
  have hNode : (second.snapshot node).revision = (first.snapshot node).revision :=
    (left node).elim id id
  rcases right other with hRight | hRight
  · rw [hRight]
    exact left other
  · exact Or.inr (hRight.trans hNode)

theorem spreads_setLoad (session : Session σ) (node : SnapshotId) (load : Load) :
    Spreads node session (session.setLoad node load) :=
  fun other => Or.inl (session.snapshot_setLoad node other load).2

/-- Snapshots that are added at the revision of the one that was called spread that revision. -/
theorem Spreads.of_append {node : SnapshotId} {before after : Session σ} {added : Array Snapshot}
    (hSnapshots : after.snapshots = before.snapshots ++ added)
    (hAdded : ∀ snapshot ∈ added, snapshot.revision = (before.snapshot node).revision) :
    Spreads node before after := by
  intro other
  rw [snapshot, hSnapshots, Array.getElem?_append]
  split
  · exact Or.inl rfl
  · rename_i hNew
    cases hFound : added[other.index - before.snapshots.size]? with
    | none =>
        rw [snapshot, Array.getElem?_eq_none (Nat.le_of_not_lt hNew)]
        exact Or.inl rfl
    | some found => exact Or.inr (hAdded found (Array.mem_of_getElem? hFound))

theorem spreads_addChildren (session : Session σ) (node : SnapshotId) (path : String)
    (names : List String) : Spreads node session
      (session.addChildren path (session.snapshot node).revision names).2 := by
  apply Spreads.of_append (snapshots_addChildren path _ names session)
  intro snapshot hSnapshot
  obtain ⟨name, -, rfl⟩ := List.mem_map.mp (List.mem_toArray.mp hSnapshot)
  rfl

theorem spreads_add (session : Session σ) (node : SnapshotId) (path : String) :
    Spreads node session (session.add path (session.snapshot node).revision).2 := by
  apply Spreads.of_append Array.push_eq_append
  intro snapshot hSnapshot
  rw [Array.mem_singleton.mp hSnapshot]

variable [NodeStore σ]

/-- Each step of a call spreads the revision of the snapshot that was called. -/
theorem Step.spreads {node : SnapshotId} {before after : Session σ}
    (step : Step node before after) : Spreads node before after := by
  cases step with
  | setLoad load => exact spreads_setLoad before node load
  | askList request => exact .refl node before
  | askHolds path revision => exact .refl node before
  | record event => exact .refl node before
  | add path => exact spreads_add before node path
  | addChildren path names => exact spreads_addChildren before node path names

/-- The snapshots that calls on a snapshot make are at its revision. -/
theorem Steps.spreads {node : SnapshotId} {before after : Session σ}
    (steps : Steps node before after) : Spreads node before after := by
  induction steps with
  | refl => exact .refl node before
  | tail prior last ih => exact ih.trans last.spreads

end Revisions

section Alike

/-- Two sessions that differ in their stores and in their records of events only. -/
structure Alike (left right : Session MemoryStore) : Prop where
  config : left.config = right.config
  snapshots : left.snapshots = right.snapshots
  queries : left.queries = right.queries

theorem Alike.snapshot {left right : Session MemoryStore} (h : Alike left right)
    (node : SnapshotId) : left.snapshot node = right.snapshot node := by
  rw [Session.snapshot, Session.snapshot, h.snapshots]

/-- The stores have the same tree under the revision of a snapshot. -/
def SameTree (node : SnapshotId) (left right : Session MemoryStore) : Prop :=
  left.store.root? (right.snapshot node).revision =
    right.store.root? (right.snapshot node).revision

/-- The same answer, and sessions that are alike. -/
def Agree {α : Type} (left right : α × Session MemoryStore) : Prop :=
  left.1 = right.1 ∧ Alike left.2 right.2

/-- The answer that both give, and the two sessions behind it. -/
theorem Agree.exists_eq {α : Type} {left right : α × Session MemoryStore} (h : Agree left right) :
    ∃ answer leftAfter rightAfter, left = (answer, leftAfter) ∧ right = (answer, rightAfter) ∧
      Alike leftAfter rightAfter :=
  ⟨right.1, left.2, right.2, Prod.ext h.1 rfl, rfl, h.2⟩

/-- Answers that agree still do when both are changed alike. -/
theorem Agree.map {α β : Type} {left right : α × Session MemoryStore} (h : Agree left right)
    (f : α → β) : Agree (left.map f id) (right.map f id) :=
  ⟨congrArg f h.1, h.2⟩

variable {left right : Session MemoryStore} {node : SnapshotId}

theorem Alike.record (h : Alike left right) (event : Event) :
    Alike (left.record event) (right.record event) :=
  ⟨h.config, h.snapshots, h.queries⟩

theorem Alike.add (h : Alike left right) (path : String) (revision : Revision) :
    Agree (left.add path revision) (right.add path revision) := by
  refine ⟨?_, h.config, ?_, h.queries⟩
  · rw [Session.add, Session.add, h.snapshots]
  · rw [Session.add, Session.add, h.snapshots]

theorem Alike.setLoad (h : Alike left right) (node : SnapshotId) (load : Load) :
    Alike (left.setLoad node load) (right.setLoad node load) :=
  ⟨h.config, by rw [Session.setLoad, Session.setLoad, h.snapshots], h.queries⟩

/-- Sessions that are alike get the same listing from stores with the same tree. -/
theorem Alike.askList (h : Alike left right) (hTree : SameTree node left right)
    (request : ListRequest) (hRequest : request.revision = (right.snapshot node).revision) :
    Agree (left.askList node request) (right.askList node request) := by
  have hList : left.store.list request = right.store.list request :=
    MemoryStore.list_congr request (hRequest ▸ hTree)
  refine ⟨congrArg (Except.mapError ReadError.store) hList, h.config, h.snapshots, ?_⟩
  rw [Session.askList, Session.askList]
  simp only [h.queries, h.snapshot]

/-- Sessions that are alike learn the same about a path from stores with the same tree. -/
theorem Alike.askHolds (h : Alike left right) (hTree : SameTree node left right) (path : String) :
    Agree (left.askHolds node path (right.snapshot node).revision)
      (right.askHolds node path (right.snapshot node).revision) := by
  have hHolds := MemoryStore.holds_congr hTree path
  refine ⟨congrArg (Except.mapError ReadError.store) hHolds, h.config, h.snapshots, ?_⟩
  rw [Session.askHolds, Session.askHolds]
  simp only [h.queries, h.snapshot]

theorem Alike.addChildren (h : Alike left right) (path : String) (revision : Revision)
    (names : List String) :
    Agree (left.addChildren path revision names) (right.addChildren path revision names) := by
  refine ⟨?_, h.config, ?_, h.queries⟩
  · rw [Session.addChildren, Session.addChildren, h.snapshots]
  · rw [snapshots_addChildren, snapshots_addChildren, h.snapshots]

/-- Both are loaded from the same listing. -/
theorem Alike.materialize (h : Alike left right) (hTree : SameTree node left right) :
    Agree (left.materialize node) (right.materialize node) := by
  have hRevision := (right.snapshot_setLoad node node .loading).2
  have hLoading : SameTree node (left.setLoad node .loading) (right.setLoad node .loading) := by
    rw [SameTree, hRevision]
    exact hTree
  have hAsk := (h.setLoad node .loading).askList hLoading
    (loadRequest right.config (right.snapshot node)) hRevision.symm
  have hAnswer : left.loadAnswer node = right.loadAnswer node := by
    rw [loadAnswer, loadAnswer, h.config, h.snapshot, hAsk.1]
  have hAsked : Alike (left.asked node) (right.asked node) := by
    rw [asked, asked, h.config, h.snapshot]
    exact hAsk.2
  cases hRight : right.loadAnswer node with
  | error error =>
      rw [materialize_of_error hRight, materialize_of_error (hAnswer.trans hRight)]
      exact ⟨rfl, hAsked.setLoad node .unloaded⟩
  | ok listing =>
      obtain ⟨event, hLoaded⟩ := materialize_of_ok hRight
      obtain ⟨other, hOther⟩ := materialize_of_ok (hAnswer.trans hRight)
      obtain ⟨hEntries, hAdded⟩ := hAsked.addChildren (right.snapshot node).path
        (right.snapshot node).revision listing.children
      have hKept : (left.asked node).kept (right.snapshot node) listing =
          (right.asked node).kept (right.snapshot node) listing := by
        rw [kept, kept, hEntries]
      rw [hLoaded, hOther, h.snapshot, hKept]
      have hPublished := hAdded.setLoad node
        (.loaded ((right.asked node).kept (right.snapshot node) listing))
      exact ⟨rfl, hPublished.config, hPublished.snapshots, hPublished.queries⟩

/-- Sessions that are alike load the same content. -/
theorem Alike.content (h : Alike left right) (hTree : SameTree node left right) :
    Agree (left.content node) (right.content node) := by
  rw [Session.content, Session.content, h.snapshot]
  split
  · exact ⟨rfl, h⟩
  · exact h.materialize hTree

theorem Alike.fetch (h : Alike left right) (hTree : SameTree node left right)
    (offset requested : Nat) :
    Agree (left.fetch node offset requested) (right.fetch node offset requested) := by
  obtain ⟨answer, leftAsked, rightAsked, hLeft, hRight, hAsked⟩ := (h.askList hTree {
    path := (right.snapshot node).path
    revision := (right.snapshot node).revision
    offset
    max := some requested } rfl).exists_eq
  rw [Session.fetch, Session.fetch, h.snapshot]
  simp only [hLeft, hRight]
  cases answer with
  | error error => exact ⟨rfl, hAsked⟩
  | ok text =>
      simp only
      cases Slice.ofString text with
      | error error => exact ⟨rfl, hAsked⟩
      | ok names =>
          simp only
          split
          · exact ⟨rfl, hAsked⟩
          · obtain ⟨hEntries, hAdded⟩ := hAsked.addChildren (right.snapshot node).path
              (right.snapshot node).revision names
            exact ⟨congrArg Except.ok hEntries, hAdded.record _⟩

theorem Alike.uncachedChild (h : Alike left right) (hTree : SameTree node left right)
    (name : String) : Agree (left.uncachedChild node name) (right.uncachedChild node name) := by
  obtain ⟨answer, leftAsked, rightAsked, hLeft, hRight, hAsked⟩ :=
    (h.askHolds hTree (Path.child (right.snapshot node).path name)).exists_eq
  rw [Session.uncachedChild, Session.uncachedChild, h.snapshot]
  simp only [hLeft, hRight]
  cases answer with
  | error error => exact ⟨rfl, hAsked⟩
  | ok found =>
      simp only
      split
      · obtain ⟨hChild, hAdded⟩ := (hAsked.record _).add
          (Path.child (right.snapshot node).path name) (right.snapshot node).revision
        exact ⟨congrArg (fun child => Except.ok (some child)) hChild, hAdded⟩
      · exact ⟨rfl, hAsked.record _⟩

/-- Whether the trees are the same stays so during a call. -/
theorem SameTree.content (hTree : SameTree node left right) :
    SameTree node (left.content node).2 (right.content node).2 := by
  have hLeft := left.steps_content node
  have hRight := right.steps_content node
  have hRevision := (hRight.spreads node).elim id id
  rw [SameTree, hRevision, hLeft.store, hRight.store]
  exact hTree

/-- Sessions that are alike find the same child. -/
theorem Alike.child (h : Alike left right) (hTree : SameTree node left right) (name : String) :
    Agree (left.child node name) (right.child node name) := by
  have hSame := hTree.content
  obtain ⟨answer, leftLoaded, rightLoaded, hLeft, hRight, hLoaded⟩ := (h.content hTree).exists_eq
  rw [hLeft, hRight] at hSame
  rw [Session.child, Session.child, hLeft, hRight]
  split
  · exact ⟨rfl, h⟩
  · cases answer with
    | error error => exact ⟨rfl, hLoaded⟩
    | ok content =>
        simp only
        cases content.child? name with
        | some child => exact ⟨rfl, hLoaded⟩
        | none =>
            simp only [hLoaded.config]
            split
            · exact ⟨rfl, hLoaded⟩
            · exact hLoaded.uncachedChild hSame name

/-- Sessions that are alike answer the same page. -/
theorem Alike.entries (h : Alike left right) (hTree : SameTree node left right) (offset : Nat)
    (count : Option Nat) :
    Agree (left.entries node offset count) (right.entries node offset count) := by
  have hSame := hTree.content
  obtain ⟨answer, leftLoaded, rightLoaded, hLeft, hRight, hLoaded⟩ := (h.content hTree).exists_eq
  rw [hLeft, hRight] at hSame
  rw [Session.entries, Session.entries, hLeft, hRight]
  cases answer with
  | error error => exact ⟨rfl, hLoaded⟩
  | ok content =>
      simp only [hLoaded.config]
      split
      · exact ⟨rfl, hLoaded⟩
      · split
        · exact ⟨rfl, hLoaded⟩
        · exact (hLoaded.fetch hSame _ _).map _

/-- Sessions that are alike give the same answer to every call about a tree that both have. -/
theorem Alike.call (h : Alike left right) (hTree : SameTree node left right) (call : Call) :
    Agree (left.call node call) (right.call node call) := by
  have hContent := h.content hTree
  cases call with
  | propertyCount => exact (hContent.map _).map _
  | properties => exact (hContent.map _).map _
  | property name => exact (hContent.map _).map _
  | childCount => exact (hContent.map _).map _
  | cachedChildren => exact (hContent.map _).map _
  | child name => exact (h.child hTree name).map _
  | entries offset count => exact (h.entries hTree offset count).map _

end Alike

end Session

/-! ### Runs -/

/-- A step of a run: a call on a snapshot, or a commit from outside. -/
inductive Action where
  | call (node : SnapshotId) (call : Call)
  | commit (tree : Tree)

def Action.isCall : Action → Bool
  | call _ _ => true
  | commit _ => false

namespace Session

/-- The answers to the calls of a run, and the session at its end. -/
def run (session : Session MemoryStore) :
    List Action → List (Except ReadError Answer) × Session MemoryStore
  | [] => ([], session)
  | .call node call :: rest =>
    ((session.call node call).2.run rest).map ((session.call node call).1 :: ·) id
  | .commit tree :: rest => (session.commit tree).run rest

/-- The calls of a run ask about trees that can no longer change. -/
def Safe (session : Session MemoryStore) (actions : List Action) : Prop :=
  ∀ node call, Action.call node call ∈ actions →
    session.store.Settled (session.snapshot node).revision

theorem Safe.tail {session : Session MemoryStore} {action : Action} {rest : List Action}
    (h : session.Safe (action :: rest)) : session.Safe rest :=
  fun node call hCall => h node call (List.mem_cons_of_mem _ hCall)

/-- What is left of a safe run behind a call is safe. -/
theorem Safe.call {session : Session MemoryStore} {node : SnapshotId} {call : Call}
    {rest : List Action} (h : session.Safe (.call node call :: rest)) :
    (session.call node call).2.Safe rest := by
  have hSteps := session.steps_call node call
  intro other next hNext
  rw [hSteps.store]
  rcases hSteps.spreads other with hSame | hSame
  · rw [hSame]
    exact h other next (List.mem_cons_of_mem _ hNext)
  · rw [hSame]
    exact h node call List.mem_cons_self

/-- The calls of a safe run are answered alike with the commits of the run and without them. A
commit is made on one side only and moves no settled tree; a call is made on both sides and changes
no store. -/
theorem Alike.run {left right : Session MemoryStore} (h : Alike left right)
    {actions : List Action} (hSafe : right.Safe actions)
    (hTrees : ∀ revision, right.store.Settled revision →
      left.store.root? revision = right.store.root? revision) :
    Agree (left.run actions) (right.run (actions.filter Action.isCall)) := by
  induction actions generalizing left right with
  | nil => exact ⟨rfl, h⟩
  | cons action rest ih =>
      cases action with
      | call node call =>
          obtain ⟨hAnswer, hNext⟩ := h.call (hTrees _ (hSafe node call List.mem_cons_self)) call
          have hLeft := (left.steps_call node call).store
          have hRight := (right.steps_call node call).store
          have hRest := ih hNext hSafe.call (by rw [hLeft, hRight]; exact hTrees)
          rw [List.filter_cons_of_pos rfl, Session.run, Session.run, hAnswer]
          exact hRest.map _
      | commit tree =>
          have hCommitted : Alike (left.commit tree) right :=
            ⟨h.config, h.snapshots, h.queries⟩
          rw [List.filter_cons_of_neg Bool.false_ne_true, Session.run]
          apply ih hCommitted hSafe.tail
          intro revision hSettled
          have hLeft : left.store.Settled revision := by
            rw [MemoryStore.Settled, hTrees revision hSettled]
            exact hSettled
          exact (hLeft.root?_commit tree).trans (hTrees revision hSettled)

/-- A tree that is known stays under its revision over a whole run. -/
theorem root?_run {revision : Revision} {tree : Tree} (actions : List Action)
    {session : Session MemoryStore} (h : session.store.root? revision = some tree) :
    (session.run actions).2.store.root? revision = some tree := by
  induction actions generalizing session with
  | nil => exact h
  | cons action rest ih =>
      cases action with
      | call node call =>
          apply ih
          rw [(session.steps_call node call).store]
          exact h
      | commit root => exact ih (MemoryStore.root?_commit h root)

end Session

/-- Snapshots are pinned. In a run that calls snapshots at revisions known from the start, and
whatever snapshots come out of that, the commits change no answer and nothing that the snapshots
keep. The tree under a known revision is the same all along. -/
theorem run_without_commits {session : Session MemoryStore} {actions : List Action}
    (hKnown : ∀ node call, Action.call node call ∈ actions →
      node.index < session.snapshots.size →
        ∃ tree, session.store.root? (session.snapshot node).revision = some tree) :
    (session.run actions).1 = (session.run (actions.filter Action.isCall)).1 ∧
    (session.run actions).2.snapshots =
      (session.run (actions.filter Action.isCall)).2.snapshots ∧
    ∀ revision tree, session.store.root? revision = some tree →
      (session.run actions).2.store.root? revision = some tree := by
  have hSafe : session.Safe actions := by
    intro node call hCall
    by_cases hSize : node.index < session.snapshots.size
    · exact Or.inr (hKnown node call hCall hSize)
    · rw [Session.snapshot, Array.getElem?_eq_none (Nat.le_of_not_lt hSize)]
      exact Or.inl rfl
  have hAlike : Session.Alike session session := ⟨rfl, rfl, rfl⟩
  obtain ⟨hAnswers, hEnd⟩ := hAlike.run hSafe fun _ _ => rfl
  exact ⟨hAnswers, hEnd.snapshots, fun _ _ hTree => Session.root?_run actions hTree⟩

/-- A page that is read after the commit of an empty tree is the page from before. -/
theorem run_without_commits_sample :
    ((Session.add { store := MemoryStore.sample, config := { childCacheLimit := 1 } } "/"
        ⟨"r1"⟩).2.run
        [.call ⟨0⟩ .childCount, .commit .empty, .call ⟨0⟩ (.entries 0 none)]).1 =
      ((Session.add { store := MemoryStore.sample, config := { childCacheLimit := 1 } } "/"
        ⟨"r1"⟩).2.run [.call ⟨0⟩ .childCount, .call ⟨0⟩ (.entries 0 none)]).1 := by
  refine (run_without_commits ?_).1
  intro node call hCall hSize
  have hNode : node.index = 0 := Nat.lt_one_iff.mp hSize
  refine ⟨.sample, ?_⟩
  rw [Session.snapshot, hNode]
  rfl

end PinnedTree
