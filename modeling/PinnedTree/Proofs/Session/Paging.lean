import PinnedTree.Proofs.Session.Loading

/-! Pages of children from a store in memory. However much of the list of children a snapshot keeps,
a page is the same window of the whole list. -/
namespace PinnedTree

section Windows

variable {α : Type}

/-- What lies behind an offset is the rest of a front part, and then what lies behind both. -/
theorem drop_eq_append (list : List α) (limit offset : Nat) :
    list.drop offset = (list.take limit).drop offset ++
      list.drop (max offset (list.take limit).length) := by
  have hSplit : list.drop offset =
      (list.take limit).drop offset ++
        list.drop (limit + (offset - (list.take limit).length)) := by
    rw [← List.drop_drop, ← List.drop_append, List.take_append_drop]
  rw [hSplit]
  congr 1
  by_cases hLimit : limit ≤ list.length
  · rw [List.length_take_of_le hLimit]
    congr 1
    omega
  · have hWhole : (list.take limit).length = list.length := by
      rw [List.take_of_length_le (by omega)]
    rw [hWhole, List.drop_of_length_le (by omega), List.drop_of_length_le (by omega)]

/-- A window is made up of its part in front and of a window behind that. -/
theorem take_drop_eq_append (list : List α) (limit offset wanted : Nat) :
    (list.drop offset).take wanted = ((list.take limit).drop offset).take wanted ++
      (list.drop (max offset (list.take limit).length)).take
        (wanted - (((list.take limit).drop offset).take wanted).length) := by
  rw [drop_eq_append list limit offset, List.take_append]
  congr 2
  rw [List.length_take]
  omega

/-- A window that the front part fills, or that no list goes on behind, lies in the front part. -/
theorem take_drop_eq_front {list : List α} {limit offset wanted : Nat}
    (h : (((list.take limit).drop offset).take wanted).length < wanted → list.length ≤ limit) :
    (list.drop offset).take wanted = ((list.take limit).drop offset).take wanted := by
  rw [take_drop_eq_append list limit offset wanted]
  apply List.append_right_eq_self.mpr
  by_cases hShort : (((list.take limit).drop offset).take wanted).length < wanted
  · rw [List.take_of_length_le (h hShort), List.drop_of_length_le (Nat.le_max_right _ _),
      List.take_nil]
  · rw [Nat.sub_eq_zero_of_le (Nat.le_of_not_lt hShort), List.take_zero]

end Windows

namespace Session

/-- Children by their names, with the paths and revisions of the snapshots that they lead to. -/
def located (session : Session MemoryStore) (entries : List ChildEntry) :
    List (String × String × Revision) :=
  entries.map fun entry =>
    (entry.name, (session.snapshot entry.node).path, (session.snapshot entry.node).revision)

/-- Entries with these names are located one level down. -/
theorem Lists.located {session : Session MemoryStore} {path : String} {revision : Revision}
    {entries : List ChildEntry} {names : List String}
    (h : session.Lists path revision entries names) :
    session.located entries = names.map fun name => (name, Path.child path name, revision) := by
  rw [← h.names, List.map_map]
  apply List.map_congr_left
  intro entry hEntry
  obtain ⟨hPath, hRevision⟩ := (h.shows entry hEntry).snapshot
  rw [hPath, hRevision]
  rfl

/-- A fetched window is the window of the whole list. -/
theorem fetch_stored {session : Session MemoryStore} {node : SnapshotId} {tree : Tree}
    (hStored : session.store.Stored (session.snapshot node).path (session.snapshot node).revision
      tree) (offset requested : Nat) :
    ∃ entries after, session.fetch node offset requested = (.ok entries, after) ∧
      Grows session after ∧
      after.Lists (session.snapshot node).path (session.snapshot node).revision entries
        ((tree.childNames.drop offset).take requested) := by
  have hGrows := (session.steps_fetch node offset requested).grows
  have hText := hStored.list_eq offset (some requested)
  have hSlice := hStored.slice_list offset (some requested)
  have hLength : ¬ requested < (window offset (some requested) tree.childNames).length :=
    Nat.not_lt.mpr (List.length_take_le _ _)
  have hAnswer : (session.askList node
      { path := (session.snapshot node).path, revision := (session.snapshot node).revision, offset,
        max := some requested }).1 = .ok (tree.render (some requested) none 0 offset).text := by
    rw [askList]
    exact congrArg (Except.mapError ReadError.store) hText
  generalize hAsked : session.askList node
      { path := (session.snapshot node).path, revision := (session.snapshot node).revision, offset,
        max := some requested } = asked at hAnswer
  obtain ⟨answer, asked⟩ := asked
  cases hAnswer
  have hFetch : ∃ event, session.fetch node offset requested =
      ((asked.addChildren (session.snapshot node).path (session.snapshot node).revision
          (window offset (some requested) tree.childNames)).map .ok fun added =>
        added.record event) := by
    rw [fetch]
    simp only [hAsked, hSlice, if_neg hLength]
    exact ⟨_, rfl⟩
  obtain ⟨event, hFetch⟩ := hFetch
  rw [hFetch] at hGrows ⊢
  have hLists := lists_addChildren (session.snapshot node).path (session.snapshot node).revision
    (window offset (some requested) tree.childNames) asked
  exact ⟨_, _, rfl, hGrows, hLists.mono (.of_eq rfl rfl)⟩

/-! ### Pages -/

/-- A page is glued together from what is kept and from what is fetched behind it. -/
theorem Loads.entries {session loaded : Session MemoryStore} {node : SnapshotId} {tree : Tree}
    {content : Content} (h : session.Loads node tree content loaded) (offset : Nat)
    {wanted : Nat} {count : Option Nat}
    (hWanted : PagePlan.wanted session.config content count = .ok wanted) :
    ∃ entries after, session.entries node offset count = (.ok entries, after) ∧
      after.Lists (session.snapshot node).path (session.snapshot node).revision entries
        ((tree.childNames.drop offset).take wanted) := by
  have hKept : loaded.Lists (session.snapshot node).path (session.snapshot node).revision
      (PagePlan.of session.config content offset wanted).kept
      (((tree.childNames.take session.config.childCacheLimit).drop offset).take wanted) := by
    refine ⟨?_, fun entry hEntry => h.children.shows entry ?_⟩
    · rw [PagePlan.of, List.map_take, List.map_drop, h.children.names]
    · exact List.mem_of_mem_drop (List.mem_of_mem_take hEntry)
  have hLength := congrArg List.length hKept.names
  have hCached := congrArg List.length h.children.names
  rw [List.length_map] at hLength hCached
  rw [Session.entries, h.answer]
  simp only [h.config, hWanted]
  split
  · rename_i hFetch
    refine ⟨_, _, rfl, hKept.names.trans ?_, hKept.shows⟩
    simp only [PagePlan.of] at hFetch hLength
    split at hFetch
    · cases hFetch
    · rename_i hComplete
      rw [h.childCount, ← tree.length_childNames, hLength] at hComplete
      apply Eq.symm
      apply take_drop_eq_front
      intro hShort
      apply Nat.le_of_not_lt
      intro hMore
      exact hComplete ⟨Nat.sub_pos_of_lt hShort, hMore⟩
  · rename_i first requested hFetch
    obtain ⟨fetched, after, hAnswer, hGrows, hFetched⟩ := fetch_stored h.stored first requested
    rw [hAnswer]
    refine ⟨_, _, rfl, ?_⟩
    rw [h.path, h.revision] at hFetched
    simp only [PagePlan.of] at hFetch hLength
    split at hFetch
    · cases hFetch
      rw [take_drop_eq_append tree.childNames session.config.childCacheLimit offset wanted,
        ← hLength, ← hCached]
      exact (hKept.mono hGrows).append hFetched
    · cases hFetch

/-- In a session that comes about, a page of a stored node has the names of its children in that
window. -/
theorem Reachable.entries {session : Session MemoryStore} (hReachable : session.Reachable)
    {node : SnapshotId} {path : String} {revision : Revision} {tree : Tree}
    (hShows : session.Shows node path revision)
    (hStored : session.store.Stored path revision tree)
    (hIntegers : ∀ value ∈ tree.integers, Scalar.InLongRange value) (offset count : Nat) :
    ∃ entries after, session.entries node offset (some count) = (.ok entries, after) ∧
      after.Lists path revision entries ((tree.childNames.drop offset).take count) ∧
      Grows session after ∧ after.Reachable ∧ after.store = session.store := by
  obtain ⟨rfl, rfl⟩ := hShows.snapshot
  obtain ⟨content, loaded, hLoads⟩ := hReachable.consistent.loads hStored hIntegers
  have hWanted : PagePlan.wanted session.config content (some count) = .ok count := rfl
  obtain ⟨entries, after, hEntries, hLists⟩ := hLoads.entries offset hWanted
  have hAfter : (session.call node (.entries offset (some count))).2 = after :=
    congrArg Prod.snd hEntries
  have hSteps := session.steps_call node (.entries offset (some count))
  have hReached := hReachable.call node (.entries offset (some count))
  rw [hAfter] at hSteps hReached
  exact ⟨entries, after, hEntries, hLists, hSteps.grows, hReached, hSteps.store⟩

theorem located_children {session : Session MemoryStore} {path : String} {revision : Revision}
    {entries : List ChildEntry} {children : List (String × Tree)}
    (h : session.Lists path revision entries (Members.names children)) :
    session.located entries =
      children.map fun child => (child.1, Path.child path child.1, revision) := by
  rw [h.located, Members.names, List.map_map]
  rfl

end Session

open Session in
/-- Paging is exact. In every session that can come about, with any limits and after any reads and
commits, a page of a node has the children of its window, in order, at their paths and at the
revision of the snapshot. All children are given exactly when there are not too many, and pages
that follow each other make up one page. -/
theorem entries_exact {session : Session MemoryStore} (hReachable : session.Reachable)
    {node : SnapshotId} {path : String} {revision : Revision} {tree : Tree}
    (hShows : session.Shows node path revision)
    (hStored : session.store.Stored path revision tree)
    (hIntegers : ∀ value ∈ tree.integers, Scalar.InLongRange value) (offset : Nat) :
    (∀ count, ∃ entries after, session.entries node offset (some count) = (.ok entries, after) ∧
      after.located entries = ((tree.children.drop offset).take count).map fun child =>
        (child.1, Path.child path child.1, revision)) ∧
    (tree.childCount ≤ session.config.maxEnumerateAll →
      ∃ entries after, session.entries node offset none = (.ok entries, after) ∧
        after.located entries = (tree.children.drop offset).map fun child =>
          (child.1, Path.child path child.1, revision)) ∧
    (session.config.maxEnumerateAll < tree.childCount →
      ∃ after, session.entries node offset none =
        (.error (.tooManyChildren tree.childCount session.config.maxEnumerateAll), after)) ∧
    ∀ first second, ∃ left next right last whole after,
      session.entries node offset (some first) = (.ok left, next) ∧
        next.entries node (offset + first) (some second) = (.ok right, last) ∧
        last.entries node offset (some (first + second)) = (.ok whole, after) ∧
        after.located (left ++ right) = after.located whole := by
  have hWindow : ∀ count, (tree.childNames.drop offset).take count =
      Members.names ((tree.children.drop offset).take count) := by
    intro count
    rw [Tree.childNames, Members.names, Members.names, List.map_take, List.map_drop]
  refine ⟨?_, ?_, ?_, ?_⟩
  · intro count
    obtain ⟨entries, after, hEntries, hLists, -⟩ :=
      hReachable.entries hShows hStored hIntegers offset count
    rw [hWindow] at hLists
    exact ⟨entries, after, hEntries, located_children hLists⟩
  · intro hFew
    obtain ⟨rfl, rfl⟩ := hShows.snapshot
    obtain ⟨content, loaded, hLoads⟩ := hReachable.consistent.loads hStored hIntegers
    have hWanted : PagePlan.wanted session.config content none =
        .ok session.config.maxEnumerateAll := by
      rw [PagePlan.wanted, hLoads.childCount, if_neg (Nat.not_lt.mpr hFew)]
    obtain ⟨entries, after, hEntries, hLists⟩ := hLoads.entries offset hWanted
    have hAll : (tree.children.drop offset).length ≤ session.config.maxEnumerateAll := by
      rw [List.length_drop]
      exact Nat.le_trans (Nat.sub_le _ _) hFew
    rw [hWindow, List.take_of_length_le hAll] at hLists
    exact ⟨entries, after, hEntries, located_children hLists⟩
  · intro hMany
    obtain ⟨rfl, rfl⟩ := hShows.snapshot
    obtain ⟨content, loaded, hLoads⟩ := hReachable.consistent.loads hStored hIntegers
    refine ⟨loaded, ?_⟩
    rw [Session.entries, hLoads.answer]
    simp only [PagePlan.wanted, hLoads.childCount, hLoads.config, if_pos hMany]
  · intro first second
    obtain ⟨left, next, hLeft, hLeftNames, hNext, hReached, hStore⟩ :=
      hReachable.entries hShows hStored hIntegers offset first
    have hNextStored := hStored
    rw [← hStore] at hNextStored
    obtain ⟨right, last, hRight, hRightNames, hLast, hReached, hStore⟩ :=
      hReached.entries (hNext.shows hShows) hNextStored hIntegers (offset + first) second
    have hLastStored := hNextStored
    rw [← hStore] at hLastStored
    obtain ⟨whole, after, hWhole, hWholeNames, hAfter, -, -⟩ :=
      hReached.entries (hLast.shows (hNext.shows hShows)) hLastStored hIntegers offset
        (first + second)
    have hBoth := (hLeftNames.mono (hLast.trans hAfter)).append (hRightNames.mono hAfter)
    refine ⟨left, next, right, last, whole, after, hLeft, hRight, hWhole, ?_⟩
    rw [hBoth.located, hWholeNames.located, List.take_add, List.drop_drop]

/-- A snapshot of the small store that keeps one child still gives the other. -/
theorem entries_exact_sample :
    ∃ entries after,
      (Session.add { store := MemoryStore.sample, config := { childCacheLimit := 1 } } "/"
        ⟨"r1"⟩).2.entries ⟨0⟩ 0 (some 5) = (.ok entries, after) ∧
        after.located entries = [("left", "/left", ⟨"r1"⟩), ("right", "/right", ⟨"r1"⟩)] := by
  have hReachable := Session.Reachable.add "/" ⟨"r1"⟩
    (.start MemoryStore.sample { childCacheLimit := 1 })
  exact (entries_exact hReachable (Session.shows_add _ _ _) MemoryStore.stored_sample
    (by decide) 0).1 5

end PinnedTree
