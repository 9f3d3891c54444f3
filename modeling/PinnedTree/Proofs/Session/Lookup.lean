import PinnedTree.Proofs.Session.Loading

/-! Looking up a child by its name. The children that a snapshot keeps and the paths of the store
say the same about every name, so it does not matter which of the two is asked. -/
namespace PinnedTree

theorem Tree.child?_isSome_iff {node : Tree} {name : String} :
    (node.child? name).isSome ↔ name ∈ node.childNames := by
  rw [Option.isSome_iff_ne_none, child?, ne_eq, Members.find?_eq_none_iff, not_not]
  rfl

namespace Session

/-- What the store answers about one name is what the node has. -/
theorem uncachedChild_stored {session : Session MemoryStore} {node : SnapshotId} {tree : Tree}
    (hStored : session.store.Stored (session.snapshot node).path (session.snapshot node).revision
      tree) {name : String} (hName : Path.IsName name) :
    ∃ found after, session.uncachedChild node name = (.ok found, after) ∧
      (found.isSome ↔ (tree.child? name).isSome) ∧
      ∀ child, found = some child → after.Shows child
        (Path.child (session.snapshot node).path name) (session.snapshot node).revision := by
  have hAnswer : (session.askHolds node (Path.child (session.snapshot node).path name)
      (session.snapshot node).revision).1 = .ok (tree.child? name).isSome := by
    rw [askHolds]
    exact congrArg (Except.mapError ReadError.store) (hStored.holds_child hName)
  generalize hAsked : session.askHolds node (Path.child (session.snapshot node).path name)
    (session.snapshot node).revision = asked at hAnswer
  obtain ⟨answer, asked⟩ := asked
  cases hAnswer
  rw [uncachedChild]
  simp only [hAsked]
  cases tree.child? name with
  | none =>
      refine ⟨none, _, rfl, Iff.rfl, ?_⟩
      intro child hChild
      cases hChild
  | some child =>
      refine ⟨some _, _, rfl, Iff.rfl, ?_⟩
      intro found hFound
      cases hFound
      exact shows_add _ _ _

/-- A child is found by its name exactly when the tree has it, one level down and at the revision of
its parent. -/
theorem Loads.child {session loaded : Session MemoryStore} {node : SnapshotId} {tree : Tree}
    {content : Content} (h : session.Loads node tree content loaded) {name : String}
    (hName : Path.IsName name) :
    ∃ found after, session.child node name = (.ok found, after) ∧
      (found.isSome ↔ (tree.child? name).isSome) ∧
      ∀ child, found = some child → after.Shows child
        (Path.child (session.snapshot node).path name) (session.snapshot node).revision := by
  rw [Session.child, Path.checkName_eq_ok_iff.mpr hName, h.answer]
  simp only [h.config, h.childCount]
  cases hKept : content.child? name with
  | some child =>
      have hEntry := Content.child?_eq_some hKept
      have hListed : name ∈ tree.childNames.take session.config.childCacheLimit :=
        h.children.names ▸ List.mem_map_of_mem hEntry
      refine ⟨some child, loaded, rfl, ?_, ?_⟩
      · exact iff_of_true rfl (Tree.child?_isSome_iff.mpr (List.mem_of_mem_take hListed))
      · intro found hFound
        cases hFound
        exact h.children.shows _ hEntry
  | none =>
      have hListed := Content.child?_eq_none hKept
      rw [h.children.names] at hListed
      by_cases hAll : tree.childCount ≤ session.config.childCacheLimit
      · have hAbsent : ¬ (tree.child? name).isSome := by
          rw [Tree.child?_isSome_iff]
          rw [List.take_of_length_le (tree.length_childNames ▸ hAll)] at hListed
          exact hListed
        rw [if_pos hAll]
        refine ⟨none, loaded, rfl, iff_of_false Bool.false_ne_true hAbsent, ?_⟩
        intro child hChild
        cases hChild
      · rw [if_neg hAll, ← h.path, ← h.revision]
        exact uncachedChild_stored h.stored hName

end Session

/-- No property and not the total are found as children. -/
theorem Tree.WellNamed.child?_eq_none {node : Tree} (h : node.WellNamed) {name : String}
    (hOther : name = childNodeCount ∨ (node.property? name).isSome) : node.child? name = none := by
  apply Members.find?_eq_none_iff.mpr
  intro hChild
  rcases hOther with rfl | hProperty
  · exact h.unreservedChild hChild
  · obtain ⟨value, hFound⟩ := Option.isSome_iff_exists.mp hProperty
    exact h.disjoint name hChild (Members.mem_names.mpr ⟨value, Members.mem_of_find? hFound⟩)

/-- Looking up a child is exact. In every session that can come about, with any limits and after any
reads and commits, only what is no name is refused. A name leads to a snapshot of the child at the
revision of the snapshot if the node has such a child, and to nothing otherwise. -/
theorem child_exact {session : Session MemoryStore} (hReachable : session.Reachable)
    {node : SnapshotId} {path : String} {revision : Revision} {tree : Tree}
    (hShows : session.Shows node path revision)
    (hStored : session.store.Stored path revision tree)
    (hIntegers : ∀ value ∈ tree.integers, Scalar.InLongRange value) (name : String) :
    ((session.child node name).1 = .error (.badName (.invalidName name)) ↔
      name = "" ∨ '/' ∈ name.toList) ∧
    (¬ (name = "" ∨ '/' ∈ name.toList) →
      ∃ found after, session.child node name = (.ok found, after) ∧
        (found.isSome ↔ (tree.child? name).isSome) ∧
        ∀ child, found = some child → after.Shows child (Path.child path name) revision) ∧
    (¬ (name = "" ∨ '/' ∈ name.toList) → name = childNodeCount ∨ (tree.property? name).isSome →
      (session.child node name).1 = .ok none) := by
  obtain ⟨rfl, rfl⟩ := hShows.snapshot
  obtain ⟨content, loaded, hLoads⟩ := hReachable.consistent.loads hStored hIntegers
  have hIsName : ¬ (name = "" ∨ '/' ∈ name.toList) ↔ Path.IsName name := not_or
  have hFound : Path.IsName name → _ := fun hName => hLoads.child hName
  rw [hIsName]
  refine ⟨⟨?_, ?_⟩, hFound, ?_⟩
  · intro hRefused
    apply Classical.byContradiction
    intro hName
    obtain ⟨found, after, hAnswer, -⟩ := hFound (hIsName.mp hName)
    rw [hAnswer] at hRefused
    cases hRefused
  · intro hNoName
    have hCheck : Path.checkName name = .error (.invalidName name) :=
      if_neg fun hName => hIsName.mpr hName hNoName
    rw [Session.child, hCheck]
  · intro hName hOther
    obtain ⟨found, after, hAnswer, hSome, -⟩ := hFound hName
    rw [hStored.wellNamed.child?_eq_none hOther] at hSome
    cases found with
    | none => exact congrArg Prod.fst hAnswer
    | some child => exact absurd (hSome.mp rfl) Bool.false_ne_true

/-- A snapshot of the small store that keeps one child finds the other by its path. -/
theorem child_exact_sample :
    ∃ child after,
      (Session.add { store := MemoryStore.sample, config := { childCacheLimit := 1 } } "/"
        ⟨"r1"⟩).2.child ⟨0⟩ "right" = (.ok (some child), after) ∧
        after.Shows child "/right" ⟨"r1"⟩ := by
  have hReachable := Session.Reachable.add "/" ⟨"r1"⟩
    (.start MemoryStore.sample { childCacheLimit := 1 })
  obtain ⟨-, hFound, -⟩ := child_exact hReachable (Session.shows_add _ _ _)
    MemoryStore.stored_sample (by decide) "right"
  obtain ⟨found, after, hAnswer, hSome, hShows⟩ := hFound (by decide)
  obtain ⟨child, rfl⟩ := Option.isSome_iff_exists.mp (hSome.mpr rfl)
  exact ⟨child, after, hAnswer, hShows child rfl⟩

end PinnedTree
