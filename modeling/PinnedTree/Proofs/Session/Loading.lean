import PinnedTree.Proofs.Session.Memory

/-! Loading snapshots from a store in memory. The listing that a snapshot asks for has everything
the snapshot is to keep, and reading it gives back the node. -/
namespace PinnedTree

/-- An integer in range is held as the scalar of the same value. -/
theorem Scalar.ofAtom_integer {value : Int} (h : InLongRange value) :
    ∃ long : Int64, ofAtom (.number (.integer value)) = .long long ∧ long.toInt = value := by
  refine ⟨Int64.ofInt value, ?_, Int64.toInt_ofInt_of_le h.1 ?_⟩
  · rw [ofAtom, long?, if_pos h]
    rfl
  · exact Int.lt_of_le_of_lt h.2 (by decide)

namespace Listing

/-- If the integers of a node are in range, they do not keep it from being read. -/
theorem checked_of_inRange {α : Type} {node : Tree}
    (h : ∀ value ∈ node.integers, Scalar.InLongRange value) (result : α) :
    checked node.atoms result = .ok result := by
  have hNone := firstOutside_eq_none_iff.mpr h
  rw [Tree.integers] at hNone
  rw [checked, hNone]

/-- Otherwise the first integer out of range is the error. -/
theorem checked_of_outside {α : Type} {node : Tree} {value : Int}
    (h : firstOutside node.integers = some value) (result : α) :
    checked node.atoms result = .error (outOfRange value) := by
  rw [Tree.integers] at h
  rw [checked, h]

end Listing

namespace Session

variable {σ : Type}

def lead (session : Session σ) (entries : List ChildEntry) : List (String × Snapshot) :=
  entries.map fun entry => (entry.name, session.snapshot entry.node)

/-- Children that are added lead to snapshots one level below their parent. -/
theorem lead_addChildren (path : String) (revision : Revision) (names : List String)
    (session : Session σ) :
    (session.addChildren path revision names).2.lead
        (session.addChildren path revision names).1 =
      names.map fun name => (name, { path := Path.child path name, revision }) := by
  have hNames := addChildren_names path revision names session
  calc
    (session.addChildren path revision names).2.lead (session.addChildren path revision names).1
    _ = (session.addChildren path revision names).1.map fun entry =>
          (entry.name, { path := Path.child path entry.name, revision }) := by
      apply List.map_congr_left
      intro entry hEntry
      rw [snapshot, addChildren_snapshots hEntry]
      rfl
    _ = ((session.addChildren path revision names).1.map ChildEntry.name).map fun name =>
          (name, { path := Path.child path name, revision }) := by
      rw [List.map_map]
      rfl
    _ = names.map fun name => (name, { path := Path.child path name, revision }) := by
      rw [hNames]

/-! ### Loading a stored node -/

/-- A snapshot of a node has loaded, and everything else in the session is where it was. -/
structure Loads (session : Session MemoryStore) (node : SnapshotId) (tree : Tree)
    (content : Content) (loaded : Session MemoryStore) : Prop where
  answer : session.content node = (.ok content, loaded)
  properties : content.properties =
    tree.properties.map fun property => (property.1, property.2.map Scalar.ofAtom)
  childCount : content.childCount = tree.childCount
  children : loaded.Lists (session.snapshot node).path (session.snapshot node).revision
    content.children (tree.childNames.take session.config.childCacheLimit)
  config : loaded.config = session.config
  stored : loaded.store.Stored (loaded.snapshot node).path (loaded.snapshot node).revision tree
  path : (loaded.snapshot node).path = (session.snapshot node).path
  revision : (loaded.snapshot node).revision = (session.snapshot node).revision

/-- A node whose integers are in range is loaded, whatever was read before. -/
theorem Consistent.loads {session : Session MemoryStore} (h : session.Consistent)
    {node : SnapshotId} {tree : Tree}
    (hStored : session.store.Stored (session.snapshot node).path (session.snapshot node).revision
      tree) (hIntegers : ∀ value ∈ tree.integers, Scalar.InLongRange value) :
    ∃ content loaded, session.Loads node tree content loaded := by
  have hListing : session.listing (session.snapshot node).path (session.snapshot node).revision =
      .ok (tree.described session.config.childCacheLimit) := by
    rw [listing, hStored.list_eq 0, Except.mapError, Except.bind, hStored.ofString_list,
      Listing.checked_of_inRange hIntegers]
    rfl
  obtain ⟨content, hContent, hHolds⟩ := h.content_ok hListing
  have hSteps := session.steps_content node
  have hGrows := hSteps.grows
  have hStore := hSteps.store
  have hShows := hGrows.shows (shows_of_lt (lt_of_listing hListing))
  have hKept := hHolds.listing
  rw [listing, hGrows.config, hStore] at hKept
  have hSame := Except.ok.inj (hKept.symm.trans hListing)
  refine ⟨content, (session.content node).2, ?_, congrArg Listing.properties hSame,
    congrArg Listing.childCount hSame,
    ⟨congrArg Listing.children hSame, hHolds.children⟩, hGrows.config, ?_, hShows.snapshot.1,
    hShows.snapshot.2⟩
  · exact Prod.ext hContent rfl
  · rw [hShows.snapshot.1, hShows.snapshot.2, hStore]
    exact hStored

end Session

/-- Reading undoes listing. If every integer of a node is in range, its listing gives back all
properties with their values, the first children and the number of all. Else the reading stops at
the first integer that is not, and names it. -/
theorem listing_round_trip {store : MemoryStore} {path : String} {revision : Revision} {node : Tree}
    (hStored : store.Stored path revision node) (limit : Nat) :
    ∃ text, store.list { path, revision, max := some limit } = .ok text ∧
      ((∀ value ∈ node.integers, Scalar.InLongRange value) →
        Listing.ofString limit text = .ok
            { properties := node.properties.map fun property =>
                (property.1, property.2.map Scalar.ofAtom)
              children := (node.children.take limit).map Prod.fst
              childCount := node.children.length } ∧
          (∀ value ∈ node.integers, ∃ long : Int64,
            Scalar.ofAtom (.number (.integer value)) = .long long ∧ long.toInt = value) ∧
          ∀ session : Session MemoryStore,
            (session.addChildren path revision ((node.children.take limit).map Prod.fst)).2.lead
                (session.addChildren path revision ((node.children.take limit).map Prod.fst)).1 =
              (node.children.take limit).map fun child =>
                (child.1, { path := Path.child path child.1, revision })) ∧
      ∀ value, node.integers.find? (fun value => ¬ Scalar.InLongRange value) = some value →
        Listing.ofString limit text =
          .error (.unexpectedToken (String.ofList (Json.writeInt value))) := by
  refine ⟨_, hStored.list_eq 0 (some limit), ?_, ?_⟩
  · intro hIntegers
    refine ⟨?_, fun value hValue => Scalar.ofAtom_integer (hIntegers value hValue), ?_⟩
    · rw [hStored.ofString_list, Listing.checked_of_inRange hIntegers, Tree.described,
        Tree.childNames, Members.names, List.map_take]
      rfl
    · intro session
      rw [Session.lead_addChildren, List.map_map]
      rfl
  · intro value hOutside
    rw [hStored.ofString_list, Listing.checked_of_outside hOutside]
    rfl

/-- With room for one child, the small store gives its property, one child and the count. -/
theorem listing_round_trip_sample :
    ∃ text, MemoryStore.sample.list { path := "/", revision := ⟨"r1"⟩, max := some 1 } = .ok text ∧
      Listing.ofString 1 text = .ok
        { properties := [("size", .one (.long 3))], children := ["left"], childCount := 2 } := by
  obtain ⟨text, hText, hRead, -⟩ := listing_round_trip MemoryStore.stored_sample 1
  exact ⟨text, hText, (hRead (by decide)).1⟩

end PinnedTree
