import PinnedTree.Proofs.Command.Resolving
import PinnedTree.Proofs.Tree.Preorder

/-! The outline of a tree. Paging through a node and going down its children prints every node once,
in pre-order, and neither the limits nor the size of the pages can be seen in what is printed. -/
namespace PinnedTree

open Session

namespace Tree

/-- The lines of one node: its name, and its properties one step further in. The node at the top has
no name, and goes by another text. -/
def Visit.lines (level : Nat) (top : String) (visit : Visit) : List String :=
  let pad := Command.indentation (level + visit.1.length)
  (pad ++ visit.1.getLastD top) :: visit.2.properties.map fun property =>
    pad ++ "  " ++ Property.line property.1 (property.2.map Scalar.ofAtom)

/-- The lines of all nodes down to some depth. -/
def outline (level : Nat) (top : String) (depth : Option Nat) (tree : Tree) : List String :=
  (tree.down depth).flatMap (Visit.lines level top)

/-- Seen from one level higher up, a node has the lines that it has one step further in, where the
top goes by the name that is put in front. -/
theorem lines_under (level : Nat) (top name : String) (visit : Visit) :
    (visit.under name).lines level top = visit.lines (level + 1) name := by
  have hLevel : level + (visit.1.length + 1) = level + 1 + visit.1.length := by omega
  simp only [Visit.lines, Visit.under, List.length_cons, List.getLastD_cons, hLevel]

theorem outline_zero (level : Nat) (top : String) (tree : Tree) :
    tree.outline level top (some 0) = Visit.lines level top ([], tree) := by
  rw [outline, down_zero, List.flatMap_singleton]

/-- The outline of a node is its own lines and then the outlines of its children, one step further
in and with one level less to go. -/
theorem outline_next (level : Nat) (top : String) (next : Option Nat) (tree : Tree) :
    tree.outline level top (next.map (· + 1)) = Visit.lines level top ([], tree) ++
      tree.children.flatMap fun child => child.2.outline (level + 1) child.1 next := by
  rw [outline, down_next, List.flatMap_cons, List.flatMap_assoc]
  simp only [List.flatMap_map, lines_under]
  rfl

end Tree

namespace MemoryStore

/-- A fresh store knows only the latest revision, with an empty root. -/
theorem root?_fresh (revision : Revision) :
    fresh.root? revision = if fresh.head = revision then some .empty else none := by
  have hCommits : fresh.commits = [⟨fresh.head, .empty⟩] := rfl
  rw [root?, hCommits, List.find?_singleton]
  by_cases hHead : fresh.head = revision
  · simp [hHead]
  · simp [hHead]

/-- A fresh store has the tree that is committed, or its empty root if that has the same
revision. -/
theorem eq_of_root?_commit_fresh {root stored : Tree} {revision : Revision} {store : MemoryStore}
    (hCommit : fresh.commit root = (revision, store)) (h : store.root? revision = some stored) :
    stored = root ∨ stored = .empty := by
  have hKnown := fresh.root?_committed root
  rw [hCommit, h, root?_fresh] at hKnown
  split at hKnown
  · exact .inr (Option.some.inj hKnown)
  · exact .inl (Option.some.inj hKnown)

end MemoryStore

namespace Session

/-- Entries with the names of children lead to these, one by one. -/
theorem Lists.forall₂ {session : Session MemoryStore} {path : String} {revision : Revision}
    {entries : List ChildEntry} {children : List (String × Tree)}
    (h : session.Lists path revision entries (Members.names children)) :
    List.Forall₂ (fun entry child => child ∈ children ∧ entry.name = child.1 ∧
      session.Shows entry.node (Path.child path child.1) revision) entries children := by
  have hNames : List.Forall₂ (fun (entry : ChildEntry) child => entry.name = child.1) entries
      children := by
    have hEqual := List.forall₂_eq_eq_eq ▸ h.names
    exact List.forall₂_map_right_iff.mp (List.forall₂_map_left_iff.mp hEqual)
  rw [List.forall₂_iff_zip] at hNames ⊢
  refine ⟨hNames.1, fun hPair => ?_⟩
  obtain ⟨hEntry, hChild⟩ := List.of_mem_zip hPair
  have hName := hNames.2 hPair
  exact ⟨hChild, hName, hName ▸ h.shows _ hEntry⟩

end Session

namespace Command

open Reading

/-- Going through the children page by page prints each of them once, in order. -/
theorem gives_pages {session : Session MemoryStore} {node : SnapshotId} {path : String}
    {revision : Revision} {tree : Tree} (h : session.Presents node path revision tree)
    {below : ChildEntry → Reading (List String)} {lines : String × Tree → List String} {page : Nat}
    (hPage : 0 < page) (hBelow : ∀ now, Continues session now → ∀ entry, ∀ child ∈ tree.children,
      entry.name = child.1 → now.Shows entry.node (Path.child path child.1) revision →
        Gives now (below entry) fun result _ => result = lines child)
    {remaining offset : Nat} {now : Session MemoryStore} (hNow : Continues session now)
    (hRemaining : tree.childCount - offset ≤ remaining) :
    Gives now (pages below page node remaining offset) fun result _ =>
      result = (tree.children.drop offset).flatMap lines := by
  -- Each full page leaves fewer children, so the induction is on those that remain.
  induction remaining using Nat.strongRecOn generalizing offset now with
  | ind remaining ih =>
      rw [pages]
      refine (gives_entries (h.mono hNow) hNow.consistent offset page).bind ?_
      intro entries loaded hLoaded hLists
      have hMatch : List.Forall₂ (fun entry child => ∀ later, Continues loaded later →
          Gives later (below entry) fun result _ => result = lines child) entries
          ((tree.children.drop offset).take page) := by
        refine hLists.forall₂.imp fun entry child hEntry later hLater => ?_
        obtain ⟨hChild, hName, hShows⟩ := hEntry
        exact hBelow later ((hNow.trans hLoaded).trans hLater) entry child
          (List.mem_of_mem_drop (List.mem_of_mem_take hChild)) hName (hLater.grows.shows hShows)
      refine (gives_mapM hMatch (.refl hLoaded.consistent)).bind ?_
      rintro _ after hAfter rfl
      have hLength := congrArg List.length hLists.names
      rw [List.length_map, Members.names, List.length_map, List.length_take, List.length_drop]
        at hLength
      rw [Tree.childCount] at hRemaining
      rw [← List.flatMap_def]
      dsimp only
      by_cases hShort : entries.length < page
      · -- The page is not full, so nothing lies behind it.
        have hAll : (tree.children.drop offset).length ≤ page := by
          rw [List.length_drop]
          omega
        rw [if_pos hShort, List.take_of_length_le hAll, pure_bind, List.append_nil]
        exact gives_pure hAfter.consistent rfl
      · have hFull : entries.length = page := by omega
        have hMore : 0 < page ∧ page ≤ remaining := by omega
        have hRest : tree.childCount - (offset + page) ≤ remaining - page := by
          rw [Tree.childCount]
          omega
        rw [if_neg hShort, hFull, dif_pos hMore]
        refine (ih (remaining - page) (by omega) ((hNow.trans hLoaded).trans hAfter) hRest).bind ?_
        rintro _ last hLast rfl
        refine gives_pure hLast.consistent ?_
        rw [← List.flatMap_append, ← List.drop_drop, List.take_append_drop]

def headLines (paint : Style → String → String) (level : Nat) (name : String)
    (properties : Members Property) : List String :=
  (indentation level ++ paint .boldBlue name) :: properties.map fun property =>
    indentation level ++ "  " ++ paint .dimmed (Property.line property.1 property.2)

/-- Without colours, the lines of a node are those of the outline. -/
theorem headLines_eq (level : Nat) (name : String) (tree : Tree) :
    headLines (Style.paint false) level name
        (tree.properties.map fun property => (property.1, property.2.map Scalar.ofAtom)) =
      Tree.Visit.lines level name ([], tree) := by
  rw [headLines, List.map_map]
  rfl

theorem showTree_zero (paint : Style → String → String) (page size level : Nat) (name : String)
    (node : SnapshotId) :
    showTree paint page size level (some 0) name node =
      ask (·.properties node) >>= fun properties =>
        pure (headLines paint level name properties) := by
  cases size <;> rw [showTree] <;> rfl

/-- With levels to go, a node is shown by its own lines and then by its pages of children. -/
theorem showTree_next (paint : Style → String → String) (page size level : Nat)
    (next : Option Nat) (name : String) (node : SnapshotId) :
    showTree paint page (size + 1) level (next.map (· + 1)) name node =
      ask (·.properties node) >>= fun properties =>
        pages (fun entry => showTree paint page size (level + 1) next entry.name entry.node) page
          node size 0 >>= fun rest => pure (headLines paint level name properties ++ rest) := by
  cases next <;> rw [showTree] <;> rfl

/-- A snapshot is shown by the outline of its node, if the bound is large enough. The induction is
on the bound of the nodes: a tree below a node has fewer of them, and so has a node fewer
children. -/
theorem gives_showTree {page size : Nat} (hPage : 0 < page) {session : Session MemoryStore}
    {node : SnapshotId} {path : String} {revision : Revision} {tree : Tree}
    (h : session.Presents node path revision tree) (hConsistent : session.Consistent)
    (level : Nat) (name : String) {depth : Option Nat}
    (hReadable : ∀ visit ∈ tree.down depth, visit.2.Readable) (hSize : tree.nodeCount ≤ size) :
    Gives session (showTree (Style.paint false) page size level depth name node) fun result _ =>
      result = tree.outline level name depth := by
  induction size generalizing session node path tree level name depth with
  | zero => exact absurd hSize (Nat.not_le_of_lt tree.nodeCount_pos)
  | succ size ih =>
      have hDepth : depth = some 0 ∨ ∃ next : Option Nat, depth = next.map (· + 1) := by
        match depth with
        | none => exact .inr ⟨none, rfl⟩
        | some 0 => exact .inl rfl
        | some (next + 1) => exact .inr ⟨some next, rfl⟩
      rcases hDepth with rfl | ⟨next, rfl⟩
      · rw [showTree_zero]
        refine (gives_properties h hConsistent).bind ?_
        rintro _ loaded hLoaded rfl
        refine gives_pure hLoaded.consistent ?_
        rw [headLines_eq, Tree.outline_zero]
      · rw [showTree_next]
        refine (gives_properties h hConsistent).bind ?_
        rintro _ loaded hLoaded rfl
        have hPresents := h.mono hLoaded
        have hBelow : ∀ now, Continues loaded now → ∀ (entry : ChildEntry),
            ∀ child ∈ tree.children, entry.name = child.1 →
              now.Shows entry.node (Path.child path child.1) revision →
                Gives now (showTree (Style.paint false) page size (level + 1) next entry.name
                  entry.node) fun result _ =>
                    result = child.2.outline (level + 1) child.1 next := by
          intro now hNow entry child hChild hName hShows
          have hVisits : ∀ visit ∈ child.2.down next, visit.2.Readable := fun visit hVisit =>
            hReadable (visit.under child.1) (Tree.under_mem_down hChild hVisit)
          have hFound : tree.child? child.1 = some child.2 :=
            (Members.find?_eq_some_iff h.stored.wellNamed.children).mpr hChild
          have hLess := Tree.nodeCount_lt_of_mem hChild
          rw [hName]
          exact ih (hPresents.below hFound (hVisits _ child.2.top_mem_down) hNow hShows)
            hNow.consistent (level + 1) child.1 hVisits (by omega)
        have hChildren := tree.childCount_lt_nodeCount
        refine (gives_pages hPresents hPage hBelow (.refl hLoaded.consistent)
          (show tree.childCount - 0 ≤ size by omega)).bind ?_
        rintro _ last hLast rfl
        refine gives_pure hLast.consistent ?_
        rw [headLines_eq, Tree.outline_next, List.drop_zero]

/-- On a store that knows the tree, the command gives the outline of the node that it is about. -/
theorem gives_perform {session : Session MemoryStore} (hConsistent : session.Consistent)
    {root stored node : Tree} {revision : Revision} {path : String} {depth : Option Nat}
    {page : Nat} (hStored : session.store.root? revision = some stored) (hBuilt : stored.Built)
    (hSize : stored.nodeCount ≤ root.nodeCount) (hPath : Path.IsPath path)
    (hNode : stored.walk? (Path.segments path) = some node)
    (hWay : ∀ front above, front <+: Path.segments path → stored.walk? front = some above →
      above.Readable) (hShown : ∀ visit ∈ node.down depth, visit.2.Readable) (hPage : 0 < page) :
    Gives session (perform (Style.paint false) root revision (.tree path depth page))
      fun result _ => result = node.outline 0 path depth := by
  have hStart : Gives session (fun session => (.ok (session.add Path.root revision).1,
      (session.add Path.root revision).2)) fun start after =>
        after.Unread start Path.root revision stored :=
    ⟨_, _, rfl, hConsistent.continues_add Path.root revision, .root session hStored hBuilt⟩
  have hAbove : stored.ReadableAbove (Path.segments path) := fun front above hFront _ =>
    hWay front above hFront
  have hTop : node.Readable := hShown _ node.top_mem_down
  rw [perform]
  refine hStart.bind ?_
  intro start opened hOpened hUnread
  rw [resolve, Path.check_eq_ok_iff.mpr hPath]
  refine (gives_walk hUnread hOpened.consistent hAbove hNode path).bind ?_
  intro found walked hWalked hFound
  have hTarget := hFound.presents hTop
  have hBelow := Tree.nodeCount_le_of_walk? hNode
  exact gives_showTree hPage hTarget hWalked.consistent 0 path hShown (Nat.le_trans hBelow hSize)

end Command

/-- A tree that was read from a file is built. -/
theorem Command.built_of_loadTree {read : String → Option String} {file : String} {root : Tree}
    (h : loadTree read file = .ok root) : root.Built := by
  rw [loadTree] at h
  split at h
  · cases h
  · split at h
    · cases h
    · rename_i value _
      cases hTree : Tree.ofJson value with
      | error error =>
          rw [hTree] at h
          cases h
      | ok tree =>
          rw [hTree] at h
          cases h
          exact .ofJson hTree

open Command in
/-- The tree command prints the outline of the stored node, whatever the limits and the size of the
pages are, if the nodes that it reads can be loaded. So it ends and has a level left wherever it
goes down, since anything else fails, and runs that differ in limits and pages only print the same.
The outline has each node once, at the end of the names that lead to it. -/
theorem tree_prints_outline {read : String → Option String} {fixture path : String}
    {root stored node : Tree} {revision : Revision} {store : MemoryStore} {depth : Option Nat}
    (hRoot : loadTree read fixture = .ok root)
    (hCommit : MemoryStore.fresh.commit root = (revision, store))
    (hStored : store.root? revision = some stored) (hPath : Path.IsPath path)
    (hNode : stored.walk? (Path.segments path) = some node)
    (hWay : ∀ front above, front <+: Path.segments path → stored.walk? front = some above →
      above.Readable) (hShown : ∀ visit ∈ node.down depth, visit.2.Readable) :
    (∀ limits events page, 0 < page →
      (perform (Style.paint false) root revision (.tree path depth page)
        { store, config := limits, events }).1 = .ok (node.outline 0 path depth)) ∧
      (∀ verbose config limits events page, loadConfig read config = .ok (limits, events) →
        0 < page → (run false read ⟨verbose, config, fixture, .tree path depth page⟩).1 =
          .ok (String.join ((node.outline 0 path depth).map line))) ∧
      ((node.down depth).map Prod.fst).Nodup ∧
      ∀ route below, (route, below) ∈ node.down depth ↔
        node.walk? route = some below ∧ ∀ levels ∈ depth, route.length ≤ levels := by
  have hBuilt : stored.Built ∧ stored.nodeCount ≤ root.nodeCount := by
    rcases MemoryStore.eq_of_root?_commit_fresh hCommit hStored with rfl | rfl
    · exact ⟨built_of_loadTree hRoot, Nat.le_refl _⟩
    · exact ⟨.empty, root.nodeCount_pos⟩
  have hPerform : ∀ limits events page, 0 < page →
      (perform (Style.paint false) root revision (.tree path depth page)
        { store, config := limits, events }).1 = .ok (node.outline 0 path depth) := by
    intro limits events page hPage
    have hConsistent : Session.Consistent { store, config := limits, events } := by
      intro index snapshot content hSnapshot
      cases hSnapshot
    obtain ⟨lines, after, hAnswer, -, rfl⟩ :=
      gives_perform hConsistent hStored hBuilt.1 hBuilt.2 hPath hNode hWay hShown hPage
    rw [hAnswer]
  have hWellFormed := hBuilt.1.wellFormed.walk? hNode
  refine ⟨hPerform, ?_, hWellFormed.nodup_down, fun route below => hWellFormed.mem_down_iff⟩
  intro verbose config limits events page hConfig hPage
  have hWanted : wantsEmptyPages (.tree path depth page) = false := by
    cases page with
    | zero => exact absurd hPage (Nat.lt_irrefl 0)
    | succ page => rfl
  rw [Command.run, hConfig]
  simp only [hWanted, Bool.false_eq_true, if_false, hRoot, hCommit]
  exact congrArg (Except.map fun lines => String.join (lines.map line)) (hPerform _ _ _ hPage)

def Command.sampleRoot : Tree :=
  .node [("kind", .one (.text "top"))]
    [("left", .empty), ("right", .node [("a", .one (.text "b"))] [])]

def Command.sampleText : String :=
  "\x7b\"kind\":\"top\",\"left\":\x7b\x7d,\"right\":\x7b\"a\":\"b\"\x7d\x7d"

/-- With one child on each page, the root is printed with both children. -/
theorem tree_prints_outline_sample :
    (Command.run false (fun _ => some Command.sampleText)
        ⟨false, none, "tree.json", .tree "/" none 1⟩).1 =
      .ok "/\n  kind = \"top\"\n  left\n  right\n    a = \"b\"\n" := by
  have hRoot : Command.loadTree (fun _ => some Command.sampleText) "tree.json" =
      .ok Command.sampleRoot := by
    cbv
  have hNew : MemoryStore.fresh.head ≠ Revision.mint (some MemoryStore.fresh.head)
      Command.sampleRoot := by
    decide +kernel
  have hStored := MemoryStore.fresh.root?_committed Command.sampleRoot
  rw [MemoryStore.root?_fresh, if_neg hNew] at hStored
  have hSegments : Path.segments "/" = [] := Path.segments_root
  have hWay : ∀ front above, front <+: Path.segments "/" →
      Command.sampleRoot.walk? front = some above → above.Readable := by
    intro front above hFront hAbove
    rw [hSegments] at hFront
    rw [List.prefix_nil.mp hFront] at hAbove
    cases hAbove
    decide
  have hOutline : String.join ((Command.sampleRoot.outline 0 "/" none).map Command.line) =
      "/\n  kind = \"top\"\n  left\n  right\n    a = \"b\"\n" := by
    decide +kernel
  have hNode : Command.sampleRoot.walk? (Path.segments "/") = some Command.sampleRoot := by
    rw [hSegments]
    rfl
  rw [← hOutline]
  exact (tree_prints_outline hRoot (Prod.eta _).symm hStored (by decide) hNode hWay
    (by decide)).2.1 false none {} [] 1 rfl (by decide)

end PinnedTree
