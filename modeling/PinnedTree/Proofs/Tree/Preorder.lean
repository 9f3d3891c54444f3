import PinnedTree.Proofs.Tree.WellFormed

/-! The nodes of a tree in pre-order, each with the names that lead to it. In a well-formed tree
every node is there once, at the end of its path. -/
namespace PinnedTree.Tree

/-- A node, and the names that lead to it from the top of a tree. -/
abbrev Visit := List String × Tree

/-- The same node, seen from one level higher up. -/
def Visit.under (name : String) (visit : Visit) : Visit :=
  (name :: visit.1, visit.2)

mutual

/-- All nodes, a node before its children and these in order. -/
def preorder : Tree → List Visit
  | .node properties children => ([], .node properties children) :: preorderAll children

def preorderAll : List (String × Tree) → List Visit
  | [] => []
  | (name, child) :: rest => (preorder child).map (Visit.under name) ++ preorderAll rest

end

def Visit.Within (depth : Option Nat) (visit : Visit) : Prop :=
  ∀ levels ∈ depth, visit.1.length ≤ levels

instance (depth : Option Nat) (visit : Visit) : Decidable (visit.Within depth) :=
  inferInstanceAs (Decidable (∀ levels ∈ depth, visit.1.length ≤ levels))

/-- The nodes down to some depth. -/
def down (depth : Option Nat) (tree : Tree) : List Visit :=
  tree.preorder.filter fun visit => visit.Within depth

theorem preorderAll_eq (children : List (String × Tree)) :
    preorderAll children =
      children.flatMap fun child => child.2.preorder.map (Visit.under child.1) := by
  induction children with
  | nil => rfl
  | cons child rest ih => rw [preorderAll, ih, List.flatMap_cons]

/-- A node comes first, and then all nodes below its children, each with the name of the child in
front. -/
theorem preorder_eq (tree : Tree) :
    tree.preorder = ([], tree) ::
      tree.children.flatMap fun child => child.2.preorder.map (Visit.under child.1) := by
  cases tree with
  | node properties children => rw [preorder, preorderAll_eq]; rfl

/-! ### Down to a depth -/

/-- A node is within some levels of its parent exactly when it is within one less of the child. -/
theorem within_under {name : String} {visit : Visit} {next : Option Nat} :
    (visit.under name).Within (next.map (· + 1)) ↔ visit.Within next := by
  cases next with
  | none => exact ⟨nofun, nofun⟩
  | some levels => simp [Visit.Within, Visit.under]

/-- A node alone is wanted when there are no levels below it to go down. -/
theorem down_zero (tree : Tree) : tree.down (some 0) = [([], tree)] := by
  have hBelow : ∀ child : String × Tree,
      (child.2.preorder.map (Visit.under child.1)).filter (fun visit => visit.Within (some 0)) =
        [] := by
    intro child
    apply List.filter_eq_nil_iff.mpr
    intro visit hVisit
    obtain ⟨inner, -, rfl⟩ := List.mem_map.mp hVisit
    simp [Visit.Within, Visit.under]
  rw [down, preorder_eq, List.filter_cons_of_pos (by simp [Visit.Within]), List.filter_flatMap,
    List.flatMap_eq_nil_iff.mpr fun child _ => hBelow child]

/-- Otherwise the node is followed by what is below each child, one level less. -/
theorem down_next (tree : Tree) (next : Option Nat) :
    tree.down (next.map (· + 1)) = ([], tree) ::
      tree.children.flatMap fun child => (child.2.down next).map (Visit.under child.1) := by
  have hBelow : ∀ child : String × Tree,
      (child.2.preorder.map (Visit.under child.1)).filter
          (fun visit => visit.Within (next.map (· + 1))) =
        (child.2.down next).map (Visit.under child.1) := by
    intro child
    rw [List.filter_map, down]
    congr 2
    funext visit
    exact decide_eq_decide.mpr within_under
  rw [down, preorder_eq, List.filter_cons_of_pos (by cases next <;> simp [Visit.Within]),
    List.filter_flatMap]
  simp only [hBelow]

theorem top_mem_down (tree : Tree) {depth : Option Nat} : ([], tree) ∈ tree.down depth := by
  refine List.mem_filter.mpr ⟨?_, by simp [Visit.Within]⟩
  rw [preorder_eq]
  exact List.mem_cons_self

/-- What is within reach of a child is within reach of its parent, one level further down. -/
theorem under_mem_down {tree : Tree} {child : String × Tree} {next : Option Nat} {visit : Visit}
    (hChild : child ∈ tree.children) (h : visit ∈ child.2.down next) :
    visit.under child.1 ∈ tree.down (next.map (· + 1)) := by
  rw [down_next]
  exact List.mem_cons_of_mem _ (List.mem_flatMap.mpr ⟨child, hChild, List.mem_map_of_mem h⟩)

/-! ### Every node once -/

theorem map_fst_preorder (tree : Tree) :
    tree.preorder.map Prod.fst = [] :: tree.children.flatMap fun child =>
      (child.2.preorder.map Prod.fst).map (child.1 :: ·) := by
  rw [preorder_eq, List.map_cons, List.map_flatMap]
  simp only [List.map_map]
  rfl

/-- No two nodes have the same names leading to them. -/
theorem WellFormed.nodup_preorder {tree : Tree} (h : WellFormed tree) :
    (tree.preorder.map Prod.fst).Nodup := by
  induction h with
  | @intro tree own _ ih =>
      rw [map_fst_preorder]
      refine List.nodup_cons.mpr ⟨?_, List.nodup_flatMap.mpr ⟨?_, ?_⟩⟩
      · intro hTop
        obtain ⟨child, -, hRoute⟩ := List.mem_flatMap.mp hTop
        obtain ⟨route, -, hEmpty⟩ := List.mem_map.mp hRoute
        cases hEmpty
      · intro child hChild
        exact (ih child hChild).map (List.cons_injective)
      · apply (List.pairwise_map.mp own.children).imp
        intro left right hNames route hLeft hRight
        obtain ⟨first, -, rfl⟩ := List.mem_map.mp hLeft
        obtain ⟨second, -, hSame⟩ := List.mem_map.mp hRight
        exact hNames (List.cons.inj hSame).1.symm

/-- A node is visited under some names exactly if these lead to it. -/
theorem WellFormed.mem_preorder_iff {tree : Tree} (h : WellFormed tree) {route : List String}
    {below : Tree} : (route, below) ∈ tree.preorder ↔ tree.walk? route = some below := by
  induction h generalizing route with
  | @intro tree own _ ih =>
      rw [preorder_eq, List.mem_cons, List.mem_flatMap]
      cases route with
      | nil =>
          constructor
          · rintro (hTop | ⟨child, -, hVisit⟩)
            · cases hTop
              rfl
            · obtain ⟨visit, -, hEmpty⟩ := List.mem_map.mp hVisit
              cases hEmpty
          · intro hWalk
            cases hWalk
            exact .inl rfl
      | cons name route =>
          constructor
          · rintro (hTop | ⟨child, hChild, hVisit⟩)
            · cases hTop
            · obtain ⟨visit, hInner, hSame⟩ := List.mem_map.mp hVisit
              cases hSame
              have hFound : tree.child? child.1 = some child.2 :=
                (Members.find?_eq_some_iff own.children).mpr hChild
              rw [Tree.walk?, hFound]
              exact (ih child hChild).mp hInner
          · intro hWalk
            rw [Tree.walk?] at hWalk
            split at hWalk
            · rename_i child hFound
              have hChild := (Members.find?_eq_some_iff own.children).mp hFound
              exact .inr ⟨_, hChild, List.mem_map_of_mem ((ih _ hChild).mpr hWalk)⟩
            · cases hWalk

theorem WellFormed.of_mem_preorder {tree : Tree} (h : WellFormed tree) {visit : Visit}
    (hVisit : visit ∈ tree.preorder) : WellFormed visit.2 :=
  h.walk? (h.mem_preorder_iff.mp hVisit)

/-- Down to any depth, no two nodes have the same names leading to them. -/
theorem WellFormed.nodup_down {tree : Tree} (h : WellFormed tree) {depth : Option Nat} :
    ((tree.down depth).map Prod.fst).Nodup :=
  (List.filter_sublist.map Prod.fst).nodup h.nodup_preorder

/-- Down to some depth, a node is visited under some names exactly if these lead to it and are few
enough. -/
theorem WellFormed.mem_down_iff {tree : Tree} (h : WellFormed tree) {depth : Option Nat}
    {route : List String} {below : Tree} : (route, below) ∈ tree.down depth ↔
      tree.walk? route = some below ∧ ∀ levels ∈ depth, route.length ≤ levels := by
  rw [down, List.mem_filter, h.mem_preorder_iff, decide_eq_true_eq]
  rfl

/-! ### How many nodes there are -/

/-- A tree has its root, and the nodes of the trees below it. -/
theorem nodeCount_eq (tree : Tree) : tree.nodeCount = 1 + nodeCountAll tree.children := by
  cases tree with
  | node => rw [nodeCount, children]

theorem nodeCount_pos (tree : Tree) : 0 < tree.nodeCount := by
  rw [nodeCount_eq]
  omega

theorem nodeCount_le_nodeCountAll : ∀ {children : List (String × Tree)} {child : String × Tree},
    child ∈ children → child.2.nodeCount ≤ nodeCountAll children
  | _ :: _, _, .head _ => by
      rw [nodeCountAll]
      omega
  | _ :: _, _, .tail _ h => by
      have hRest := nodeCount_le_nodeCountAll h
      rw [nodeCountAll]
      omega

/-- Trees have at least one node each. -/
theorem length_le_nodeCountAll (children : List (String × Tree)) :
    children.length ≤ nodeCountAll children := by
  induction children with
  | nil => exact Nat.le_refl 0
  | cons child rest ih =>
      have hChild := child.2.nodeCount_pos
      rw [nodeCountAll, List.length_cons]
      omega

/-- A tree has more nodes than any tree below it. -/
theorem nodeCount_lt_of_mem {tree : Tree} {child : String × Tree} (h : child ∈ tree.children) :
    child.2.nodeCount < tree.nodeCount := by
  have hBelow := nodeCount_le_nodeCountAll h
  rw [nodeCount_eq tree]
  omega

/-- A tree has more nodes than its root has children. -/
theorem childCount_lt_nodeCount (tree : Tree) : tree.childCount < tree.nodeCount := by
  have hChildren := length_le_nodeCountAll tree.children
  rw [nodeCount_eq, childCount]
  omega

/-- No node that is found in a tree has more nodes below it. -/
theorem nodeCount_le_of_walk? {tree node : Tree} {names : List String}
    (h : tree.walk? names = some node) : node.nodeCount ≤ tree.nodeCount := by
  induction names generalizing tree with
  | nil =>
      cases h
      exact Nat.le_refl _
  | cons name names ih =>
      rw [walk?] at h
      split at h
      · rename_i child hChild
        have hLess := nodeCount_lt_of_mem (Members.mem_of_find? hChild)
        exact Nat.le_trans (ih h) (Nat.le_of_lt hLess)
      · cases h

end PinnedTree.Tree
