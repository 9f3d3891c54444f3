import PinnedTree.Proofs.Store.Memory
import PinnedTree.Proofs.Tree.Depth

/-! Windows of the children of a stored node. Windows of one size, each from where the one before it
ends, show every child that passes the filter once and in order. Whatever the window is, all
properties that pass are shown with it, and the total of all children. -/
namespace PinnedTree

section Tiles

variable {α : Type}

/-- Windows of one size that follow each other make up the front of a list. -/
theorem flatMap_window (size count : Nat) (list : List α) :
    ((List.range count).flatMap fun index => window (index * size) (some size) list) =
      list.take (count * size) := by
  induction count with
  | zero => rw [List.range_zero, List.flatMap_nil, Nat.zero_mul, List.take_zero]
  | succ count ih =>
      rw [List.range_succ, List.flatMap_append, ih, List.flatMap_singleton, Nat.succ_mul,
        List.take_add, window]

/-- Nothing is left behind the end of a list. -/
theorem window_of_length_le {list : List α} {offset : Nat} (h : list.length ≤ offset)
    (max : Option Nat) : window offset max list = [] := by
  cases max with
  | none => exact List.drop_of_length_le h
  | some max => rw [window, List.drop_of_length_le h, List.take_nil]

end Tiles

namespace Json

/-- The members of an object that are objects themselves. In the listing of a node they are the
children that it shows. -/
def objectMembers : Json → List (String × Json)
  | .object members => members.filter fun member => member.2.isObject
  | _ => []

def otherMembers : Json → List (String × Json)
  | .object members => members.filter fun member => !member.2.isObject
  | _ => []

end Json

namespace Tree

def passing (filter : Option NameFilter) (node : Tree) : List (String × Tree) :=
  node.children.filter fun child => showsNode filter child.1

variable {node : Tree} (max : Option Nat) (filter : Option NameFilter)

/-- No property is listed as an object. -/
theorem isObject_shownProperties : ∀ property ∈ node.shownProperties filter,
    property.2.isObject = false := by
  intro property hProperty
  obtain ⟨own, -, rfl⟩ := List.mem_map.mp hProperty
  exact isObject_propertyJson own.2

/-- Every child is listed as an object. -/
theorem isObject_shownChildren (children : List (String × Tree)) (depth : Nat) :
    ∀ member ∈ children.map fun child => (child.1, shownBelow max filter depth child.2),
      member.2.isObject = true := by
  intro member hMember
  obtain ⟨child, -, rfl⟩ := List.mem_map.mp hMember
  exact isObject_shownBelow max filter depth child.2

/-- The members of a listing that are objects are the children in the window. -/
theorem WellNamed.objectMembers_render (h : node.WellNamed) (depth offset : Nat) :
    (node.render max filter depth offset).objectMembers =
      (window offset max (node.passing filter)).map
        fun child => (child.1, shownBelow max filter depth child.2) := by
  have hProperties : (node.shownProperties filter).filter (fun member => member.2.isObject) = [] :=
    List.filter_eq_nil_iff.mpr fun property hProperty => by
      simp [isObject_shownProperties filter property hProperty]
  have hChildren := List.filter_eq_self.mpr
    (isObject_shownChildren max filter (node.shownChildren offset max filter) depth)
  rw [h.render_eq, Json.objectMembers, listing, List.filter_append, List.filter_append,
    hProperties, hChildren, List.nil_append]
  exact List.append_nil _

/-- The other members do not depend on the window. -/
theorem WellNamed.otherMembers_render (h : node.WellNamed) (depth offset : Nat) :
    (node.render max filter depth offset).otherMembers =
      node.shownProperties filter ++ [node.totalMember] := by
  have hProperties : (node.shownProperties filter).filter (fun member => !member.2.isObject) =
      node.shownProperties filter :=
    List.filter_eq_self.mpr fun property hProperty => by
      rw [isObject_shownProperties filter property hProperty, Bool.not_false]
  have hChildren : ((node.shownChildren offset max filter).map
      fun child => (child.1, shownBelow max filter depth child.2)).filter
        (fun member => !member.2.isObject) = [] :=
    List.filter_eq_nil_iff.mpr fun member hMember => by
      simp [isObject_shownChildren max filter _ depth member hMember]
  rw [h.render_eq, Json.otherMembers, listing, List.filter_append, List.filter_append,
    hProperties, hChildren, List.append_nil]
  rfl

/-- The children that pass differ in name. -/
theorem WellNamed.nodup_passing (h : node.WellNamed) :
    (Members.names (node.passing filter)).Nodup :=
  h.children.sublist (List.filter_sublist.map Prod.fst)

end Tree

/-- The windows of a stored node tile its children. At depth zero, the listings from the offsets 0,
`size`, 2 * `size` and so on with at most `size` children show, put together, what the listing
without a limit shows: every child that passes the filter, in order and once. Each of them, at any
offset, has all properties that pass, and the total of all children. From the number of passing
children on, a listing shows no child. -/
theorem windows_tile {store : MemoryStore} {path : String} {revision : Revision} {root node : Tree}
    (hRoot : store.root? revision = some root) (hBuilt : root.Built)
    (hNode : store.resolve path revision = .ok (some node)) (filter : Option NameFilter) :
    (∀ offset max, store.list { path, revision, depth := 0, offset, max, filter } =
        .ok (node.render max filter 0 offset).text) ∧
      (node.render none filter 0 0).objectMembers =
        (node.passing filter).map (fun child => (child.1, .object [])) ∧
      (Members.names (node.passing filter)).Nodup ∧
      (∀ size count,
        ((List.range count).flatMap fun index =>
            (node.render (some size) filter 0 (index * size)).objectMembers) =
          (node.render none filter 0 0).objectMembers.take (count * size)) ∧
      (∀ size count, 0 < size → (node.passing filter).length ≤ count →
        ((List.range count).flatMap fun index =>
            (node.render (some size) filter 0 (index * size)).objectMembers) =
          (node.render none filter 0 0).objectMembers) ∧
      (∀ offset max, (node.render max filter 0 offset).otherMembers =
        node.shownProperties filter ++ [node.totalMember]) ∧
      ∀ offset max, (node.passing filter).length ≤ offset →
        (node.render max filter 0 offset).objectMembers = [] := by
  obtain ⟨-, found, hFound, hWalk⟩ := MemoryStore.resolve_eq_ok hNode
  have hSame : found = root := Option.some.inj (hFound.symm.trans hRoot)
  rw [hSame] at hWalk
  have hNamed := (hBuilt.wellFormed.walk? hWalk).wellNamed
  have hObjects := fun max => hNamed.objectMembers_render max filter 0
  have hWhole : (node.render none filter 0 0).objectMembers =
      (node.passing filter).map fun child => (child.1, .object []) := hObjects none 0
  have hTiles : ∀ size count,
      ((List.range count).flatMap fun index =>
          (node.render (some size) filter 0 (index * size)).objectMembers) =
        (node.render none filter 0 0).objectMembers.take (count * size) := by
    intro size count
    simp only [hObjects, ← List.map_flatMap, flatMap_window, List.map_take]
    rfl
  refine ⟨?_, hWhole, hNamed.nodup_passing filter, hTiles, ?_, ?_, ?_⟩
  · intro offset max
    rw [MemoryStore.list, hNode]
    rfl
  · intro size count hSize hCount
    rw [hTiles, hWhole]
    apply List.take_of_length_le
    rw [List.length_map]
    exact Nat.le_trans hCount (Nat.le_mul_of_pos_right count hSize)
  · exact fun offset max => hNamed.otherMembers_render max filter 0 offset
  · intro offset max hOffset
    rw [hObjects, window_of_length_le hOffset, List.map_nil]

/-- The small store lists its two children one by one. -/
theorem windows_tile_sample :
    MemoryStore.sample.root? ⟨"r1"⟩ = some .sample ∧ Tree.sample.Built ∧
      MemoryStore.sample.resolve "/" ⟨"r1"⟩ = .ok (some .sample) ∧
      (Tree.sample.render (some 1) none 0 0).objectMembers ++
          (Tree.sample.render (some 1) none 0 1).objectMembers =
        [("left", .object []), ("right", .object [])] := by
  have hStored := MemoryStore.stored_sample
  obtain ⟨-, hWhole, -, -, hTiles, -⟩ := windows_tile rfl Tree.built_sample hStored.found none
  have hBoth := (hTiles 1 2 (by decide) (by decide)).trans hWhole
  exact ⟨rfl, Tree.built_sample, hStored.found, hBoth⟩

end PinnedTree
