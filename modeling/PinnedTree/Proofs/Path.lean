import PinnedTree.Path

/-! Going down one level. A path with one more name is a path again, and it has one more segment,
the name itself. A text that is no name leads elsewhere. So the paths are the lists of names: each
is reached from the root along its segments, and different names lead to different paths. -/
namespace PinnedTree.Path

theorem splitOn_name {name : String} (h : IsName name) :
    name.toList.splitOn '/' = [name.toList] :=
  List.splitOn_eq_singleton h.2

theorem toList_ne_nil {name : String} (h : IsName name) : name.toList ≠ [] :=
  fun hEmpty => h.1 (String.toList_eq_nil_iff.mp hEmpty)

/-- What the paths below a parent have before their last separator. -/
def stem (parent : String) : List Char :=
  if parent = root then [] else parent.toList

/-- The path of a child is the stem of its parent, a separator and the name. -/
theorem toList_child (parent name : String) :
    (child parent name).toList = stem parent ++ '/' :: name.toList := by
  rw [child, stem]
  split
  · rw [String.toList_append]
    rfl
  · rw [String.toList_append, String.toList_append, List.append_assoc]
    rfl

/-- Below one parent, different names lead to different paths. -/
theorem child_injective (parent : String) : Function.Injective (child parent) := by
  intro left right h
  have hBoth := congrArg String.toList h
  rw [toList_child, toList_child] at hBoth
  exact String.toList_inj.mp (List.cons.inj (List.append_cancel_left hBoth)).2

theorem segments_root : segments root = [] := by
  decide

theorem segments_name {name : String} (h : IsName name) : segments name = [name] := by
  simp [segments, splitOn_name h, toList_ne_nil h]

/-- No separator is left where a text was split at all of them. -/
theorem separator_notMem_of_mem_splitOn {text segment : List Char}
    (h : segment ∈ text.splitOn '/') : '/' ∉ segment := by
  induction text generalizing segment with
  | nil =>
      rw [List.splitOn_nil] at h
      rw [List.mem_singleton.mp h]
      exact List.not_mem_nil
  | cons c text ih =>
      rw [List.splitOn_cons_eq_if_modifyHead] at h
      split at h
      · rcases List.mem_cons.mp h with rfl | hRest
        · exact List.not_mem_nil
        · exact ih hRest
      · rename_i hOther
        obtain ⟨first, rest, hSplit⟩ := List.exists_cons_of_ne_nil (List.splitOn_ne_nil '/' text)
        rw [hSplit] at h ih
        rcases List.mem_cons.mp h with rfl | hRest
        · rw [List.mem_cons, not_or]
          exact ⟨fun hSame => hOther (beq_iff_eq.mpr hSame.symm), ih List.mem_cons_self⟩
        · exact ih (List.mem_cons_of_mem _ hRest)

/-- The segments of any text are names. -/
theorem isName_of_mem_segments {path name : String} (h : name ∈ segments path) : IsName name := by
  obtain ⟨segment, hSegment, rfl⟩ := List.mem_map.mp h
  obtain ⟨hSplit, hFull⟩ := List.mem_filter.mp hSegment
  refine ⟨fun hEmpty => of_decide_eq_true hFull (String.ofList_eq_empty_iff.mp hEmpty), ?_⟩
  rw [String.toList_ofList]
  exact separator_notMem_of_mem_splitOn hSplit

/-- What is added to a path comes behind all of its names. -/
theorem segments_append (parent name : String) :
    segments (child parent name) = segments parent ++ segments name := by
  have hStem : (((stem parent).splitOn '/').filter (· ≠ [])).map String.ofList =
      segments parent := by
    rw [stem]
    split
    · rename_i hRoot
      rw [hRoot, segments_root]
      rfl
    · rfl
  rw [segments, toList_child, List.splitOn_append_cons_self, List.filter_append, List.map_append,
    hStem]
  rfl

/-- Going down adds the name behind all others. -/
theorem segments_child {parent name : String} (hName : IsName name) :
    segments (child parent name) = segments parent ++ [name] := by
  rw [segments_append, segments_name hName]

/-- Below a path there is a path if no two separators follow each other, and none comes last. -/
theorem isPath_child_iff {parent name : String} (hParent : IsPath parent) :
    IsPath (child parent name) ↔
      child parent name = root ∨ ∀ segment ∈ name.toList.splitOn '/', segment ≠ [] := by
  rw [IsPath, toList_child]
  apply or_congr_right
  by_cases hRoot : parent = root
  · rw [stem, if_pos hRoot]
    exact and_iff_right rfl
  · obtain ⟨hHead, hSegments⟩ := hParent.resolve_left hRoot
    obtain ⟨rest, hRest⟩ : ∃ rest, parent.toList = '/' :: rest :=
      List.head?_eq_some_iff.mp hHead
    rw [hRest, List.tail_cons] at hSegments
    rw [stem, if_neg hRoot, hRest, List.cons_append, List.tail_cons,
      List.splitOn_append_cons_self]
    refine (and_iff_right rfl).trans ⟨?_, ?_⟩
    · intro h segment hSegment
      exact h segment (List.mem_append_right _ hSegment)
    · intro h segment hSegment
      exact (List.mem_append.mp hSegment).elim (hSegments segment) (h segment)

/-- The path of a child is a path. -/
theorem isPath_child {parent name : String} (hParent : IsPath parent) (hName : IsName name) :
    IsPath (child parent name) := by
  refine (isPath_child_iff hParent).mpr (Or.inr ?_)
  rw [splitOn_name hName]
  exact fun segment h => List.mem_singleton.mp h ▸ toList_ne_nil hName

/-! ### Going down all the way -/

/-- No child is the root. -/
theorem child_ne_root {name : String} (hName : name ≠ "") (parent : String) :
    child parent name ≠ root := by
  intro hRoot
  have hLength := congrArg List.length (congrArg String.toList hRoot)
  rw [toList_child, List.length_append, List.length_cons] at hLength
  have hPositive := List.length_pos_iff.mpr fun hEmpty => hName (String.toList_eq_nil_iff.mp hEmpty)
  have hOne : root.toList.length = 1 := by decide
  omega

theorem stem_child {name : String} (hName : name ≠ "") (parent : String) :
    stem (child parent name) = stem parent ++ '/' :: name.toList := by
  rw [stem, if_neg (child_ne_root hName parent), toList_child]

/-- Going down by names appends them with one separator before each. -/
theorem toList_foldl_child {names : List String} (hNames : ∀ name ∈ names, name ≠ "")
    (hSome : names ≠ []) (parent : String) :
    (names.foldl child parent).toList =
      stem parent ++ '/' :: ['/'].intercalate (names.map String.toList) := by
  induction names generalizing parent with
  | nil => exact absurd rfl hSome
  | cons name rest ih =>
      obtain ⟨hName, hRest⟩ := List.forall_mem_cons.mp hNames
      cases rest with
      | nil => simp [toList_child]
      | cons next rest =>
          rw [List.foldl_cons, ih hRest (List.cons_ne_nil _ _), stem_child hName, List.map_cons,
            List.map_cons, List.map_cons, List.intercalate_cons_cons]
          simp

/-- A path that is not the root is spelled by its segments. -/
theorem segments_eq_map {path : String} {rest : List Char} (hPath : path.toList = '/' :: rest)
    (hFull : ∀ segment ∈ rest.splitOn '/', segment ≠ []) :
    segments path = (rest.splitOn '/').map String.ofList := by
  have hSplit : path.toList.splitOn '/' = [] :: rest.splitOn '/' := by
    rw [hPath]
    exact List.splitOn_append_cons_self [] rest
  rw [segments, hSplit, List.filter_cons_of_neg (by simp),
    List.filter_eq_self.mpr fun segment hSegment => decide_eq_true (hFull segment hSegment)]

/-- The names along a path lead from the root to the path. -/
theorem foldl_child_segments {path : String} (h : IsPath path) :
    (segments path).foldl child root = path := by
  rcases h with rfl | ⟨hHead, hFull⟩
  · rw [segments_root, List.foldl_nil]
  · obtain ⟨rest, hRest⟩ : ∃ rest, path.toList = '/' :: rest := List.head?_eq_some_iff.mp hHead
    rw [hRest, List.tail_cons] at hFull
    have hSegments := segments_eq_map hRest hFull
    have hNames : ∀ name ∈ segments path, name ≠ "" := fun name hName =>
      (isName_of_mem_segments hName).1
    have hSome : segments path ≠ [] := by
      rw [hSegments]
      exact fun hNone => List.splitOn_ne_nil '/' rest (List.map_eq_nil_iff.mp hNone)
    apply String.toList_inj.mp
    rw [toList_foldl_child hNames hSome, hSegments, List.map_map, hRest]
    have hStem : stem root = [] := if_pos rfl
    have hText : (rest.splitOn '/').map (String.toList ∘ String.ofList) = rest.splitOn '/' := by
      simp
    rw [hStem, hText, List.intercalate_splitOn, List.nil_append]

/-! ### One level down -/

/-- A path with one more name than another, which comes last. -/
structure OneBelow (parent path : String) : Prop where
  isPath : IsPath path
  segments : ∃ name, segments path = segments parent ++ [name]

/-- A text that is one segment as it stands is a name. -/
theorem isName_of_segments {name segment : String}
    (hFull : ∀ part ∈ name.toList.splitOn '/', part ≠ []) (h : segments name = [segment]) :
    IsName name := by
  refine ⟨?_, ?_⟩
  · rintro rfl
    cases h
  · intro hSeparator
    obtain ⟨front, rest, hSplit⟩ := List.append_of_mem hSeparator
    rw [hSplit, List.splitOn_append_cons_self] at hFull
    rw [segments, hSplit, List.splitOn_append_cons_self,
      List.filter_eq_self.mpr fun part hPart => decide_eq_true (hFull part hPart)] at h
    have hLength := congrArg List.length h
    rw [List.length_map, List.length_append, List.length_singleton] at hLength
    have hFront := List.length_pos_iff.mpr (List.splitOn_ne_nil '/' front)
    have hRest := List.length_pos_iff.mpr (List.splitOn_ne_nil '/' rest)
    omega

/-- Nothing but a name leads exactly one level down. -/
theorem oneBelow_child_iff {parent name : String} (hParent : IsPath parent) :
    OneBelow parent (child parent name) ↔ IsName name := by
  constructor
  · rintro ⟨hPath, last, hSegments⟩
    rw [segments_append] at hSegments
    have hName : segments name = [last] := List.append_cancel_left hSegments
    have hNotRoot : child parent name ≠ root := by
      intro hRoot
      have hNone := segments_append parent name
      rw [hRoot, segments_root, hName] at hNone
      exact List.append_ne_nil_of_right_ne_nil _ (List.cons_ne_nil _ _) hNone.symm
    exact isName_of_segments (((isPath_child_iff hParent).mp hPath).resolve_left hNotRoot) hName
  · intro hName
    exact ⟨isPath_child hParent hName, name, segments_child hName⟩

/-! ### Paths and lists of names -/

theorem isPath_root : IsPath root :=
  .inl rfl

/-- Going down by names stays among the paths. -/
theorem isPath_foldl_child {names : List String} (hNames : ∀ name ∈ names, IsName name)
    {parent : String} (hParent : IsPath parent) : IsPath (names.foldl child parent) := by
  induction names generalizing parent with
  | nil => exact hParent
  | cons name rest ih =>
      obtain ⟨hName, hRest⟩ := List.forall_mem_cons.mp hNames
      exact ih hRest (isPath_child hParent hName)

/-- Going down by names puts them behind the segments. -/
theorem segments_foldl_child {names : List String} (hNames : ∀ name ∈ names, IsName name)
    (parent : String) : segments (names.foldl child parent) = segments parent ++ names := by
  induction names generalizing parent with
  | nil => rw [List.foldl_nil, List.append_nil]
  | cons name rest ih =>
      obtain ⟨hName, hRest⟩ := List.forall_mem_cons.mp hNames
      rw [List.foldl_cons, ih hRest, segments_child hName, List.append_assoc,
        List.singleton_append]

/-- A path other than the root has names along it. -/
theorem segments_ne_nil {path : String} (h : IsPath path) (hRoot : path ≠ root) :
    segments path ≠ [] := by
  intro hNone
  have hPath := foldl_child_segments h
  rw [hNone, List.foldl_nil] at hPath
  exact hRoot hPath.symm

/-- The paths are what is reached from the root along names. -/
theorem isPath_iff {path : String} :
    IsPath path ↔ path = root ∨
      ∃ names, names ≠ [] ∧ (∀ name ∈ names, IsName name) ∧ names.foldl child root = path := by
  constructor
  · intro h
    by_cases hRoot : path = root
    · exact .inl hRoot
    · exact .inr ⟨segments path, segments_ne_nil h hRoot, fun _ => isName_of_mem_segments,
        foldl_child_segments h⟩
  · rintro (rfl | ⟨names, -, hNames, rfl⟩)
    · exact isPath_root
    · exact isPath_foldl_child hNames isPath_root

/-- Paths with the same segments are the same. -/
theorem eq_of_segments {left right : String} (hLeft : IsPath left) (hRight : IsPath right)
    (h : segments left = segments right) : left = right := by
  rw [← foldl_child_segments hLeft, h, foldl_child_segments hRight]

/-- A path below another tells both the path above and the name. -/
theorem child_inj {parent other name next : String} (hParent : IsPath parent)
    (hOther : IsPath other) (hName : IsName name) (hNext : IsName next)
    (h : child parent name = child other next) : parent = other ∧ name = next := by
  have hSegments := congrArg segments h
  rw [segments_child hName, segments_child hNext] at hSegments
  obtain ⟨hFront, hLast⟩ := List.append_inj' hSegments rfl
  exact ⟨eq_of_segments hParent hOther hFront, (List.cons.inj hLast).1⟩

end PinnedTree.Path

namespace PinnedTree

/-- Paths and lists of names are the same thing. A text is accepted as a path exactly if it is the
root or is reached from it along one or more names, which are not empty and have no separator. The
path below a path has one more segment, the name, and tells both; and each path is reached along its
own segments and no other names. -/
theorem paths_as_names :
    (∀ name, Path.checkName name = .ok () ↔ name ≠ "" ∧ '/' ∉ name.toList) ∧
      (∀ path, Path.check path = .ok () ↔ path = Path.root ∨
        ∃ names, names ≠ [] ∧ (∀ name ∈ names, Path.checkName name = .ok ()) ∧
          names.foldl Path.child Path.root = path) ∧
      (∀ path name, Path.check path = .ok () → Path.checkName name = .ok () →
        Path.check (Path.child path name) = .ok () ∧
          Path.segments (Path.child path name) = Path.segments path ++ [name]) ∧
      (∀ path, Path.check path = .ok () →
        (Path.segments path).foldl Path.child Path.root = path) ∧
      (∀ path other name next, Path.check path = .ok () → Path.check other = .ok () →
        Path.checkName name = .ok () → Path.checkName next = .ok () →
        Path.child path name = Path.child other next → path = other ∧ name = next) ∧
      ∀ names others : List String, (∀ name ∈ names, Path.checkName name = .ok ()) →
        (∀ name ∈ others, Path.checkName name = .ok ()) → names ≠ others →
        names.foldl Path.child Path.root ≠ others.foldl Path.child Path.root := by
  simp only [Path.check_eq_ok_iff, Path.checkName_eq_ok_iff]
  refine ⟨fun _ => Iff.rfl, fun _ => Path.isPath_iff, fun path name hPath hName => ?_,
    fun _ => Path.foldl_child_segments, fun path other name next => Path.child_inj, ?_⟩
  · exact ⟨Path.isPath_child hPath hName, Path.segments_child hName⟩
  · intro names others hNames hOthers hNe hSame
    have hSegments := congrArg Path.segments hSame
    rw [Path.segments_foldl_child hNames, Path.segments_foldl_child hOthers] at hSegments
    exact hNe (List.append_cancel_left hSegments)

/-- A name of blanks and dots is one segment, and two names do not lead where a single one that
looks like them leads. -/
theorem paths_as_names_sample :
    Path.check "/a/. ." = .ok () ∧
      Path.segments (Path.child "/a/. ." "b") = ["a", ". .", "b"] ∧
      ["a", ". ."].foldl Path.child Path.root ≠ ["a. ."].foldl Path.child Path.root := by
  obtain ⟨-, -, hChild, -, -, hNames⟩ := paths_as_names
  have hPath : Path.check "/a/. ." = .ok () := Path.check_eq_ok_iff.mpr (by decide)
  have hName (name : String) (h : Path.IsName name) : Path.checkName name = .ok () :=
    Path.checkName_eq_ok_iff.mpr h
  have hSegments : Path.segments "/a/. ." = ["a", ". ."] := by decide
  refine ⟨hPath, ?_, hNames _ _ ?_ ?_ (by decide)⟩
  · rw [(hChild _ "b" hPath (hName _ (by decide))).2, hSegments]
    rfl
  · exact List.forall_mem_cons.mpr ⟨hName _ (by decide),
      List.forall_mem_singleton.mpr (hName _ (by decide))⟩
  · exact List.forall_mem_singleton.mpr (hName _ (by decide))

end PinnedTree
