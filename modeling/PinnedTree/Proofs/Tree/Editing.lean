import Mathlib.Data.List.Induction
import PinnedTree.Proofs.Tree.Property
import PinnedTree.Tree.Editing

/-! Edits of a node in place. A call checks before it writes, so one that fails changes nothing, and
one that succeeds leaves what an edit of a copy answers. Over a run of calls the two lists of a node
act as one ordered map from names to entries. -/
namespace PinnedTree

namespace Editing

def inPlace (node : Tree) : Except TreeError Tree → Except TreeError Unit × Tree
  | .ok next => (.ok (), next)
  | .error error => (.error error, node)

theorem inPlace_eq_ok_iff {node : Tree} {copy : Except TreeError Tree} :
    (inPlace node copy).1 = .ok () ↔ ∃ next, copy = .ok next := by
  cases copy with
  | error error => exact ⟨nofun, nofun⟩
  | ok next => exact ⟨fun _ => ⟨next, rfl⟩, fun _ => rfl⟩

/-- Writing a property step by step leaves the node as it is when it fails, and else what the setter
answers. -/
theorem run_setProperty (name : String) (value : Json) (node : Tree) :
    (setProperty name value).run node = inPlace node (node.setProperty name value) := by
  unfold setProperty checkMemberName checkPropertyValue Tree.setProperty
  by_cases hName : name = childNodeCount
  · rw [if_pos hName, if_pos hName]
    rfl
  · rw [if_neg hName, if_neg hName]
    cases Tree.propertyValue? value <;> rfl

/-- Writing a child step by step leaves the node as it is when it fails, and else what the setter
answers. -/
theorem run_setChild (name : String) (child node : Tree) :
    (setChild name child).run node = inPlace node (node.setChild name child) := by
  unfold setChild checkMemberName checkChildName Tree.setChild
  by_cases hName : name = childNodeCount
  · rw [if_pos hName, if_pos hName]
    rfl
  · rw [if_neg hName, if_neg hName]
    cases Path.checkName name <;> rfl

end Editing

/-! ### One call -/

namespace Edit

/-- What a call that succeeds makes of a node: the entry is written to the list of its kind, and its
name is dropped from the other. -/
inductive Writes (node : Tree) : Edit → Tree → Prop where
  | property {name : String} {value : Json} {property : OneOrMany Json.Atom}
      (hValue : Tree.propertyValue? value = some property)
      (h : node.setProperty name value =
        .ok (.node (node.properties.put name property) (node.children.without name))) :
      Writes node (.property name value)
        (.node (node.properties.put name property) (node.children.without name))
  | child {name : String} {child : Tree}
      (h : node.setChild name child =
        .ok (.node (node.properties.without name) (node.children.put name child))) :
      Writes node (.child name child)
        (.node (node.properties.without name) (node.children.put name child))

/-- A call is refused and changes nothing, or it writes. -/
theorem call_cases (edit : Edit) (node : Tree) :
    (∃ error, edit.call node = (.error error, node)) ∨
      ∃ next, edit.call node = (.ok (), next) ∧ Writes node edit next := by
  cases edit with
  | property name value =>
      rw [call, perform, Editing.run_setProperty]
      cases h : node.setProperty name value with
      | error error => exact .inl ⟨error, rfl⟩
      | ok next =>
          obtain ⟨-, property, hValue, rfl⟩ := Tree.setProperty_eq_ok h
          exact .inr ⟨_, rfl, .property hValue h⟩
  | child name child =>
      rw [call, perform, Editing.run_setChild]
      cases h : node.setChild name child with
      | error error => exact .inl ⟨error, rfl⟩
      | ok next =>
          obtain ⟨-, -, rfl⟩ := Tree.setChild_eq_ok h
          exact .inr ⟨_, rfl, .child h⟩

variable {edit : Edit} {node next : Tree}

/-- The names and values that can be written, whatever the node has. -/
def IsAccepted : Edit → Prop
  | .property name value => name ≠ childNodeCount ∧ value.IsPropertyValue
  | .child name _ => name ≠ childNodeCount ∧ Path.IsName name

/-- Whether a call succeeds depends on the name and the value only. -/
theorem call_eq_ok_iff : (edit.call node).1 = .ok () ↔ edit.IsAccepted := by
  cases edit with
  | property name value =>
      rw [call, perform, Editing.run_setProperty, Editing.inPlace_eq_ok_iff]
      exact Tree.exists_setProperty_iff
  | child name child =>
      rw [call, perform, Editing.run_setChild, Editing.inPlace_eq_ok_iff]
      exact Tree.exists_setChild_iff

/-- A call that fails leaves the node as it was. -/
theorem eq_of_call_eq_error {error : TreeError} (h : edit.call node = (.error error, next)) :
    next = node := by
  rcases call_cases edit node with ⟨refusal, hCall⟩ | ⟨written, hCall, -⟩
  · rw [hCall] at h
    exact (congrArg Prod.snd h).symm
  · rw [hCall] at h
    cases h

/-- A call that succeeds writes its entry, and drops the name from the other list. -/
theorem writes_of_call (h : edit.call node = (.ok (), next)) : Writes node edit next := by
  rcases call_cases edit node with ⟨refusal, hCall⟩ | ⟨written, hCall, hWrites⟩
  · rw [hCall] at h
    cases h
  · rw [hCall] at h
    cases h
    exact hWrites

/-- After a successful call the name is what was written, and only that. -/
theorem property?_of_call (h : edit.call node = (.ok (), next)) (name : String) :
    (next.property? name).map Tree.propertyJson =
      if edit.name = name then edit.property? else (node.property? name).map Tree.propertyJson := by
  cases writes_of_call h with
  | property hValue _ =>
      rw [Tree.property?, Tree.properties, Members.find?_put]
      split
      · rename_i hSame
        rw [Option.map_some, Tree.propertyJson_of_propertyValue? hValue]
        exact (if_pos hSame).symm
      · rename_i hOther
        exact (if_neg hOther).symm
  | child _ =>
      rw [Tree.property?, Tree.properties, Members.find?_without]
      exact apply_ite (Option.map Tree.propertyJson) _ _ _

/-- A call that succeeds decides about its own name, and about no other. -/
theorem child?_of_call (h : edit.call node = (.ok (), next)) (name : String) :
    next.child? name = if edit.name = name then edit.child? else node.child? name := by
  cases writes_of_call h with
  | property _ _ => exact Members.find?_without _ _ _
  | child _ => exact Members.find?_put _ _ _ _

/-- Properties of other names stay as they are, in order. -/
theorem filter_properties_of_call {keep : String → Bool} (h : edit.call node = (.ok (), next))
    (hKeep : keep edit.name = false) :
    next.properties.filter (fun property => keep property.1) =
      node.properties.filter fun property => keep property.1 := by
  cases writes_of_call h with
  | property _ _ => exact Members.filter_put hKeep
  | child _ => exact Members.filter_without hKeep

/-- Children of other names stay as they are, in order. -/
theorem filter_children_of_call {keep : String → Bool} (h : edit.call node = (.ok (), next))
    (hKeep : keep edit.name = false) :
    next.children.filter (fun child => keep child.1) =
      node.children.filter fun child => keep child.1 := by
  cases writes_of_call h with
  | property _ _ => exact Members.filter_without hKeep
  | child _ => exact Members.filter_put hKeep

def ownNames : Edit → Tree → List String
  | .property _ _, node => Members.names node.properties
  | .child _ _, node => Members.names node.children

def otherNames : Edit → Tree → List String
  | .property _ _, node => Members.names node.children
  | .child _ _, node => Members.names node.properties

/-- A name of the same kind stays where it is. Any other goes to the end, and is gone from the
other kind. -/
theorem names_of_call (h : edit.call node = (.ok (), next)) :
    edit.ownNames next = (if edit.name ∈ edit.ownNames node then edit.ownNames node
      else edit.ownNames node ++ [edit.name]) ∧
    edit.otherNames next = (edit.otherNames node).filter (· ≠ edit.name) := by
  cases writes_of_call h with
  | property _ _ => exact ⟨Members.names_put _ _ _, Members.names_without _ _⟩
  | child _ => exact ⟨Members.names_put _ _ _, Members.names_without _ _⟩

/-- The last call on a name, if there is one. -/
def lastOn? (name : String) (calls : List Edit) : Option Edit :=
  lastCalled? (fun edit => some edit.name) name calls

theorem lastOn?_concat (name : String) (front : List Edit) (edit : Edit) :
    lastOn? name (front ++ [edit]) = if edit.name = name then some edit else lastOn? name front :=
  (lastCalled?_concat front edit).trans (if_congr Option.some_inj rfl rfl)

end Edit

/-! ### A run of calls -/

namespace Tree

variable {start : Tree}

theorem edited_concat (front : List Edit) (edit : Edit) :
    start.edited (front ++ [edit]) = (edit.call (start.edited front)).2 :=
  List.foldl_concat _ _ _ _

/-- What holds at the start and is kept by every successful call holds after a run, since the calls
that fail change nothing. -/
theorem edited_induction {motive : Tree → List Edit → Prop} (edits : List Edit)
    (initial : motive start [])
    (step : ∀ {node done edit next}, motive node done → edit.call node = (.ok (), next) →
      motive next (done ++ [edit])) : motive (start.edited edits) (start.succeeding edits) := by
  suffices general : ∀ node done, motive node done →
      motive (node.edited edits) (done ++ node.succeeding edits) from general start [] initial
  induction edits with
  | nil =>
      intro node done h
      rw [succeeding, List.append_nil]
      exact h
  | cons edit edits ih =>
      intro node done h
      rw [succeeding, edited, List.foldl_cons]
      split
      · rename_i next hCall
        have hRest := ih next (done ++ [edit]) (step h hCall)
        rw [List.append_assoc, List.singleton_append] at hRest
        rw [hCall]
        exact hRest
      · rename_i error next hCall
        have hSame := Edit.eq_of_call_eq_error hCall
        rw [hCall, hSame]
        exact ih node done h

theorem succeeding_sublist (edits : List Edit) : (start.succeeding edits).Sublist edits := by
  induction edits generalizing start with
  | nil => exact List.Sublist.slnil
  | cons edit edits ih =>
      rw [succeeding]
      split
      · exact ih.cons_cons edit
      · exact ih.cons edit

/-- What a call decides alone for its name is decided by the last call on the name. -/
theorem last_decides {β : Type} {view : Tree → β} {written : Edit → β} {name : String}
    (hCall : ∀ {edit : Edit} {node next : Tree}, edit.call node = (.ok (), next) →
      view next = if edit.name = name then written edit else view node) (edits : List Edit) :
    view (start.edited edits) =
      (Edit.lastOn? name (start.succeeding edits)).elim (view start) written := by
  refine edited_induction
    (motive := fun node done => view node = (Edit.lastOn? name done).elim (view start) written)
    edits rfl ?_
  intro node done edit next ih h
  rw [Edit.lastOn?_concat, hCall h, ih]
  by_cases hName : edit.name = name
  · simp [hName]
  · simp [hName]

/-- Whether no successful call was on a name. -/
def isUntouched (start : Tree) (edits : List Edit) (name : String) : Bool :=
  name ∉ (start.succeeding edits).map Edit.name

/-- What no call on other names can change stays as it was. -/
theorem untouched {β : Type} {view : Tree → β} {edits : List Edit}
    (hCall : ∀ {edit : Edit} {node next : Tree}, edit.call node = (.ok (), next) →
      start.isUntouched edits edit.name = false → view next = view node) :
    view (start.edited edits) = view start := by
  have hTouched : ∀ edit ∈ start.succeeding edits,
      start.isUntouched edits edit.name = false := fun edit h =>
    decide_eq_false (not_not.mpr (List.mem_map_of_mem h))
  refine edited_induction
    (motive := fun node done =>
      (∀ edit ∈ done, start.isUntouched edits edit.name = false) → view node = view start)
    edits (fun _ => rfl) ?_ hTouched
  intro node done edit next ih h hDone
  rw [hCall h (hDone edit (List.mem_append_right _ List.mem_cons_self))]
  exact ih fun other hOther => hDone other (List.mem_append_left _ hOther)

/-- Trees that can be made stay so under calls with children that can be made. -/
theorem Built.edited (hStart : Built start) {edits : List Edit}
    (hEdits : ∀ edit ∈ edits, ∀ child ∈ edit.child?, Built child) : Built (start.edited edits) := by
  refine edited_induction
    (motive := fun node done => (∀ edit ∈ done, ∀ child ∈ edit.child?, Built child) → Built node)
    edits (fun _ => hStart) ?_ fun edit h => hEdits edit ((succeeding_sublist edits).subset h)
  intro node done edit next ih h hDone
  have hNode := ih fun other hOther => hDone other (List.mem_append_left _ hOther)
  have hChild := hDone edit (List.mem_append_right _ List.mem_cons_self)
  cases Edit.writes_of_call h with
  | property _ hSet => exact .setProperty hNode hSet
  | child hSet => exact .setChild hNode (hChild _ rfl) hSet

end Tree

/-- A node is an ordered map under edits. A call succeeds exactly if its name and value can be
written. One that fails leaves the node as it is. One that succeeds keeps the place of a name of its
kind, puts any other name at the end, and removes it from the other kind. After all calls a name is
what the last successful call on it wrote, or what it was at the start, and the entries that no
successful call was on stand in the order they had. -/
theorem edits_as_ordered_map (start : Tree) (edits : List Edit) :
    (∀ front edit,
      ((edit.call (start.edited front)).1 = .ok () ↔ edit.IsAccepted) ∧
      (∀ error, (edit.call (start.edited front)).1 = .error error →
        start.edited (front ++ [edit]) = start.edited front) ∧
      ((edit.call (start.edited front)).1 = .ok () →
        edit.ownNames (start.edited (front ++ [edit])) =
          (if edit.name ∈ edit.ownNames (start.edited front) then
            edit.ownNames (start.edited front)
          else edit.ownNames (start.edited front) ++ [edit.name]) ∧
        edit.otherNames (start.edited (front ++ [edit])) =
          (edit.otherNames (start.edited front)).filter (· ≠ edit.name))) ∧
    (∀ name,
      ((start.edited edits).property? name).map Tree.propertyJson =
        (Edit.lastOn? name (start.succeeding edits)).elim
          ((start.property? name).map Tree.propertyJson) Edit.property? ∧
      (start.edited edits).child? name =
        (Edit.lastOn? name (start.succeeding edits)).elim (start.child? name) Edit.child?) ∧
    (start.edited edits).properties.filter (fun property => start.isUntouched edits property.1) =
      start.properties.filter (fun property => start.isUntouched edits property.1) ∧
    (start.edited edits).children.filter (fun child => start.isUntouched edits child.1) =
      start.children.filter (fun child => start.isUntouched edits child.1) := by
  refine ⟨?_, ?_, ?_, ?_⟩
  · intro front edit
    rw [Tree.edited_concat]
    refine ⟨Edit.call_eq_ok_iff, ?_, ?_⟩
    · intro error h
      exact Edit.eq_of_call_eq_error (Prod.ext h rfl)
    · intro h
      exact Edit.names_of_call (Prod.ext h rfl)
  · intro name
    exact ⟨Tree.last_decides (fun h => Edit.property?_of_call h name) edits,
      Tree.last_decides (fun h => Edit.child?_of_call h name) edits⟩
  · exact Tree.untouched fun hCall hTouched => Edit.filter_properties_of_call hCall hTouched
  · exact Tree.untouched fun hCall hTouched => Edit.filter_children_of_call hCall hTouched

def Tree.beforeEdits : Tree :=
  .node [("size", .one (.number (.integer 3)))] [("left", .empty), ("right", .empty)]

/-- A property becomes a child and goes to the end. The call behind it is refused. -/
theorem edits_as_ordered_map_sample :
    ((Edit.child "size" .empty).call .beforeEdits).1 = .ok () ∧
      Members.names (Tree.beforeEdits.edited [.child "size" .empty]).children =
        ["left", "right", "size"] ∧
      ((Edit.property childNodeCount .null).call
        (Tree.beforeEdits.edited [.child "size" .empty])).1 = .error .reservedName ∧
      Tree.beforeEdits.edited [.child "size" .empty, .property childNodeCount .null] =
        Tree.beforeEdits.edited [.child "size" .empty] ∧
      (Tree.beforeEdits.edited [.child "size" .empty, .property childNodeCount .null]).child?
        "size" = some .empty := by
  obtain ⟨hSteps, hNames, -, -⟩ := edits_as_ordered_map .beforeEdits
    [.child "size" .empty, .property childNodeCount .null]
  have hWritten := (hSteps [] (.child "size" .empty)).2.2 rfl
  have hRefused := (hSteps [.child "size" .empty] (.property childNodeCount .null)).2.1
    .reservedName rfl
  exact ⟨rfl, hWritten.1, rfl, hRefused, (hNames "size").2⟩

end PinnedTree
