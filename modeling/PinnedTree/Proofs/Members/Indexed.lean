import PinnedTree.Members.Indexed
import PinnedTree.Proofs.Members

/-! Members with an index are members. While the names differ and the index has the position of
each, writing and looking up by the index is writing and looking up without it, and no position lies
outside of the array. -/
namespace PinnedTree

namespace Members

variable {α : Type} {name : String} {value : α} {members : Members α}

/-- A name that stands already is written at its position. -/
theorem put_eq_set (hDistinct : (names members).Nodup) {position : Nat}
    (hName : (names members)[position]? = some name) :
    put name value members = members.set position (name, value) := by
  induction members generalizing position with
  | nil => cases hName
  | cons member rest ih =>
      obtain ⟨hFresh, hRest⟩ := List.nodup_cons.mp hDistinct
      obtain ⟨key, old⟩ := member
      cases position with
      | zero =>
          have hSame : key = name := Option.some.inj hName
          rw [put, if_pos hSame]
          rfl
      | succ position =>
          have hOther : key ≠ name := by
            rintro rfl
            exact hFresh (List.mem_of_getElem? hName)
          rw [put, if_neg hOther, ih hRest hName]
          rfl

end Members

namespace IndexedMembers

variable {α : Type} {name : String} {value : α} {members : Members α}

/-- The index has the position of each name, and the names differ. -/
structure InStep (table : IndexedMembers α) : Prop where
  distinct : table.names.Nodup
  position : ∀ name position,
    table.positions.find? name = some position ↔ table.names[position]? = some name

def ofMembers (members : Members α) : IndexedMembers α where
  entries := members.toArray
  positions := members.names.mapIdx fun position name => (name, position)

theorem names_ofMembers (members : Members α) : (ofMembers members).names = members.names := rfl

theorem names_positions (members : Members α) :
    Members.names (ofMembers members).positions = members.names := by
  apply List.ext_getElem?
  intro position
  rw [Members.names, List.getElem?_map, ofMembers, List.getElem?_mapIdx, Option.map_map]
  exact congrFun Option.map_id _

/-- A member of the index is a name with its position. -/
theorem mem_positions {position : Nat} :
    (name, position) ∈ (ofMembers members).positions ↔ members.names[position]? = some name := by
  rw [ofMembers, List.mem_mapIdx]
  constructor
  · rintro ⟨other, hOther, hSame⟩
    obtain ⟨rfl, rfl⟩ := Prod.mk.inj hSame
    exact List.getElem?_eq_getElem hOther
  · intro hName
    obtain ⟨hBound, hName⟩ := List.getElem?_eq_some_iff.mp hName
    exact ⟨position, hBound, by rw [hName]⟩

/-- Members of different names are in step with the index that belongs to them. -/
theorem inStep_ofMembers (h : members.names.Nodup) : (ofMembers members).InStep where
  distinct := h
  position name position := by
    have hPositions : (Members.names (ofMembers members).positions).Nodup :=
      (names_positions members).symm ▸ h
    rw [Members.find?_eq_some_iff hPositions, names_ofMembers, mem_positions]

theorem find?_positions_eq_none_iff :
    (ofMembers members).positions.find? name = none ↔ name ∉ members.names := by
  rw [Members.find?_eq_none_iff, names_positions]

/-- A look-up by the index is a look-up. -/
theorem find?_ofMembers (h : members.names.Nodup) :
    (ofMembers members).find? name = .ok ((members.find? name).map fun value => (name, value)) := by
  rw [find?]
  split
  · rename_i position hPosition
    have hName := ((inStep_ofMembers h).position name position).mp hPosition
    obtain ⟨⟨_, value⟩, hMember, rfl⟩ := Option.map_eq_some_iff.mp
      ((List.getElem?_map ..).symm.trans hName)
    have hEntry : (ofMembers members).entries[position]? = some (_, value) :=
      List.getElem?_toArray.trans hMember
    rw [entry, hEntry, (Members.find?_eq_some_iff h).mpr (List.mem_of_getElem? hMember)]
    rfl
  · rename_i hNone
    rw [Members.find?_eq_none_iff.mpr (find?_positions_eq_none_iff.mp hNone)]
    rfl

/-- A write by the index is a write. -/
theorem put_ofMembers (h : members.names.Nodup) :
    (ofMembers members).put name value = .ok (ofMembers (members.put name value)) := by
  -- A name that is known keeps all positions, and a new one gets the next position.
  rw [put]
  split
  · rename_i position hPosition
    have hName : members.names[position]? = some name :=
      ((inStep_ofMembers h).position name position).mp hPosition
    have hBound : position < (ofMembers members).entries.size := by
      obtain ⟨hBound, -⟩ := List.getElem?_eq_some_iff.mp hName
      rwa [Members.names, List.length_map] at hBound
    have hNames : (members.put name value).names = members.names := by
      rw [Members.names_put, if_pos (List.mem_of_getElem? hName)]
    rw [dif_pos hBound]
    simp only [ofMembers, hNames]
    rw [Members.put_eq_set h hName, List.set_toArray]
  · rename_i hNone
    have hNew := find?_positions_eq_none_iff.mp hNone
    have hNewPosition : name ∉ Members.names (ofMembers members).positions :=
      (names_positions members).symm ▸ hNew
    rw [Members.put_of_notMem hNewPosition]
    simp [ofMembers, Members.put_of_notMem hNew, List.mapIdx_append, Members.names]

/-- Writes by the index are writes, one after the other. -/
theorem foldlM_put_ofMembers {pairs : List (String × α)} (h : members.names.Nodup) :
    pairs.foldlM (fun table pair => put pair.1 pair.2 table) (ofMembers members) =
      .ok (ofMembers (pairs.foldl (fun members pair => members.put pair.1 pair.2) members)) := by
  induction pairs generalizing members with
  | nil => rfl
  | cons pair pairs ih =>
      rw [List.foldlM_cons, put_ofMembers h]
      exact ih (Members.nodup_names_put h)

/-- A look-up answers each name of the table with its member, as `view` shows it, and no other name
with anything. -/
structure Answers {β : Type} (table : IndexedMembers α) (view : String × α → β)
    (answer : String → Except OutOfBounds (Option β)) : Prop where
  member : ∀ member ∈ table.entries, answer member.1 = .ok (some (view member))
  other : ∀ name ∉ table.names, answer name = .ok none

/-- Look-ups in members of different names are exact. -/
theorem answers_find? (h : members.names.Nodup) :
    (ofMembers members).Answers id fun name => (ofMembers members).find? name where
  member member hMember := by
    have hFound := (Members.find?_eq_some_iff h).mpr (List.mem_toArray.mp hMember)
    rw [find?_ofMembers h, hFound]
    rfl
  other name hName := by
    have hNone : members.find? name = none := Members.find?_eq_none_iff.mpr hName
    rw [find?_ofMembers h, hNone]
    rfl

/-- Look-ups that are exact stay so when every answer is changed alike. -/
theorem Answers.map {β γ : Type} {table : IndexedMembers α} {view : String × α → β}
    {answer : String → Except OutOfBounds (Option β)} (h : table.Answers view answer)
    (change : β → γ) :
    table.Answers (change ∘ view) fun name => (answer name).map (Option.map change) where
  member member hMember := by
    rw [h.member member hMember]
    rfl
  other name hName := by
    rw [h.other name hName]
    rfl

end IndexedMembers

end PinnedTree
