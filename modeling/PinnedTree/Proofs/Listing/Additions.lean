import PinnedTree.Proofs.Listing.Doubles

/-! What a token adds to a listing. It is the same whatever has been read before, so a reading can
be taken apart into what each of its tokens adds. Names stay distinct on the way, and there are not
more children at the end than are counted or asked for. -/
namespace PinnedTree

namespace Listing

def listName (names : List String) (name : String) : List String :=
  if name ∈ names then names else names ++ [name]

/-- Distinct names stay distinct when one more is listed. -/
theorem nodup_listName {names : List String} (h : names.Nodup) (name : String) :
    (listName names name).Nodup := by
  rw [listName]
  split
  · exact h
  · rename_i hNew
    exact List.nodup_append_comm.mp (List.nodup_cons.mpr ⟨hNew, h⟩)

theorem listName_cons {first name : String} (h : first ≠ name) (rest : List String) :
    listName (first :: rest) name = first :: listName rest name := by
  by_cases hOld : name ∈ rest <;> simp [listName, hOld, h.symm]

namespace Draft

def join (draft added : Draft) : Draft where
  properties := added.properties.foldl (fun members pair => members.put pair.1 pair.2)
    draft.properties
  children := added.children.foldl listName draft.children
  childCount := added.childCount.or draft.childCount

/-- No name comes twice among the properties or among the children. -/
structure Distinct (draft : Draft) : Prop where
  properties : draft.properties.names.Nodup
  children : draft.children.Nodup

/-- If no name comes twice in a draft, none does when more is joined to it. -/
theorem Distinct.join {draft : Draft} (h : draft.Distinct) (added : Draft) :
    (draft.join added).Distinct where
  properties := by
    refine List.foldlRecOn (motive := fun members => (Members.names members).Nodup)
      added.properties _ h.properties ?_
    exact fun members hDistinct pair _ => Members.nodup_names_put hDistinct
  children := by
    refine List.foldlRecOn added.children _ h.children ?_
    exact fun names hDistinct name _ => nodup_listName hDistinct name

/-- A child that is listed is joined to what has been read before. -/
theorem addChild_eq_join (draft : Draft) (name : String) :
    draft.addChild name = draft.join (addChild {} name) := by
  rw [addChild_eq, addChild_eq {}, if_neg List.not_mem_nil]
  rfl

end Draft

/-- Where a token leads and what it adds do not depend on what has been read. -/
theorem step_eq_join (place : Place) (draft : Draft) (token : Token) :
    step (place, draft) token =
      (step (place, {}) token).map fun (next, added) => (next, draft.join added) := by
  -- Only a token that ends a member adds anything. Elsewhere the draft is joined with nothing.
  cases place with
  | opening | name | colon name | ending =>
      simp only [step]
      split <;> rfl
  | firstMember | separator =>
      simp only [step]
      split
      · rfl
      · split <;> rfl
  | total =>
      simp only [step]
      split
      · split <;> rfl
      · rfl
  | value name =>
      simp only [step]
      split
      · rfl
      · split
        · rfl
        · cases scalar token <;> rfl
  | childEnd name =>
      simp only [step, Draft.addChild_eq_join draft]
      split <;> rfl
  | firstItem name =>
      simp only [step]
      split
      · rfl
      · cases scalar token <;> rfl
  | item name items =>
      simp only [step]
      cases scalar token <;> rfl
  | itemSeparator name items =>
      simp only [step]
      split
      · rfl
      · split <;> rfl
  | finished => rfl

/-- No name comes twice after a token, if none did before. -/
theorem Draft.Distinct.step {place next : Place} {draft after : Draft} {token : Token}
    (h : draft.Distinct) (hStep : step (place, draft) token = .ok (next, after)) :
    after.Distinct := by
  rw [step_eq_join] at hStep
  obtain ⟨⟨_, added⟩, -, hSame⟩ := exists_of_map_eq_ok hStep
  obtain ⟨-, rfl⟩ := Prod.mk.inj hSame
  exact h.join added

variable {limit : Nat} {text : String} {listing : Listing}

/-- A listing that is accepted names no child twice. -/
theorem nodup_children (hRead : ofString limit text = .ok listing) : listing.children.Nodup := by
  obtain ⟨entries, hSpells⟩ := exists_spells_of_ok hRead
  rw [(hSpells.ofString_eq_ok hRead).2.children]
  exact nodup_eraseDups _

/-- A listing that is accepted has no more children than it counts or than were asked for. -/
theorem length_children_le (hRead : ofString limit text = .ok listing) :
    listing.children.length ≤ min listing.childCount limit := by
  obtain ⟨draft, -, hDraft⟩ := exists_of_bind_eq_ok hRead
  obtain ⟨hCounted, hRequested, rfl⟩ := ofDraft_eq_ok_iff.mp hDraft
  exact le_min hCounted hRequested

end Listing

end PinnedTree
