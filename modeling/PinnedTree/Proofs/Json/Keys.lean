import PinnedTree.Json.Reader
import PinnedTree.Proofs.Members

/-! The names of an object differ in every value that is read from text, since a member that comes
again takes the place of the first. -/
namespace PinnedTree.Json

/-- In every object, however deep, no name comes twice. -/
inductive WellKeyed : Json → Prop where
  | null : WellKeyed .null
  | atom (value : Atom) : WellKeyed (.atom value)
  | array {items : List Json} (values : ∀ item ∈ items, WellKeyed item) : WellKeyed (.array items)
  | object {members : List (String × Json)} (names : (Members.names members).Nodup)
      (values : ∀ member ∈ members, WellKeyed member.2) : WellKeyed (.object members)

structure WellKeyedMembers (members : List (String × Json)) : Prop where
  names : (Members.names members).Nodup
  values : ∀ member ∈ members, WellKeyed member.2

theorem wellKeyedMembers_nil : WellKeyedMembers [] :=
  ⟨List.nodup_nil, nofun⟩

/-- Well-keyed members stay so when a well-keyed value is written. -/
theorem WellKeyedMembers.put {members : List (String × Json)} (h : WellKeyedMembers members)
    (name : String) {value : Json} (hValue : WellKeyed value) :
    WellKeyedMembers (Members.put name value members) := by
  refine ⟨Members.nodup_names_put h.names, ?_⟩
  intro member hMember
  rcases Members.mem_of_mem_put hMember with rfl | hOld
  · exact hValue
  · exact h.values member hOld

/-- Every value that is read is well keyed. The induction is on the bound of the recursion, for
values, items and members at once. -/
theorem wellKeyed_of_read (fuel : Nat) :
    (∀ {depth text value rest}, readValue? fuel depth text = some (value, rest) →
      WellKeyed value) ∧
    (∀ {depth text items rest}, readItems? fuel depth text = some (items, rest) →
      ∀ item ∈ items, WellKeyed item) ∧
    (∀ {depth before text members rest},
      readMembers? fuel depth before text = some (members, rest) →
        WellKeyedMembers before → WellKeyedMembers members) := by
  induction fuel with
  | zero => exact ⟨nofun, nofun, nofun⟩
  | succ fuel ih =>
      obtain ⟨hValues, hItems, hMembers⟩ := ih
      refine ⟨?_, ?_, ?_⟩
      · intro depth text value rest h
        rw [readValue?] at h
        obtain ⟨lexeme, -, h⟩ := Option.bind_eq_some_iff.mp h
        split at h
        · cases h
          exact .null
        · cases h
          exact .atom _
        · cases h
          exact .atom _
        · cases h
          exact .atom _
        · obtain ⟨number, -, h⟩ := Option.bind_eq_some_iff.mp h
          cases h
          exact .atom _
        · split at h
          · cases h
          · split at h
            · cases h
              exact .array nofun
            · obtain ⟨⟨items, afterItems⟩, hRead, h⟩ := Option.bind_eq_some_iff.mp h
              cases h
              exact .array (hItems hRead)
        · split at h
          · cases h
          · split at h
            · cases h
              exact .object List.nodup_nil nofun
            · obtain ⟨⟨members, afterMembers⟩, hRead, h⟩ := Option.bind_eq_some_iff.mp h
              cases h
              have hKeyed := hMembers hRead wellKeyedMembers_nil
              exact .object hKeyed.names hKeyed.values
        · cases h
      · intro depth text items rest h
        rw [readItems?] at h
        obtain ⟨⟨first, afterFirst⟩, hFirst, h⟩ := Option.bind_eq_some_iff.mp h
        simp only at h
        split at h
        · obtain ⟨⟨others, afterOthers⟩, hOthers, h⟩ := Option.bind_eq_some_iff.mp h
          cases h
          intro item hItem
          rcases List.mem_cons.mp hItem with rfl | hOther
          · exact hValues hFirst
          · exact hItems hOthers item hOther
        · obtain ⟨afterItems, -, h⟩ := Option.bind_eq_some_iff.mp h
          cases h
          intro item hItem
          rw [List.mem_singleton.mp hItem]
          exact hValues hFirst
      · intro depth before text members rest h hBefore
        rw [readMembers?] at h
        obtain ⟨⟨name, afterName⟩, -, h⟩ := Option.bind_eq_some_iff.mp h
        obtain ⟨afterColon, -, h⟩ := Option.bind_eq_some_iff.mp h
        obtain ⟨⟨value, afterValue⟩, hValue, h⟩ := Option.bind_eq_some_iff.mp h
        have hPut := hBefore.put name (hValues hValue)
        simp only at h
        split at h
        · exact hMembers h hPut
        · obtain ⟨afterMembers, -, h⟩ := Option.bind_eq_some_iff.mp h
          cases h
          exact hPut

/-- In a value that is read from a text, no name comes twice in an object. -/
theorem wellKeyed_of_ofText? {text : List Char} {value : Json} (h : ofText? text = some value) :
    WellKeyed value := by
  obtain ⟨⟨read, rest⟩, hRead, h⟩ := Option.bind_eq_some_iff.mp h
  simp only at h
  split at h
  · cases h
    exact (wellKeyed_of_read _).1 hRead
  · cases h

end PinnedTree.Json
