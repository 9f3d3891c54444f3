import PinnedTree.Proofs.Token.Values

/-! Where the reading of a value can be. Each place is reached on the tokens of one part of a value
alone, so that the tokens that a value was read from are those of a value. -/
namespace PinnedTree

/-- One more item may stand behind a comma. -/
theorem AreItems.concat : ∀ {front last : List TokenKind}, AreItems front → IsValue last →
    AreItems (front ++ .comma :: last)
  | _, _, .one hValue, hLast => .cons hValue (.one hLast)
  | _, _, .cons hValue hRest, hLast => by
      rw [List.append_assoc, List.cons_append]
      exact .cons hValue (hRest.concat hLast)

/-- One more member may stand behind a comma. -/
theorem AreMembers.concat : ∀ {front last : List TokenKind}, AreMembers front → IsValue last →
    AreMembers (front ++ .comma :: .string :: .colon :: last)
  | _, _, .one hValue, hLast => .cons hValue (.one hLast)
  | _, _, .cons hValue hRest, hLast => by
      rw [List.cons_append, List.cons_append, List.append_assoc, List.cons_append]
      exact .cons hValue (hRest.concat hLast)

namespace ValuePlace

/-! ### Parts of values -/

def opening : Container → TokenKind
  | .array => .leftBracket
  | .object => .leftBrace

/-- The tokens of what a container can hold, if it is not empty. -/
def Fills : Container → List TokenKind → Prop
  | .array => AreItems
  | .object => AreMembers

/-- The tokens of a container up to where an item or a member is due. -/
inductive Due (container : Container) : List TokenKind → Prop where
  | first : Due container [opening container]
  | next {kinds : List TokenKind} (hFills : Fills container kinds) :
      Due container (opening container :: (kinds ++ [.comma]))

/-- The tokens up to a value that stands inside these containers, innermost first. -/
inductive Before : List Container → List TokenKind → Prop where
  | alone : Before [] []
  | item {outer : List Container} {front kinds : List TokenKind} (hOuter : Before outer front)
      (hDue : Due .array kinds) : Before (.array :: outer) (front ++ kinds)
  | member {outer : List Container} {front kinds : List TokenKind} (hOuter : Before outer front)
      (hDue : Due .object kinds) :
      Before (.object :: outer) (front ++ (kinds ++ [.string, .colon]))

inductive Reads : ValuePlace → List TokenKind → Prop where
  | value {within : List Container} {kinds : List TokenKind} (h : Before within kinds) :
      Reads (.value within) kinds
  | firstItem {outer : List Container} {front : List TokenKind} (hOuter : Before outer front) :
      Reads (.firstItem outer) (front ++ [.leftBracket])
  | firstName {outer : List Container} {front : List TokenKind} (hOuter : Before outer front) :
      Reads (.firstName outer) (front ++ [.leftBrace])
  | name {outer : List Container} {front kinds : List TokenKind} (hOuter : Before outer front)
      (hDue : Due .object kinds) : Reads (.name outer) (front ++ kinds)
  | colon {outer : List Container} {front kinds : List TokenKind} (hOuter : Before outer front)
      (hDue : Due .object kinds) : Reads (.colon outer) (front ++ (kinds ++ [.string]))
  | separator {innermost : Container} {outer : List Container} {front kinds : List TokenKind}
      (hOuter : Before outer front) (hFills : Fills innermost kinds) :
      Reads (.separator innermost outer) (front ++ opening innermost :: kinds)

/-- The tokens that lead to a place, or to the end of a value. -/
def ReadsTo : Option ValuePlace → List TokenKind → Prop
  | none => IsValue
  | some place => Reads place

/-! ### What a token changes -/

section Step

variable {outer within : List Container} {front kinds : List TokenKind} {token : Token}
  {next : Option ValuePlace}

/-- One more item is among the items that an array holds. -/
theorem Due.item {value : List TokenKind} (h : Due .array kinds) (hValue : IsValue value) :
    ∃ items, Fills .array items ∧ kinds ++ value = opening .array :: items := by
  cases h with
  | first => exact ⟨value, AreItems.one hValue, rfl⟩
  | @next front hFills =>
      refine ⟨front ++ .comma :: value, AreItems.concat hFills hValue, ?_⟩
      rw [List.cons_append, List.append_assoc]
      rfl

/-- A member where one is due is one more of those in the object. -/
theorem Due.member {value : List TokenKind} (h : Due .object kinds) (hValue : IsValue value) :
    ∃ members, Fills .object members ∧
      kinds ++ [.string, .colon] ++ value = opening .object :: members := by
  cases h with
  | first => exact ⟨.string :: .colon :: value, AreMembers.one hValue, rfl⟩
  | @next front hFills =>
      refine ⟨front ++ .comma :: .string :: .colon :: value, AreMembers.concat hFills hValue, ?_⟩
      simp

/-- A value that is complete leads to the place behind it. -/
theorem Before.readsTo {value : List TokenKind} (h : Before within front) (hValue : IsValue value) :
    ReadsTo (afterValue within) (front ++ value) := by
  cases h with
  | alone => exact hValue
  | item hOuter hDue =>
      obtain ⟨items, hFills, hKinds⟩ := hDue.item hValue
      rw [List.append_assoc, hKinds]
      exact .separator hOuter hFills
  | member hOuter hDue =>
      obtain ⟨members, hFills, hKinds⟩ := hDue.member hValue
      rw [List.append_assoc, hKinds]
      exact .separator hOuter hFills

/-- An empty container is a value. -/
theorem isValue_empty (innermost : Container) :
    IsValue [opening innermost, closing innermost] := by
  cases innermost with
  | array => exact .emptyArray
  | object => exact .emptyObject

/-- What fills a container makes it a value. -/
theorem isValue_filled {innermost : Container} (h : Fills innermost kinds) :
    IsValue (opening innermost :: (kinds ++ [closing innermost])) := by
  cases innermost with
  | array => exact .array h
  | object => exact .object h

/-- The end of an empty container is the end of a value. -/
theorem Before.readsTo_empty (h : Before outer front) (innermost : Container) :
    ReadsTo (afterValue outer) (front ++ [opening innermost] ++ [closing innermost]) := by
  rw [List.append_assoc]
  exact h.readsTo (isValue_empty innermost)

/-- A token that begins a value leads to the place behind it. -/
theorem readsTo_beginValue (h : Before within front) (hStep : beginValue within token = .ok next) :
    ReadsTo next (front ++ [token.kind]) := by
  simp only [beginValue] at hStep
  split at hStep
  · rename_i hKind
    cases hStep
    rw [hKind]
    exact .firstName h
  · split at hStep
    · rename_i hKind
      cases hStep
      rw [hKind]
      exact .firstItem h
    · split at hStep
      · rename_i hAtom
        cases hStep
        exact h.readsTo (.atom hAtom)
      · cases hStep

theorem eq_of_require {kind : TokenKind} {following : Option ValuePlace}
    (hStep : require kind token following = .ok next) : token.kind = kind ∧ following = next := by
  rw [require] at hStep
  split at hStep
  · rename_i hKind
    exact ⟨hKind, Except.ok.inj hStep⟩
  · cases hStep

/-- One more token leads from a part of a value to a part of a value, or to its end. -/
theorem Reads.step {place : ValuePlace} (h : Reads place kinds)
    (hStep : place.step token = .ok next) : ReadsTo next (kinds ++ [token.kind]) := by
  cases h with
  | value h => exact readsTo_beginValue h hStep
  | firstItem hOuter =>
      simp only [ValuePlace.step] at hStep
      split at hStep
      · rename_i hKind
        cases hStep
        rw [hKind]
        exact hOuter.readsTo_empty .array
      · exact readsTo_beginValue (.item hOuter .first) hStep
  | firstName hOuter =>
      simp only [ValuePlace.step] at hStep
      split at hStep
      · rename_i hKind
        cases hStep
        rw [hKind]
        exact hOuter.readsTo_empty .object
      · obtain ⟨hKind, rfl⟩ := eq_of_require hStep
        rw [hKind, List.append_assoc]
        exact .colon hOuter .first
  | name hOuter hDue =>
      obtain ⟨hKind, rfl⟩ := eq_of_require hStep
      rw [hKind, List.append_assoc]
      exact .colon hOuter hDue
  | colon hOuter hDue =>
      obtain ⟨hKind, rfl⟩ := eq_of_require hStep
      rw [hKind, List.append_assoc, List.append_assoc]
      exact .value (.member hOuter hDue)
  | @separator innermost outer front kinds hOuter hFills =>
      simp only [ValuePlace.step] at hStep
      rw [List.append_assoc, List.cons_append]
      split at hStep
      · rename_i hKind
        cases hStep
        rw [hKind]
        cases innermost with
        | array => exact .value (.item hOuter (.next hFills))
        | object => exact .name hOuter (.next hFills)
      · obtain ⟨hKind, rfl⟩ := eq_of_require hStep
        rw [hKind]
        exact hOuter.readsTo (isValue_filled hFills)

end Step

end ValuePlace

end PinnedTree
