import PinnedTree.Proofs.Token.Lookahead

/-! The grammar of values over the kinds of tokens, and the places that a value leads through. On
the tokens of a value a reader gets from the first to behind the last one, and takes no more. -/
namespace PinnedTree

mutual

/-- The kinds of the tokens of one value. -/
inductive IsValue : List TokenKind → Prop where
  | atom {kind : TokenKind} (hAtom : kind.isAtom = true) : IsValue [kind]
  | emptyArray : IsValue [.leftBracket, .rightBracket]
  | array {kinds : List TokenKind} (hItems : AreItems kinds) :
      IsValue (.leftBracket :: (kinds ++ [.rightBracket]))
  | emptyObject : IsValue [.leftBrace, .rightBrace]
  | object {kinds : List TokenKind} (hMembers : AreMembers kinds) :
      IsValue (.leftBrace :: (kinds ++ [.rightBrace]))

inductive AreItems : List TokenKind → Prop where
  | one {kinds : List TokenKind} (hValue : IsValue kinds) : AreItems kinds
  | cons {kinds rest : List TokenKind} (hValue : IsValue kinds) (hRest : AreItems rest) :
      AreItems (kinds ++ .comma :: rest)

/-- One or more values, each behind a name and a colon, with commas between them. -/
inductive AreMembers : List TokenKind → Prop where
  | one {kinds : List TokenKind} (hValue : IsValue kinds) : AreMembers (.string :: .colon :: kinds)
  | cons {kinds rest : List TokenKind} (hValue : IsValue kinds) (hRest : AreMembers rest) :
      AreMembers (.string :: .colon :: (kinds ++ .comma :: rest))

end

namespace ValuePlace

/-- Tokens of these kinds lead from one place to another, and the value is complete behind the last
of them at the earliest. -/
inductive Leads : ValuePlace → List TokenKind → Option ValuePlace → Prop where
  | last {place : ValuePlace} {kind : TokenKind} {following : Option ValuePlace}
      (hStep : ∀ token : Token, token.kind = kind → place.step token = .ok following) :
      Leads place [kind] following
  | cons {place middle : ValuePlace} {kind : TokenKind} {kinds : List TokenKind}
      {following : Option ValuePlace}
      (hStep : ∀ token : Token, token.kind = kind → place.step token = .ok (some middle))
      (hRest : Leads middle kinds following) : Leads place (kind :: kinds) following

/-- Tokens that lead to a place may be followed by those that lead on from there. -/
theorem Leads.append {place middle : ValuePlace} {left right : List TokenKind}
    {following : Option ValuePlace} (hLeft : Leads place left (some middle))
    (hRight : Leads middle right following) : Leads place (left ++ right) following := by
  generalize hMiddle : some middle = behind at hLeft
  induction hLeft with
  | last hStep =>
      subst hMiddle
      exact .cons hStep hRight
  | cons hStep _ ih => exact .cons hStep (ih hMiddle)

/-- A place that allows what another one allows is led through by the same tokens. -/
theorem Leads.of_step {place other : ValuePlace} {kinds : List TokenKind}
    {following : Option ValuePlace} (h : Leads place kinds following)
    (hStep : ∀ token taken, place.step token = .ok taken → other.step token = .ok taken) :
    Leads other kinds following := by
  cases h with
  | last hFirst => exact .last fun token hKind => hStep token _ (hFirst token hKind)
  | cons hFirst hRest => exact .cons (fun token hKind => hStep token _ (hFirst token hKind)) hRest

/-- A value can stand first in an array, where the array can also end. -/
theorem Leads.first_item {outer : List Container} {kinds : List TokenKind}
    {following : Option ValuePlace} (h : Leads (.value (.array :: outer)) kinds following) :
    Leads (.firstItem outer) kinds following := by
  refine h.of_step fun token taken hValue => ?_
  have hOpen : token.kind ≠ .rightBracket := by
    intro hRight
    simp [step, beginValue, hRight, TokenKind.isAtom] at hValue
  rw [step, if_neg hOpen]
  exact hValue

/-- A member can stand first in an object, where the object can also end. -/
theorem Leads.first_name {outer : List Container} {kinds : List TokenKind}
    {following : Option ValuePlace} (h : Leads (.name outer) kinds following) :
    Leads (.firstName outer) kinds following := by
  refine h.of_step fun token taken hName => ?_
  have hOpen : token.kind ≠ .rightBrace := by
    intro hRight
    simp [step, require, hRight] at hName
  rw [step, if_neg hOpen]
  exact hName

theorem leads_closing (innermost : Container) (outer : List Container) :
    Leads (.separator innermost outer) [closing innermost] (afterValue outer) := by
  refine .last fun token hKind => ?_
  cases innermost <;> simp [step, require, hKind, closing]

/-- Behind what fills a container, its closing mark completes it. -/
theorem Leads.closed {innermost : Container} {outer : List Container} {place : ValuePlace}
    {kinds : List TokenKind} (h : Leads place kinds (some (.separator innermost outer))) :
    Leads place (kinds ++ [closing innermost]) (afterValue outer) :=
  h.append (leads_closing innermost outer)

/-- Behind what fills a container, a comma leads on. -/
theorem Leads.comma {innermost : Container} {outer : List Container} {place : ValuePlace}
    {kinds rest : List TokenKind} {following : Option ValuePlace}
    (h : Leads place kinds (some (.separator innermost outer)))
    (hRest : Leads (afterComma outer innermost) rest following) :
    Leads place (kinds ++ .comma :: rest) following :=
  h.append (.cons (fun token hKind => by simp [step, hKind]) hRest)

/-- A name and a colon lead to the value of a member. -/
theorem Leads.member {outer : List Container} {kinds : List TokenKind}
    {following : Option ValuePlace} (h : Leads (.value (.object :: outer)) kinds following) :
    Leads (.name outer) (.string :: .colon :: kinds) following := by
  have hColon : Leads (.colon outer) (.colon :: kinds) following :=
    .cons (fun token hKind => by rw [step, require, if_pos hKind]) h
  exact .cons (fun token hKind => by rw [step, require, if_pos hKind]) hColon

end ValuePlace

open ValuePlace

mutual

/-- A value leads to the place behind it, whatever it stands in. -/
theorem IsValue.leads : ∀ {kinds : List TokenKind}, IsValue kinds → ∀ within : List Container,
    Leads (.value within) kinds (afterValue within)
  | _, .atom hAtom, within => by
      refine .last fun token hKind => ?_
      rw [← hKind] at hAtom
      have hBrace : token.kind ≠ .leftBrace := by rintro h; simp [h, TokenKind.isAtom] at hAtom
      have hBracket : token.kind ≠ .leftBracket := by rintro h; simp [h, TokenKind.isAtom] at hAtom
      rw [step, beginValue, if_neg hBrace, if_neg hBracket, if_pos hAtom]
  | _, .emptyArray, within => by
      have hClose : Leads (.firstItem within) [.rightBracket] (afterValue within) :=
        .last fun token hKind => by rw [step, if_pos hKind]
      exact .cons (fun token hKind => by simp [step, beginValue, hKind]) hClose
  | _, .array hItems, within =>
      .cons (fun token hKind => by simp [step, beginValue, hKind])
        (hItems.leads within).first_item.closed
  | _, .emptyObject, within => by
      have hClose : Leads (.firstName within) [.rightBrace] (afterValue within) :=
        .last fun token hKind => by rw [step, if_pos hKind]
      exact .cons (fun token hKind => by simp [step, beginValue, hKind]) hClose
  | _, .object hMembers, within =>
      .cons (fun token hKind => by simp [step, beginValue, hKind])
        (hMembers.leads within).first_name.closed

/-- Items lead to the separator behind them. -/
theorem AreItems.leads : ∀ {kinds : List TokenKind}, AreItems kinds → ∀ outer : List Container,
    Leads (.value (.array :: outer)) kinds (some (.separator .array outer))
  | _, .one hValue, outer => hValue.leads (.array :: outer)
  | _, .cons hValue hRest, outer =>
      Leads.comma (hValue.leads (.array :: outer)) (hRest.leads outer)

theorem AreMembers.leads : ∀ {kinds : List TokenKind}, AreMembers kinds →
    ∀ outer : List Container, Leads (.name outer) kinds (some (.separator .object outer))
  | _, .one hValue, outer => (hValue.leads (.object :: outer)).member
  | _, .cons hValue hRest, outer =>
      Leads.comma (hValue.leads (.object :: outer)).member (hRest.leads outer)

end

namespace Cursor

theorem next_of_drop {cursor : Cursor} {token : Token} {rest : List Token}
    (h : cursor.tokens.front.drop cursor.index = token :: rest) : cursor.next = .ok token := by
  rw [next_eq, remaining, h]
  rfl

theorem drop_take {cursor : Cursor} {token : Token} {rest : List Token}
    (h : cursor.tokens.front.drop cursor.index = token :: rest) (taken : Token) :
    (cursor.take taken).tokens.front.drop (cursor.take taken).index = rest := by
  have hRemaining := congrArg Tokens.front (cursor.remaining_take taken)
  rw [remaining, Tokens.tail, remaining, h] at hRemaining
  exact hRemaining

theorem skipFrom_of_next {cursor : Cursor} {token : Token} (h : cursor.next = .ok token)
    (place : ValuePlace) :
    cursor.skipFrom place =
      match place.step token with
      | .error fault => (.error ⟨token.start, fault⟩, cursor)
      | .ok none => (.ok (), cursor.take token)
      | .ok (some following) => (cursor.take token).skipFrom following := by
  rw [skipFrom]
  split
  · rename_i error hError
    cases h.symm.trans hError
  · rename_i found hFound
    cases h.symm.trans hFound
    split
    · rename_i hStep
      rw [hStep]
    · rename_i hStep
      rw [hStep]
    · rename_i hStep
      rw [hStep]

/-- The tokens that lead to the end of a value are taken, and no others. -/
theorem skipFrom_of_leads {place : ValuePlace} {kinds : List TokenKind}
    (h : Leads place kinds none) {cursor : Cursor} {value rest : List Token}
    (hKinds : value.map Token.kind = kinds)
    (hFront : cursor.tokens.front.drop cursor.index = value ++ rest) :
    cursor.skipFrom place = (.ok (), value.foldl take cursor) := by
  generalize hNone : (none : Option ValuePlace) = behind at h
  induction h generalizing cursor value with
  | last hStep =>
      subst hNone
      obtain ⟨token, rfl, hKind⟩ := List.map_eq_singleton_iff.mp hKinds
      rw [skipFrom_of_next (next_of_drop hFront), hStep token hKind]
      rfl
  | cons hStep _ ih =>
      obtain ⟨token, tokens, rfl, hKind, hMap⟩ := List.map_eq_cons_iff.mp hKinds
      rw [skipFrom_of_next (next_of_drop hFront), hStep token hKind]
      exact ih hMap (drop_take hFront token) hNone

theorem drop_foldl_take {cursor : Cursor} {value rest : List Token}
    (h : cursor.tokens.front.drop cursor.index = value ++ rest) :
    (value.foldl take cursor).tokens.front.drop (value.foldl take cursor).index = rest := by
  induction value generalizing cursor with
  | nil => exact h
  | cons token tokens ih => exact ih (drop_take h token)

theorem tokens_foldl_take (value : List Token) (cursor : Cursor) :
    (value.foldl take cursor).tokens = cursor.tokens := by
  induction value generalizing cursor with
  | nil => rfl
  | cons token tokens ih => exact ih (cursor.take token)

/-- After some tokens are taken, the last token taken is the last of them, if there is one. -/
theorem last_foldl_take (value : List Token) (cursor : Cursor) :
    (value.foldl take cursor).last = (value.getLast?.map Token.text).getD cursor.last := by
  induction value generalizing cursor with
  | nil => rfl
  | cons token tokens ih =>
      rw [List.foldl_cons, ih, List.getLast?_cons]
      cases tokens.getLast? <;> rfl

/-- When there are no tokens behind a value, the cursor gets to the end with it. -/
theorem atEnd_foldl_take {cursor : Cursor} {value : List Token} {position : Nat}
    (hFront : cursor.tokens.front.drop cursor.index = value)
    (hEnding : cursor.tokens.ending = .ok position) : (value.foldl take cursor).AtEnd position := by
  have hDrop := drop_foldl_take (hFront.trans (List.append_nil value).symm)
  exact ⟨List.drop_eq_nil_iff.mp hDrop, by rw [tokens_foldl_take, hEnding]⟩

end Cursor

/-- A text that consists of the tokens of one value is skipped up to its end, and the end is not
taken. -/
theorem Reader.skipValue_ofString {text : String} {position : Nat}
    (hValue : IsValue ((Tokens.ofString text).front.map Token.kind))
    (hEnding : (Tokens.ofString text).ending = .ok position) :
    (ofString text).skipValue.1 = .ok () ∧
      (ofString text).skipValue.2.last =
        ((Tokens.ofString text).front.getLast?.map Token.text).getD "" ∧
      (ofString text).skipValue.2.peek.1 = .ok .ending := by
  have hFront : (Cursor.ofString text).tokens.front.drop (Cursor.ofString text).index =
      (Tokens.ofString text).front := rfl
  have hSkip := Cursor.skipFrom_of_leads (hValue.leads []) rfl
    (hFront.trans (List.append_nil _).symm)
  obtain ⟨hAnswer, hStands⟩ := (standsAt_ofString text).skipFrom .start
  rw [ValuePlace.start, hSkip] at hAnswer hStands
  have hAtEnd := Cursor.atEnd_foldl_take hFront hEnding
  obtain ⟨filled, hFill, -⟩ := hStands.fill
  refine ⟨hAnswer, hStands.last.trans (Cursor.last_foldl_take _ _), ?_⟩
  rw [skipValue, ValuePlace.start, peek, hFill, hAtEnd.next]
  rfl

end PinnedTree
