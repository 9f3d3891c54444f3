import PinnedTree.Proofs.Token.Places
import PinnedTree.Proofs.Token.Reached

/-! Skipping a value. A reader takes the tokens of one value if the tokens to come start with a
value. Otherwise it gets to the first token with which no value goes on, and blames that one. -/
namespace PinnedTree

/-- Some value starts with tokens of these kinds. -/
def StartsValue (kinds : List TokenKind) : Prop :=
  ∃ rest, IsValue (kinds ++ rest)

theorem IsValue.ne_nil {kinds : List TokenKind} (h : IsValue kinds) : kinds ≠ [] := by
  cases h <;> exact List.cons_ne_nil _ _

namespace ValuePlace

variable {place following : ValuePlace} {token : Token} {kinds : List TokenKind}

/-! ### Places on the way to a value -/

/-- What is taken of one kind does not depend on the text of the token. -/
theorem require_congr {kind : TokenKind} {target next : Option ValuePlace} {other : Token}
    (h : require kind token target = .ok next) (hKind : other.kind = token.kind) :
    require kind other target = .ok next := by
  obtain ⟨hToken, rfl⟩ := eq_of_require h
  exact if_pos (hKind.trans hToken)

/-- How a value begins does not depend on the text of the token. -/
theorem beginValue_congr {other : Token} (hKind : other.kind = token.kind)
    (within : List Container) : beginValue within other = beginValue within token := by
  rw [beginValue, beginValue, hKind]

/-- Only the kind of a token decides where it leads. -/
theorem step_congr {next : Option ValuePlace} (h : place.step token = .ok next) {other : Token}
    (hKind : other.kind = token.kind) : place.step other = .ok next := by
  cases place with
  | value within => exact (beginValue_congr hKind within).trans h
  | firstItem outer =>
      rw [step, hKind, beginValue_congr hKind]
      exact h
  | firstName outer =>
      rw [step] at h ⊢
      rw [hKind]
      split at h
      · rwa [if_pos ‹_›]
      · rw [if_neg ‹_›]
        exact require_congr h hKind
  | name outer => exact require_congr h hKind
  | colon outer => exact require_congr h hKind
  | separator innermost outer =>
      rw [step] at h ⊢
      rw [hKind]
      split at h
      · rwa [if_pos ‹_›]
      · rw [if_neg ‹_›]
        exact require_congr h hKind

/-- From the place that a token leads to, the rest of its tokens lead to the end of a value. -/
theorem leads_cons_iff (hStep : place.step token = .ok (some following)) :
    Leads place (token.kind :: kinds) none ↔ Leads following kinds none := by
  constructor
  · intro h
    cases h with
    | last hLast => cases hStep.symm.trans (hLast token rfl)
    | cons hFirst hRest =>
        cases hStep.symm.trans (hFirst token rfl)
        exact hRest
  · exact .cons fun other hKind => step_congr hStep hKind

/-- With a token that is refused no value is completed. -/
theorem not_leads_of_error {fault : ParseFault} (hStep : place.step token = .error fault) :
    ¬ Leads place (token.kind :: kinds) none := by
  intro h
  cases h with
  | last hLast => cases hStep.symm.trans (hLast token rfl)
  | cons hFirst _ => cases hStep.symm.trans (hFirst token rfl)

/-- Tokens that lead from one place to another go on from what the first one is reached on. -/
theorem Leads.readsTo {target : Option ValuePlace} (h : Leads place kinds target)
    {front : List TokenKind} (hPlace : Reads place front) : ReadsTo target (front ++ kinds) := by
  induction h generalizing front with
  | @last place kind target hStep => exact hPlace.step (hStep ⟨kind, "", 0⟩ rfl)
  | @cons place middle kind kinds target hStep _ ih =>
      have hMiddle : Reads middle (front ++ [kind]) := hPlace.step (hStep ⟨kind, "", 0⟩ rfl)
      rw [← List.singleton_append, ← List.append_assoc]
      exact ih hMiddle

/-- The grammar and the places agree on what a value is. -/
theorem isValue_iff_leads : IsValue kinds ↔ Leads .start kinds none :=
  ⟨fun h => h.leads [], fun h => h.readsTo (.value .alone)⟩

/-! ### Completing a value -/

/-- The open containers can be closed one after the other. -/
theorem exists_leads_separator (innermost : Container) (outer : List Container) :
    ∃ more, Leads (.separator innermost outer) more none := by
  induction outer generalizing innermost with
  | nil => exact ⟨_, leads_closing innermost []⟩
  | cons container outer ih =>
      obtain ⟨more, hMore⟩ := ih container
      exact ⟨_, (leads_closing innermost (container :: outer)).append hMore⟩

/-- A place that leads to the end of a value inside of containers also leads to the end of these. -/
theorem Leads.complete {within : List Container} (h : Leads place kinds (afterValue within)) :
    ∃ more, Leads place more none := by
  cases within with
  | nil => exact ⟨kinds, h⟩
  | cons innermost outer =>
      obtain ⟨more, hMore⟩ := exists_leads_separator innermost outer
      exact ⟨kinds ++ more, h.append hMore⟩

/-- From every place a value can be completed. -/
theorem exists_leads (place : ValuePlace) : ∃ more, Leads place more none := by
  have hNull : IsValue [.null] := .atom rfl
  cases place with
  | value within => exact (hNull.leads within).complete
  | firstItem outer => exact ((AreItems.one hNull).leads outer).first_item.closed.complete
  | firstName outer => exact ((AreMembers.one hNull).leads outer).first_name.closed.complete
  | name outer => exact ((AreMembers.one hNull).leads outer).closed.complete
  | colon outer =>
      have hColon : Leads (.colon outer) [.colon, .null] (afterValue (.object :: outer)) :=
        .cons (fun token hKind => by rw [step, require, if_pos hKind]) (hNull.leads _)
      exact hColon.complete
  | separator innermost outer => exact exists_leads_separator innermost outer

/-! ### What can still be completed -/

/-- From this place a value can begin with tokens of these kinds and be completed. -/
def Allows (place : ValuePlace) (kinds : List TokenKind) : Prop :=
  ∃ more, Leads place (kinds ++ more) none

theorem allows_nil (place : ValuePlace) : place.Allows [] :=
  place.exists_leads

/-- A token that leads on may come before what is allowed behind it. -/
theorem Allows.cons (h : following.Allows kinds) (hStep : place.step token = .ok (some following)) :
    place.Allows (token.kind :: kinds) := by
  obtain ⟨more, hMore⟩ := h
  exact ⟨more, (leads_cons_iff hStep).mpr hMore⟩

theorem Allows.tail (h : place.Allows (token.kind :: kinds))
    (hStep : place.step token = .ok (some following)) : following.Allows kinds := by
  obtain ⟨more, hMore⟩ := h
  exact ⟨more, (leads_cons_iff hStep).mp hMore⟩

/-- A token that is refused is not allowed. -/
theorem not_allows_of_error {fault : ParseFault} (hStep : place.step token = .error fault) :
    ¬ place.Allows (token.kind :: kinds) := by
  rintro ⟨more, hMore⟩
  exact not_leads_of_error hStep hMore

/-- A value starts with these tokens exactly when they are allowed where one is due. -/
theorem startsValue_iff_allows : StartsValue kinds ↔ start.Allows kinds :=
  exists_congr fun _ => isValue_iff_leads

end ValuePlace

open ValuePlace

/-! ### How far a cursor gets -/

namespace Cursor

variable {cursor : Cursor} {place : ValuePlace}

theorem remaining_of_next {token : Token} (h : cursor.next = .ok token)
    (hKind : token.kind ≠ .ending) :
    cursor.remaining.front = token :: (cursor.take token).remaining.front := by
  rw [next_eq, Tokens.next] at h
  rw [remaining_take, Tokens.tail]
  split at h
  · obtain ⟨position, -, rfl⟩ := exists_of_map_eq_ok h
    exact absurd rfl hKind
  · rename_i hFront
    cases h
    rw [hFront, List.tail_cons]

theorem remaining_foldl_take {front rest : List Token}
    (h : cursor.remaining.front = front ++ rest) :
    (front.foldl take cursor).remaining = ⟨rest, cursor.remaining.ending⟩ := by
  rw [remaining, drop_foldl_take h, tokens_foldl_take]
  rfl

theorem skipFrom_of_error {error : ParseError} (h : cursor.next = .error error)
    (place : ValuePlace) : cursor.skipFrom place = (.error error, cursor) := by
  rw [skipFrom]
  split
  · rename_i hError
    cases h.symm.trans hError
    rfl
  · rename_i hFound
    cases h.symm.trans hFound

/-- The tokens that a place leads through to the end of a value come next, and are taken. -/
structure Skips (cursor : Cursor) (place : ValuePlace) (value rest : List Token) : Prop where
  remaining : cursor.remaining.front = value ++ rest
  leads : Leads place (value.map Token.kind) none
  outcome : cursor.skipFrom place = (.ok (), value.foldl take cursor)

/-- Some tokens are taken with which a value can begin, and the cursor cannot go on behind them: the
next token is misspelled, or no value begins with it too. -/
structure Stops (cursor : Cursor) (place : ValuePlace) (front rest : List Token)
    (error : ParseError) : Prop where
  remaining : cursor.remaining.front = front ++ rest
  allows : place.Allows (front.map Token.kind)
  outcome : cursor.skipFrom place = (.error error, front.foldl take cursor)
  blames : (front.foldl take cursor).next = .error error ∨
    ∃ token, (front.foldl take cursor).next = .ok token ∧ error.position = token.start ∧
      ¬ place.Allows (front.map Token.kind ++ [token.kind])

section Step

variable {token : Token} {following : ValuePlace} (hNext : cursor.next = .ok token)
  (hStep : place.step token = .ok (some following))

include hNext hStep

/-- A token that leads on is taken, and skipping goes on behind it. -/
theorem skipFrom_take : cursor.skipFrom place = (cursor.take token).skipFrom following := by
  rw [skipFrom_of_next hNext, hStep]

/-- A token that leads on is skipped with the value behind it. -/
theorem Skips.cons {value rest : List Token} (h : (cursor.take token).Skips following value rest) :
    cursor.Skips place (token :: value) rest := by
  refine ⟨?_, (leads_cons_iff hStep).mpr h.leads, ?_⟩
  · rw [remaining_of_next hNext (kind_ne_ending_of_step hStep), h.remaining,
      List.cons_append]
  · rw [skipFrom_take hNext hStep, h.outcome, List.foldl_cons]

/-- A token that leads on is taken before the stop. -/
theorem Stops.cons {front rest : List Token} {error : ParseError}
    (h : (cursor.take token).Stops following front rest error) :
    cursor.Stops place (token :: front) rest error := by
  refine ⟨?_, h.allows.cons hStep, ?_, ?_⟩
  · rw [remaining_of_next hNext (kind_ne_ending_of_step hStep), h.remaining,
      List.cons_append]
  · rw [skipFrom_take hNext hStep, h.outcome, List.foldl_cons]
  · rcases h.blames with hMisspelled | ⟨refused, hRefused, hPosition, hNone⟩
    · exact .inl hMisspelled
    · exact .inr ⟨refused, hRefused, hPosition, fun hAllows => hNone (hAllows.tail hStep)⟩

end Step

/-- Either a value comes next, or the cursor stops where no value goes on. -/
theorem skips_or_stops (cursor : Cursor) (place : ValuePlace) :
    (∃ value rest, cursor.Skips place value rest) ∨
      ∃ front rest error, cursor.Stops place front rest error := by
  fun_induction skipFrom place cursor with
  | case1 place cursor error hNext =>
      refine .inr ⟨[], _, error, rfl, place.allows_nil, ?_, .inl hNext⟩
      rw [skipFrom_of_error hNext]
      rfl
  | case2 place cursor token hNext fault hStep =>
      refine .inr ⟨[], _, ⟨token.start, fault⟩, rfl, place.allows_nil, ?_,
        .inr ⟨token, hNext, rfl, not_allows_of_error hStep⟩⟩
      rw [skipFrom_of_next hNext, hStep]
      rfl
  | case3 place cursor token hNext hStep =>
      refine .inl ⟨[token], _, remaining_of_next hNext (kind_ne_ending_of_step hStep),
        .last fun other hKind => step_congr hStep hKind, ?_⟩
      rw [skipFrom_of_next hNext, hStep]
      rfl
  | case4 place cursor token hNext following hStep ih =>
      rcases ih with ⟨value, rest, hSkips⟩ | ⟨front, rest, error, hStops⟩
      · exact .inl ⟨token :: value, rest, hSkips.cons hNext hStep⟩
      · exact .inr ⟨token :: front, rest, error, hStops.cons hNext hStep⟩

/-- A value that comes next is taken, and nothing else. -/
theorem skipFrom_of_isValue {value rest : List Token}
    (hFront : cursor.remaining.front = value ++ rest) (hValue : IsValue (value.map Token.kind)) :
    cursor.skipFrom .start = (.ok (), value.foldl take cursor) :=
  skipFrom_of_leads (hValue.leads []) rfl hFront

/-- At most one value comes next, because the cursor takes each of them. -/
theorem isValue_unique {value rest other more : List Token}
    (hFront : cursor.remaining.front = value ++ rest) (hValue : IsValue (value.map Token.kind))
    (hMore : cursor.remaining.front = other ++ more) (hOther : IsValue (other.map Token.kind)) :
    other = value := by
  have hSame := (skipFrom_of_isValue hFront hValue).symm.trans (skipFrom_of_isValue hMore hOther)
  have hRest := remaining_foldl_take hFront
  rw [(Prod.mk.inj hSame).2, remaining_foldl_take hMore] at hRest
  cases hRest
  exact List.append_cancel_right (hMore.symm.trans hFront)

/-- A value is skipped exactly when the tokens start with one. -/
theorem skipFrom_eq_ok_iff :
    (cursor.skipFrom .start).1 = .ok () ↔ ∃ value rest,
      cursor.remaining.front = value ++ rest ∧ IsValue (value.map Token.kind) := by
  constructor
  · intro hOk
    rcases cursor.skips_or_stops .start with ⟨value, rest, hSkips⟩ | ⟨front, rest, error, hStops⟩
    · exact ⟨value, rest, hSkips.remaining, isValue_iff_leads.mpr hSkips.leads⟩
    · rw [hStops.outcome] at hOk
      cases hOk
  · rintro ⟨value, rest, hFront, hValue⟩
    rw [skipFrom_of_isValue hFront hValue]

/-- Behind a value the tokens go on as before, and its last token is the one taken last. -/
theorem after_value {value rest : List Token} (hFront : cursor.remaining.front = value ++ rest)
    (hValue : IsValue (value.map Token.kind)) :
    (cursor.skipFrom .start).2.remaining = ⟨rest, cursor.remaining.ending⟩ ∧
      value.getLast?.map Token.text = some (cursor.skipFrom .start).2.last := by
  rw [skipFrom_of_isValue hFront hValue]
  refine ⟨remaining_foldl_take hFront, ?_⟩
  have hSome : value ≠ [] := fun hNone => hValue.ne_nil (List.map_eq_nil_iff.mpr hNone)
  rw [last_foldl_take, List.getLast?_eq_some_getLast hSome]
  rfl

/-- A value that cannot be skipped stops somewhere before its end. -/
theorem stops_of_error {error : ParseError} (h : (cursor.skipFrom .start).1 = .error error) :
    ∃ front rest, cursor.Stops .start front rest error := by
  rcases cursor.skips_or_stops .start with ⟨value, rest, hSkips⟩ | ⟨front, rest, found, hStops⟩
  · rw [hSkips.outcome] at h
    cases h
  · rw [hStops.outcome] at h
    cases h
    exact ⟨front, rest, hStops⟩

end Cursor

/-! ### The tokens to come -/

namespace Reader

def upcoming (reader : Reader) : Tokens :=
  match reader.pending with
  | none => .scan reader.offset reader.rest
  | some token =>
    if token.kind = .ending then ⟨[], .ok token.start⟩
    else .cons token (.scan reader.offset reader.rest)

/-- The tokens that a reader has still to take are those that remain for the cursor. -/
theorem StandsAt.upcoming {reader : Reader} {cursor : Cursor} {text : String}
    (h : reader.StandsAt cursor) (hTokens : cursor.tokens = .ofString text) :
    reader.upcoming = cursor.remaining := by
  rw [Reader.upcoming]
  split
  · rename_i hPending
    exact h.empty hPending
  · rename_i token hPending
    obtain ⟨hNext, hScan⟩ := h.pending token hPending
    split
    · rename_i hKind
      obtain ⟨position, hEnding, hAtEnd⟩ := Cursor.atEnd_of_next hTokens hNext hKind
      cases hAtEnd.next.symm.trans hNext
      rw [Cursor.remaining, List.drop_eq_nil_of_le hAtEnd.index, hAtEnd.ending]
      rfl
    · rename_i hKind
      rw [hScan, ← Cursor.remaining_take cursor token, Tokens.cons,
        ← Cursor.remaining_of_next hNext hKind]
      rfl

end Reader

/-- Skipping takes exactly one value. Whatever has been read of a text before, it succeeds if and
only if the tokens to come start with a value. Then there is only one such value, its tokens are
taken, and the next token is the one behind them. Otherwise it fails at the first token with which
no value goes on, or which is misspelled: the tokens before that one are taken, some value starts
with them, and the error is at that token. -/
theorem skips_one_value (text : String) (calls : List ReaderCall) :
    let reader := (Reader.ofString text).after calls
    let outcome := reader.skipValue
    (outcome.1 = .ok () ↔ ∃ value rest, reader.upcoming.front = value ++ rest ∧
      IsValue (value.map Token.kind)) ∧
    (∀ value rest, reader.upcoming.front = value ++ rest → IsValue (value.map Token.kind) →
      outcome.2.upcoming = ⟨rest, reader.upcoming.ending⟩ ∧
      value.getLast?.map Token.text = some outcome.2.last ∧
      ∀ other more, reader.upcoming.front = other ++ more → IsValue (other.map Token.kind) →
        other = value) ∧
    ∀ error, outcome.1 = .error error → ∃ front rest,
      reader.upcoming.front = front ++ rest ∧
      outcome.2.upcoming = ⟨rest, reader.upcoming.ending⟩ ∧
      StartsValue (front.map Token.kind) ∧
      ((outcome.2.upcoming.next = .error error ∧ Tokens.Misspelled 0 text.toList error) ∨
        ∃ token, outcome.2.upcoming.next = .ok token ∧ error.position = token.start ∧
          ¬ StartsValue (front.map Token.kind ++ [token.kind])) := by
  intro reader outcome
  generalize hCursor : (Cursor.ofString text).after calls = cursor
  have hStands : reader.StandsAt cursor := hCursor ▸ (Reader.standsAt_ofString text).after calls
  have hTokens : cursor.tokens = .ofString text := hCursor ▸ Cursor.tokens_after _ calls
  obtain ⟨hAnswer, hAfter⟩ := hStands.skipFrom .start
  have hUpcoming := hStands.upcoming hTokens
  have hBehind := hAfter.upcoming ((cursor.tokens_skipFrom .start).trans hTokens)
  have hOutcome : outcome = reader.skipFrom .start := rfl
  rw [hUpcoming, hOutcome, hAnswer, hBehind, hAfter.last]
  refine ⟨Cursor.skipFrom_eq_ok_iff, ?_, ?_⟩
  · intro value rest hFront hValue
    obtain ⟨hRest, hLast⟩ := Cursor.after_value hFront hValue
    exact ⟨hRest, hLast, fun other more => Cursor.isValue_unique hFront hValue⟩
  · intro error hError
    obtain ⟨front, rest, hStops⟩ := Cursor.stops_of_error hError
    have hRest := Cursor.remaining_foldl_take hStops.remaining
    rw [hStops.outcome]
    refine ⟨front, rest, hStops.remaining, hRest, startsValue_iff_allows.mpr hStops.allows, ?_⟩
    rw [← Cursor.next_eq]
    rcases hStops.blames with hMisspelled | ⟨token, hToken, hPosition, hNone⟩
    · have hReaches : cursor.remaining.Reaches front (.error error) := by
        refine ⟨rest, hStops.remaining, ?_⟩
        rw [← hRest, ← Cursor.next_eq, hMisspelled]
      have hEnding : (Tokens.ofString text).ending = .error error := hTokens ▸ hReaches.ending
      exact .inl ⟨hMisspelled, Tokens.misspelled_of_scan hEnding⟩
    · exact .inr ⟨token, hToken, hPosition, fun hStarts =>
        hNone (startsValue_iff_allows.mp hStarts)⟩

end PinnedTree
