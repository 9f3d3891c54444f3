import PinnedTree.Proofs.Number.Lexing
import PinnedTree.Proofs.Token.Cursor

/-! A reader with lookahead behaves as a cursor over all tokens of the text. The tokens of the
reader that are still to come are the lookahead and the tokens of the unread text. -/
namespace PinnedTree

namespace TokenKind

theorem ofMark?_ne_ending {c : Char} {kind : TokenKind} (h : ofMark? c = some kind) :
    kind ≠ .ending := by
  rintro rfl
  simp only [ofMark?] at h
  repeat' split at h
  all_goals cases h

theorem ofWord_ne_ending (word : List Char) : ofWord word ≠ .ending := by
  intro h
  simp only [ofWord] at h
  repeat' split at h
  all_goals cases h

end TokenKind

/-- No lexeme is the end of the text. -/
theorem Lexeme.kind_ne_ending {c : Char} {rest : List Char} {lexeme : Lexeme}
    (h : ofText c rest = .ok lexeme) : lexeme.kind ≠ .ending := by
  rw [ofText] at h
  split at h
  · rename_i kind hMark
    cases h
    exact TokenKind.ofMark?_ne_ending hMark
  · split at h
    · obtain ⟨tail, hTail, rfl⟩ := exists_of_map_eq_ok h
      intro hKind
      cases (kind_stringTail hTail).symm.trans hKind
    · split at h
      · obtain ⟨spelling, -, rfl⟩ := exists_of_map_eq_ok h
        intro hKind
        cases hKind
      · split at h
        · cases h
          exact TokenKind.ofWord_ne_ending _
        · cases h

namespace Tokens

def next (tokens : Tokens) : Except ParseError Token :=
  match tokens.front with
  | [] => tokens.ending.map Token.endingAt
  | token :: _ => .ok token

def tail (tokens : Tokens) : Tokens :=
  { tokens with front := tokens.front.tail }

theorem next_cons (token : Token) (tokens : Tokens) : (cons token tokens).next = .ok token := rfl

theorem tail_cons (token : Token) (tokens : Tokens) : (cons token tokens).tail = tokens := rfl

/-- Scanning takes the next token and goes on behind it. -/
theorem scan_eq (offset : Nat) (text : List Char) :
    scan offset text =
      match nextToken offset text with
      | .error error => ⟨[], .error error⟩
      | .ok step =>
        if step.token.kind = .ending then ⟨[], .ok step.offset⟩
        else cons step.token (scan step.offset step.rest) := by
  rw [scan, nextToken]
  split
  · rename_i hText
    simp [hText, Token.endingAt]
  · rename_i c rest hText
    simp only [hText]
    split
    · rename_i fault hFault
      simp [hFault]
    · rename_i lexeme hLexeme
      simp [hLexeme, Lexeme.token, Lexeme.kind_ne_ending hLexeme]

/-- A text that starts with a misspelled token has no tokens. -/
theorem scan_of_error {offset : Nat} {text : List Char} {error : ParseError}
    (h : nextToken offset text = .error error) : scan offset text = ⟨[], .error error⟩ := by
  rw [scan_eq, h]

/-- The end stands where the text ends, and nothing is left behind it. -/
theorem ending_of_nextToken {offset : Nat} {text : List Char} {step : TokenStep}
    (h : nextToken offset text = .ok step) (hKind : step.token.kind = .ending) :
    step = ⟨.endingAt step.offset, step.offset, []⟩ := by
  rw [nextToken] at h
  split at h
  · cases h
    rfl
  · split at h
    · cases h
    · rename_i lexeme hLexeme
      cases h
      exact absurd hKind (Lexeme.kind_ne_ending hLexeme)

/-- The first token of a text is the one that is cut off it. -/
theorem next_scan {offset : Nat} {text : List Char} {step : TokenStep}
    (h : nextToken offset text = .ok step) : (scan offset text).next = .ok step.token := by
  rw [scan_eq, h]
  by_cases hKind : step.token.kind = .ending
  · rw [ending_of_nextToken h hKind]
    rfl
  · simp only [hKind, if_false, next_cons]

/-- The tokens behind the first are those of what it leaves of the text. -/
theorem tail_scan {offset : Nat} {text : List Char} {step : TokenStep}
    (h : nextToken offset text = .ok step) :
    (scan offset text).tail = scan step.offset step.rest := by
  rw [scan_eq, h]
  by_cases hKind : step.token.kind = .ending
  · rw [ending_of_nextToken h hKind]
    simp [scan_eq, nextToken, tokenStart, Token.endingAt, tail]
  · simp only [hKind, if_false, tail_cons]

end Tokens

namespace Cursor

def remaining (cursor : Cursor) : Tokens :=
  { cursor.tokens with front := cursor.tokens.front.drop cursor.index }

theorem next_eq (cursor : Cursor) : cursor.next = cursor.remaining.next := by
  rw [next, Tokens.next, remaining, ← List.head?_drop]
  cases cursor.tokens.front.drop cursor.index <;> rfl

theorem remaining_take (cursor : Cursor) (token : Token) :
    (cursor.take token).remaining = cursor.remaining.tail := by
  simp only [remaining, take, Tokens.tail, List.tail_drop]
  rw [← List.drop_eq_drop_min]

end Cursor

namespace Reader

/-- Every call that looks at one token looks ahead first. -/
theorem look_eq (reader : Reader) (call : TokenCall) :
    reader.look call =
      match reader.fill with
      | (.error error, filled) => (.error error, filled)
      | (.ok token, filled) =>
        match call.answer token with
        | .error fault => (.error ⟨token.start, fault⟩, filled)
        | .ok answer => (.ok answer, if answer.takes then filled.take token else filled) := by
  cases hFill : reader.fill with
  | mk answer filled =>
      cases answer with
      | error error => cases call <;> simp [look, peek, read, readAny, accept, hFill, Except.map]
      | ok token =>
          cases call with
          | peek => simp [look, peek, hFill, Except.map, TokenCall.answer, ReaderAnswer.takes]
          | read kind =>
              by_cases hKind : token.kind = kind <;>
                simp [look, read, hFill, hKind, Except.map, TokenCall.answer, ReaderAnswer.takes]
          | readAny =>
              by_cases hKind : token.kind = .ending <;>
                simp [look, readAny, hFill, hKind, Except.map, TokenCall.answer,
                  ReaderAnswer.takes]
          | readString =>
              by_cases hKind : token.kind = .string <;>
                simp [look, read, hFill, hKind, Except.map, TokenCall.answer, ReaderAnswer.takes]
          | accept kind =>
              by_cases hKind : token.kind = kind <;>
                simp [look, accept, hFill, hKind, Except.map, TokenCall.answer,
                  ReaderAnswer.takes]

/-- A value is skipped token by token: each is taken if it leads on. -/
theorem skipFrom_eq (place : ValuePlace) (reader : Reader) :
    reader.skipFrom place =
      match reader.fill with
      | (.error error, filled) => (.error error, filled)
      | (.ok token, filled) =>
        match place.step token with
        | .error fault => (.error ⟨token.start, fault⟩, filled)
        | .ok none => (.ok (), filled.take token)
        | .ok (some following) => (filled.take token).skipFrom following := by
  rw [skipFrom]
  split
  · rename_i hFill
    rw [hFill]
  · rename_i hFill
    rw [hFill]
    dsimp only
    split
    · rename_i hStep
      rw [hStep]
    · rename_i hStep
      rw [hStep]
    · rename_i hStep
      rw [hStep]

/-- A reader stands where a cursor does. -/
structure StandsAt (reader : Reader) (cursor : Cursor) : Prop where
  last : reader.last = cursor.last
  pending : ∀ token, reader.pending = some token → cursor.next = .ok token ∧
    Tokens.scan reader.offset reader.rest = cursor.remaining.tail
  empty : reader.pending = none → Tokens.scan reader.offset reader.rest = cursor.remaining

/-- At the start of a text, a reader stands where a cursor does. -/
theorem standsAt_ofString (text : String) : (ofString text).StandsAt (.ofString text) :=
  ⟨rfl, nofun, fun _ => rfl⟩

namespace StandsAt

variable {reader : Reader} {cursor : Cursor}

/-- Looking ahead answers the token at the index and keeps the place. -/
theorem fill (h : reader.StandsAt cursor) :
    ∃ filled, reader.fill = (cursor.next, filled) ∧ filled.StandsAt cursor ∧
      ∀ token, cursor.next = .ok token → filled.pending = some token := by
  rw [Reader.fill]
  split
  · rename_i token hPending
    have hNext := (h.pending token hPending).1
    refine ⟨reader, by rw [hNext], h, ?_⟩
    intro found hFound
    rw [hNext] at hFound
    cases hFound
    exact hPending
  · rename_i hPending
    have hRest := h.empty hPending
    rw [cursor.next_eq, ← hRest]
    split
    · rename_i error hError
      rw [Tokens.scan_of_error hError]
      exact ⟨reader, rfl, h, nofun⟩
    · rename_i step hStep
      have hNext := Tokens.next_scan hStep
      rw [hNext]
      refine ⟨_, rfl, ⟨h.last, ?_, nofun⟩, ?_⟩
      · rintro token ⟨⟩
        rw [cursor.next_eq, ← hRest]
        exact ⟨hNext, (Tokens.tail_scan hStep).symm⟩
      · rintro token ⟨⟩
        rfl

theorem take (h : reader.StandsAt cursor) {token : Token} (hPending : reader.pending = some token) :
    (reader.take token).StandsAt (cursor.take token) := by
  refine ⟨rfl, nofun, fun _ => ?_⟩
  rw [cursor.remaining_take]
  exact (h.pending token hPending).2

/-- A look at the next token answers as the cursor does, and leaves the reader where the cursor
is. -/
theorem look (h : reader.StandsAt cursor) (call : TokenCall) :
    (reader.look call).1 = (cursor.look call).1 ∧
      (reader.look call).2.StandsAt (cursor.look call).2 := by
  obtain ⟨filled, hFill, hFilled, hPending⟩ := h.fill
  rw [look_eq, hFill, Cursor.look]
  cases hNext : cursor.next with
  | error error => exact ⟨rfl, hFilled⟩
  | ok token =>
      dsimp only
      cases call.answer token with
      | error fault => exact ⟨rfl, hFilled⟩
      | ok answer =>
          refine ⟨rfl, ?_⟩
          dsimp only
          split
          · exact hFilled.take (hPending token hNext)
          · exact hFilled

/-- The value is followed token by token on both sides. -/
theorem skipFrom (h : reader.StandsAt cursor) (place : ValuePlace) :
    (reader.skipFrom place).1 = (cursor.skipFrom place).1 ∧
      (reader.skipFrom place).2.StandsAt (cursor.skipFrom place).2 := by
  fun_induction Cursor.skipFrom place cursor generalizing reader with
  | case1 place cursor error hNext =>
      obtain ⟨filled, hFill, hFilled, -⟩ := h.fill
      rw [skipFrom_eq, hFill, hNext]
      exact ⟨rfl, hFilled⟩
  | case2 place cursor token hNext fault hStep =>
      obtain ⟨filled, hFill, hFilled, -⟩ := h.fill
      rw [skipFrom_eq, hFill, hNext]
      dsimp only
      rw [hStep]
      exact ⟨rfl, hFilled⟩
  | case3 place cursor token hNext hStep =>
      obtain ⟨filled, hFill, hFilled, hPending⟩ := h.fill
      rw [skipFrom_eq, hFill, hNext]
      dsimp only
      rw [hStep]
      exact ⟨rfl, hFilled.take (hPending token hNext)⟩
  | case4 place cursor token hNext following hStep ih =>
      obtain ⟨filled, hFill, hFilled, hPending⟩ := h.fill
      rw [skipFrom_eq, hFill, hNext]
      dsimp only
      rw [hStep]
      exact ih (hFilled.take (hPending token hNext))

/-- A call answers as the cursor does, and leaves the reader where the cursor is. -/
theorem perform (h : reader.StandsAt cursor) (call : ReaderCall) :
    (reader.perform call).1 = (cursor.perform call).1 ∧
      (reader.perform call).2.StandsAt (cursor.perform call).2 := by
  cases call with
  | token call => exact h.look call
  | skipValue =>
      obtain ⟨hAnswer, hAfter⟩ := h.skipFrom .start
      exact ⟨congrArg (Except.map fun _ : Unit => ReaderAnswer.skipped) hAnswer, hAfter⟩

/-- After any calls, a reader stands where the cursor does. -/
theorem after (h : reader.StandsAt cursor) (calls : List ReaderCall) :
    (reader.after calls).StandsAt (cursor.after calls) := by
  induction calls generalizing reader cursor with
  | nil => exact h
  | cons call calls ih => exact ih (h.perform call).2

/-- Any calls answer as on the cursor. -/
theorem transcript_eq (h : reader.StandsAt cursor) (calls : List ReaderCall) :
    reader.transcript calls = cursor.transcript calls := by
  induction calls generalizing reader cursor with
  | nil => rfl
  | cons call calls ih =>
      obtain ⟨hAnswer, hAfter⟩ := h.perform call
      simp only [Reader.transcript, Cursor.transcript, ReaderCall.transcript]
      rw [hAnswer, hAfter.last, ← Reader.transcript, ← Cursor.transcript, ih hAfter]

end StandsAt

end Reader

/-! ### Tokens that are left, and the end -/

namespace Cursor

/-- A call that leaves the token leaves everything. -/
theorem look_of_leavesToken {cursor : Cursor} {call : TokenCall}
    (h : leavesToken (cursor.look call).1 = true) : (cursor.look call).2 = cursor := by
  rw [look] at h ⊢
  split at h
  · rfl
  · split at h
    · rfl
    · rename_i answer hAnswer
      have hLeaves : answer.takes = false := by simpa [leavesToken] using h
      simp only [hLeaves, Bool.false_eq_true, if_false]

theorem tokens_skipFrom (place : ValuePlace) (cursor : Cursor) :
    (cursor.skipFrom place).2.tokens = cursor.tokens := by
  fun_induction skipFrom place cursor with
  | case1 => rfl
  | case2 => rfl
  | case3 => rfl
  | case4 _ _ _ _ _ _ ih => exact ih

theorem tokens_look (cursor : Cursor) (call : TokenCall) :
    (cursor.look call).2.tokens = cursor.tokens := by
  rw [look]
  split
  · rfl
  · split
    · rfl
    · dsimp only
      split <;> rfl

theorem tokens_after (cursor : Cursor) (calls : List ReaderCall) :
    (cursor.after calls).tokens = cursor.tokens := by
  induction calls generalizing cursor with
  | nil => rfl
  | cons call calls ih =>
      refine (ih _).trans ?_
      cases call with
      | token call => exact cursor.tokens_look call
      | skipValue => exact cursor.tokens_skipFrom .start

namespace AtEnd

variable {cursor : Cursor} {position : Nat}

theorem skipFrom (h : cursor.AtEnd position) (place : ValuePlace) :
    (cursor.skipFrom place).2.AtEnd position := by
  fun_induction Cursor.skipFrom place cursor with
  | case1 => exact h
  | case2 => exact h
  | case3 place cursor token => exact h.take token
  | case4 place cursor token _ _ _ ih => exact ih (h.take token)

theorem look (h : cursor.AtEnd position) (call : TokenCall) :
    (cursor.look call).2.AtEnd position := by
  rw [Cursor.look, h.next]
  dsimp only
  split
  · exact h
  · dsimp only
    split
    · exact h.take _
    · exact h

/-- Whatever is called at the end, the cursor stays there. -/
theorem after (h : cursor.AtEnd position) (calls : List ReaderCall) :
    (cursor.after calls).AtEnd position := by
  induction calls generalizing cursor with
  | nil => exact h
  | cons call calls ih =>
      cases call with
      | token call => exact ih (h.look call)
      | skipValue => exact ih (h.skipFrom .start)

end AtEnd

/-- Looking at the next token answers its kind. -/
theorem peek_eq_ok_iff {cursor : Cursor} {kind : TokenKind} :
    (cursor.look .peek).1 = .ok (.kind kind) ↔
      ∃ token, cursor.next = .ok token ∧ token.kind = kind := by
  rw [look]
  cases cursor.next with
  | error error => simp
  | ok token => simp [TokenCall.answer]

/-- The end is the next token only when all others have been taken. -/
theorem atEnd_of_next {text : String} {cursor : Cursor} {token : Token}
    (hTokens : cursor.tokens = Tokens.ofString text) (hNext : cursor.next = .ok token)
    (hKind : token.kind = .ending) :
    ∃ position, (Tokens.ofString text).ending = .ok position ∧ cursor.AtEnd position := by
  rw [next, hTokens] at hNext
  split at hNext
  · rename_i hFound
    cases hNext
    have hNotEnding := Tokens.forall_scan (P := fun token => token.kind ≠ .ending)
      (fun c rest lexeme start hLexeme => Lexeme.kind_ne_ending hLexeme) 0 text.toList token
      (List.mem_of_getElem? hFound)
    exact absurd hKind hNotEnding
  · rename_i hFound
    obtain ⟨position, hEnding, -⟩ := exists_of_map_eq_ok hNext
    refine ⟨position, hEnding, ?_, by rw [hTokens, hEnding]⟩
    rw [hTokens]
    exact List.getElem?_eq_none_iff.mp hFound

/-- At the end, a look finds the end, and there is no token to take. -/
theorem AtEnd.answers {cursor : Cursor} {position : Nat} (h : cursor.AtEnd position) :
    (cursor.look .peek).1 = .ok (.kind .ending) ∧
      (cursor.look (.read .ending)).1 = .ok (.text "") ∧
      (cursor.look .readAny).1 = .error ⟨position, .unexpectedEnd⟩ := by
  simp only [Cursor.look, h.next]
  exact ⟨rfl, rfl, rfl⟩

end Cursor

open ReaderCall in
/-- A reader with lookahead answers as a cursor over the list of all tokens does, up to the first
token that is misspelled. A call that leaves the next token where it is has no effect on any later
call. Behind the end there is nothing: whatever is called there, the end is still the next token,
it can be read again, and no other token is found. -/
theorem lookahead_exact (text : String) (calls : List ReaderCall) :
    (Reader.ofString text).transcript calls = (Cursor.ofString text).transcript calls ∧
      let reader := (Reader.ofString text).after calls
      (∀ call, leavesToken (reader.look call).1 = true →
        (reader.look call).2.last = reader.last ∧
          ∀ more, (reader.look call).2.transcript more = reader.transcript more) ∧
      ((reader.look .peek).1 = .ok (.kind .ending) →
        ∃ position, (Tokens.ofString text).ending = .ok position ∧ ∀ more,
          ((reader.after more).look .peek).1 = .ok (.kind .ending) ∧
            ((reader.after more).look (.read .ending)).1 = .ok (.text "") ∧
            ((reader.after more).look .readAny).1 = .error ⟨position, .unexpectedEnd⟩) := by
  have hStart := Reader.standsAt_ofString text
  have hStands := hStart.after calls
  refine ⟨hStart.transcript_eq calls, ?_, ?_⟩
  · intro call hLeaves
    obtain ⟨hAnswer, hAfter⟩ := hStands.look call
    rw [hAnswer] at hLeaves
    rw [Cursor.look_of_leavesToken hLeaves] at hAfter
    exact ⟨hAfter.last.trans hStands.last.symm,
      fun more => (hAfter.transcript_eq more).trans (hStands.transcript_eq more).symm⟩
  · intro hPeek
    rw [(hStands.look .peek).1] at hPeek
    obtain ⟨token, hNext, hKind⟩ := Cursor.peek_eq_ok_iff.mp hPeek
    obtain ⟨position, hEnding, hAtEnd⟩ :=
      Cursor.atEnd_of_next (Cursor.tokens_after _ calls) hNext hKind
    refine ⟨position, hEnding, fun more => ?_⟩
    have hMore := hStands.after more
    rw [(hMore.look .peek).1, (hMore.look (.read .ending)).1, (hMore.look .readAny).1]
    exact (hAtEnd.after more).answers

end PinnedTree
