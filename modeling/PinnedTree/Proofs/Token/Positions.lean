import PinnedTree.Listing.Slice
import PinnedTree.Proofs.Listing.Departures
import PinnedTree.Proofs.Token.Tiling

/-! Places that are reported about a text. A reader stands where a character starts, and so does
every token and every error; between the reader and the next token there are only blanks. -/
namespace PinnedTree

open Text
open Document (AreBlanks)

/-! ### Tokens and errors of a text -/

namespace Tokens

/-- Where the next token starts, whether or not it can be spelled. -/
def startOf : Except ParseError Token → Nat
  | .ok token => token.start
  | .error error => error.position

/-- A reading starts behind some blanks, and leaves what it does not read. -/
theorem nextToken_spans (offset : Nat) (text : List Char) :
    (∃ blanks back, text = blanks ++ back ∧ AreBlanks blanks ∧
      startOf ((nextToken offset text).map TokenStep.token) = offset + byteLength blanks) ∧
    ∀ step, nextToken offset text = .ok step →
      ∃ front, text = front ++ step.rest ∧ step.offset = offset + byteLength front := by
  obtain ⟨pieces, hTiled, -⟩ := tiled_scan offset text
  generalize (scan offset text).ending = ending at hTiled
  cases hTiled with
  | ending hBlanks hPosition hNext =>
      rw [hNext]
      refine ⟨⟨text, [], (List.append_nil text).symm, hBlanks, hPosition⟩, ?_⟩
      rintro step ⟨⟩
      exact ⟨text, (List.append_nil text).symm, hPosition⟩
  | @misspelled _ blanks rest c error hBlanks hBlank hPosition hLexical hNext =>
      rw [hNext]
      exact ⟨⟨blanks, c :: rest, rfl, hBlanks, hPosition⟩, nofun⟩
  | @token _ piece rest _ _ hPiece hNext hRest =>
      rw [hNext]
      refine ⟨⟨piece.blanks, piece.spelling ++ rest, ?_, hPiece.blanks, hPiece.start⟩, ?_⟩
      · rw [Piece.text, List.append_assoc]
      · rintro step ⟨⟩
        exact ⟨piece.text, rfl, rfl⟩

variable {text : String}

/-- A token starts where a character does. -/
theorem onBoundary_of_mem {token : Token} (h : token ∈ (ofString text).front) :
    OnBoundary text token.start := by
  obtain ⟨pieces, hTiled, hTokens⟩ := tiled_scan 0 text.toList
  rw [ofString, ← hTokens] at h
  exact (hTiled.onBoundary (List.nil_append _).symm byteLength_nil.symm).1 token h

/-- A token that is not a string stands in the text as it is. -/
theorem exists_written {token : Token} (h : token ∈ (ofString text).front)
    (hKind : token.kind ≠ .string) :
    ∃ front back, text.toList = front ++ (token.text.toList ++ back) ∧
      token.start = byteLength front := by
  obtain ⟨pieces, hTiled, hTokens⟩ := tiled_scan 0 text.toList
  rw [ofString, ← hTokens] at h
  obtain ⟨front, back, hText, hStart⟩ := hTiled.exists_written h hKind
  exact ⟨front, back, hText, by rw [hStart, Nat.zero_add]⟩

/-- A misspelled token is blamed where a character starts. -/
theorem onBoundary_of_ending {error : ParseError} (h : (ofString text).ending = .error error) :
    OnBoundary text error.position := by
  obtain ⟨pieces, hTiled, -⟩ := tiled_scan 0 text.toList
  exact (hTiled.onBoundary (List.nil_append _).symm byteLength_nil.symm).2 error h

theorem ending_eq {position : Nat} (h : (ofString text).ending = .ok position) :
    position = text.utf8ByteSize := by
  obtain ⟨pieces, hTiled, -⟩ := tiled_scan 0 text.toList
  obtain ⟨last, -, hLast⟩ := hTiled.exists_last
  rw [(hLast position h).2, Nat.zero_add, byteLength_toList]

/-- Whatever comes next starts where a character does. -/
theorem Reaches.onBoundary {front : List Token} {next : Except ParseError Token}
    (h : (ofString text).Reaches front next) : OnBoundary text (startOf next) := by
  obtain ⟨rest, hFront, rfl⟩ := h
  cases rest with
  | cons token rest =>
      exact onBoundary_of_mem (hFront ▸ List.mem_append_right front List.mem_cons_self)
  | nil =>
      cases hEnding : (ofString text).ending with
      | error error => exact onBoundary_of_ending hEnding
      | ok position => exact ending_eq hEnding ▸ onBoundary_utf8ByteSize text

/-- A machine that blames the token at hand blames a place of the text. -/
theorem onBoundary_of_run {σ : Type} {step : σ → Token → Except ListingError σ} {start : σ}
    {error : ParseError}
    (hStep : ∀ front state token fault, (ofString text).Reaches front (.ok token) →
      step state token = .error (.malformed fault) → fault.position = token.start)
    (h : (ofString text).run step .malformed start = .error (.malformed error)) :
    OnBoundary text error.position := by
  obtain ⟨front, next, state, hReaches, -, hNext⟩ := exists_of_run_eq_error h
  have hPlace := hReaches.onBoundary
  cases next with
  | error misspelled =>
      cases hNext
      exact hPlace
  | ok token =>
      rw [hStep front state token error hReaches hNext]
      exact hPlace

end Tokens

/-! ### Errors about listings -/

namespace Listing

/-- A listing is refused where the token is that is not allowed, or for its number of children at
the end of the text. -/
theorem onBoundary_of_error {limit : Nat} {text : String} {error : ParseError}
    (h : ofString limit text = .error (.malformed error)) : OnBoundary text error.position := by
  cases hRun : (Tokens.ofString text).run step .malformed (.opening, {}) with
  | error found =>
      obtain rfl := Except.error.inj ((ofString_eq_error hRun limit).symm.trans h)
      refine Tokens.onBoundary_of_run (fun front state token fault hReaches hStep => ?_) hRun
      obtain ⟨place, draft⟩ := state
      have hBlames := blames_step (fun hKind hNone => ?_) hStep
      · rcases hBlames with ⟨-, hNamed⟩ | ⟨-, fault, hPlace⟩
        · cases hNamed
        · cases hPlace
          rfl
      · rcases hReaches.mem with hMem | hEnding
        · exact outOfRange_of_mem hMem hKind hNone
        · cases hKind.symm.trans hEnding
  | ok state =>
      rw [ofString, Listing.draft, hRun] at h
      have hCounts : ofDraft limit (byteLength text.toList) state.2 = .error (.malformed error) := h
      have hPosition : error.position = text.utf8ByteSize := by
        rw [← byteLength_toList]
        simp only [ofDraft] at hCounts
        split at hCounts
        · cases hCounts
          rfl
        · split at hCounts
          · cases hCounts
            rfl
          · cases hCounts
      exact hPosition ▸ onBoundary_utf8ByteSize text

end Listing

namespace Slice

open Listing (refuse)

variable {token : Token} {error : ParseError}

theorem position_of_refuse {α : Type} {kind : TokenKind}
    (h : (refuse kind token : Except ListingError α) = .error (.malformed error)) :
    error.position = token.start := by
  cases h
  rfl

theorem position_of_pass {place : ValuePlace}
    (h : pass place token = .error (.malformed error)) : error.position = token.start := by
  rw [pass] at h
  split at h
  · cases h
    rfl
  · cases h
  · cases h

/-- The decoder of windows blames the token that it is at. -/
theorem position_of_step {state : State} (h : step state token = .error (.malformed error)) :
    error.position = token.start := by
  obtain ⟨place, names⟩ := state
  cases place with
  | value name =>
      simp only [step] at h
      split at h
      · cases h
      · exact position_of_pass (Listing.error_of_map h)
  | inside place => exact position_of_pass (Listing.error_of_map h)
  | _ =>
      simp only [step] at h
      repeat' split at h
      all_goals first
        | cases h; done
        | exact position_of_refuse h

/-- The decoder of windows blames a place where a character starts. -/
theorem onBoundary_of_error {text : String} (h : ofString text = .error (.malformed error)) :
    OnBoundary text error.position :=
  Tokens.onBoundary_of_run (fun _ _ _ _ _ hStep => position_of_step hStep) (Listing.error_of_map h)

end Slice

/-! ### Readers with lookahead -/

namespace Reader

/-- What a reader has not read is the end of the text, from the byte where the reader says, and the
token that it holds starts in the text. -/
structure Inside (text : String) (reader : Reader) : Prop where
  unread : ∃ front, text.toList = front ++ reader.rest ∧ reader.offset = byteLength front
  pending : ∀ token, reader.pending = some token → OnBoundary text token.start

/-- From the place of a reader to the byte `start` there are only blanks, and none if the reader
holds a token. -/
structure Awaits (text : String) (reader : Reader) (start : Nat) : Prop where
  le : reader.position ≤ start
  pending : reader.pending.isSome = true → reader.position = start
  between : ∃ front blanks back, text.toList = front ++ blanks ++ back ∧ AreBlanks blanks ∧
    reader.position = byteLength front ∧ start = byteLength (front ++ blanks)

variable {text : String} {reader : Reader}

/-- At the start of a text, a reader is inside of it. -/
theorem inside_ofString (text : String) : (ofString text).Inside text :=
  ⟨⟨[], rfl, rfl⟩, nofun⟩

namespace Inside

theorem position (h : reader.Inside text) : OnBoundary text reader.position := by
  rw [Reader.position]
  split
  · rename_i token hPending
    exact h.pending token hPending
  · obtain ⟨front, hText, hOffset⟩ := h.unread
    exact onBoundary_iff.mpr ⟨front, reader.rest, hText, hOffset⟩

theorem take (h : reader.Inside text) (token : Token) : (reader.take token).Inside text :=
  ⟨h.unread, nofun⟩

/-- A reader that looks ahead stays inside, and the token starts on a boundary. -/
theorem fill (h : reader.Inside text) :
    reader.fill.2.Inside text ∧ OnBoundary text (Tokens.startOf reader.fill.1) := by
  rw [Reader.fill]
  split
  · rename_i token hPending
    exact ⟨h, h.pending token hPending⟩
  · obtain ⟨front, hText, hOffset⟩ := h.unread
    obtain ⟨⟨blanks, back, hRest, -, hStart⟩, hSpans⟩ :=
      Tokens.nextToken_spans reader.offset reader.rest
    have hPlace : OnBoundary text
        (Tokens.startOf ((nextToken reader.offset reader.rest).map TokenStep.token)) := by
      apply onBoundary_iff.mpr
      refine ⟨front ++ blanks, back, by rw [hText, hRest, List.append_assoc], ?_⟩
      rw [hStart, hOffset, byteLength_append]
    cases hNext : nextToken reader.offset reader.rest with
    | error error =>
        rw [hNext] at hPlace
        exact ⟨h, hPlace⟩
    | ok step =>
        rw [hNext] at hPlace
        obtain ⟨read, hRead, hBehind⟩ := hSpans step hNext
        refine ⟨⟨⟨front ++ read, ?_, ?_⟩, ?_⟩, hPlace⟩
        · rw [hText, hRead, List.append_assoc]
        · rw [byteLength_append, ← hOffset]
          exact hBehind
        · rintro token ⟨⟩
          exact hPlace

end Inside

/-- A call leaves a reader inside of the text, and blames a place of the text if it fails. -/
structure Placed {α : Type} (text : String) (result : Except ParseError α × Reader) : Prop where
  inside : result.2.Inside text
  error : ∀ error, result.1 = .error error → OnBoundary text error.position

namespace Placed

variable {α β : Type} {filled : Reader}

theorem failed {error : ParseError} (hFilled : filled.Inside text)
    (hPlace : OnBoundary text error.position) :
    Placed text ((.error error : Except ParseError α), filled) := by
  refine ⟨hFilled, ?_⟩
  rintro _ ⟨⟩
  exact hPlace

theorem answered {answer : α} (hFilled : filled.Inside text) :
    Placed text ((.ok answer : Except ParseError α), filled) :=
  ⟨hFilled, nofun⟩

theorem map {change : α → β} {result : Except ParseError α × Reader} (h : Placed text result) :
    Placed text (result.map (Except.map change) id) := by
  obtain ⟨answer, after⟩ := result
  cases answer with
  | error error => exact failed h.inside (h.error error rfl)
  | ok answer => exact answered h.inside

end Placed

namespace Inside

theorem look (h : reader.Inside text) (call : TokenCall) : Placed text (reader.look call) := by
  obtain ⟨hFilled, hPlace⟩ := h.fill
  rw [look_eq]
  cases hFill : reader.fill with
  | mk next filled =>
      rw [hFill] at hFilled hPlace
      cases next with
      | error error => exact .failed hFilled hPlace
      | ok token =>
          dsimp only
          cases call.answer token with
          | error fault => exact .failed hFilled hPlace
          | ok answer =>
              apply Placed.answered
              split
              · exact hFilled.take token
              · exact hFilled

theorem skipFrom (h : reader.Inside text) (place : ValuePlace) :
    Placed text (reader.skipFrom place) := by
  induction place, reader using Reader.skipFrom.induct with
  | case1 place reader error filled hFill =>
      obtain ⟨hFilled, hPlace⟩ := h.fill
      rw [hFill] at hFilled hPlace
      rw [skipFrom_eq, hFill]
      exact .failed hFilled hPlace
  | case2 place reader token filled hFill fault hStep =>
      obtain ⟨hFilled, hPlace⟩ := h.fill
      rw [hFill] at hFilled hPlace
      simp only [skipFrom_eq, hFill, hStep]
      exact .failed hFilled hPlace
  | case3 place reader token filled hFill hStep =>
      have hFilled := h.fill.1
      rw [hFill] at hFilled
      simp only [skipFrom_eq, hFill, hStep]
      exact .answered (hFilled.take token)
  | case4 place reader token filled hFill following hStep ih =>
      have hFilled := h.fill.1
      rw [hFill] at hFilled
      rw [skipFrom_eq, hFill]
      dsimp only
      rw [hStep]
      exact ih (hFilled.take token)

/-- Every call leaves a reader inside. -/
theorem perform (h : reader.Inside text) (call : ReaderCall) :
    Placed text (reader.perform call) := by
  cases call with
  | token call => exact h.look call
  | skipValue => exact (h.skipFrom .start).map

theorem after (h : reader.Inside text) (calls : List ReaderCall) :
    (reader.after calls).Inside text := by
  induction calls generalizing reader with
  | nil => exact h
  | cons call calls ih => exact ih (h.perform call).inside

end Inside

/-- A reader stands before the token that comes next, or at it if the reader holds it. -/
theorem StandsAt.awaits {cursor : Cursor} (h : reader.StandsAt cursor)
    (hInside : reader.Inside text) : reader.Awaits text (Tokens.startOf cursor.next) := by
  cases hPending : reader.pending with
  | some token =>
      have hPosition : reader.position = token.start := by
        rw [position, hPending]
      have hBoundary := hInside.pending token hPending
      rw [(h.pending token hPending).1, Tokens.startOf, ← hPosition]
      rw [← hPosition] at hBoundary
      obtain ⟨front, back, hText, hFront⟩ := onBoundary_iff.mp hBoundary
      refine ⟨Nat.le_refl _, fun _ => rfl, front, [], back, ?_, nofun, hFront, ?_⟩
      · rw [List.append_nil, hText]
      · rw [List.append_nil, hFront]
  | none =>
      have hPosition : reader.position = reader.offset := by
        rw [position, hPending]
      obtain ⟨front, hText, hOffset⟩ := hInside.unread
      obtain ⟨⟨blanks, back, hRest, hBlanks, hStart⟩, -⟩ :=
        Tokens.nextToken_spans reader.offset reader.rest
      -- The reader has not looked ahead: its next token is the first one of the unread text.
      have hNext : Tokens.startOf cursor.next = reader.offset + byteLength blanks := by
        rw [← hStart, cursor.next_eq, ← h.empty hPending]
        cases hNext : nextToken reader.offset reader.rest with
        | error error => rw [Tokens.scan_of_error hNext]; rfl
        | ok step => rw [Tokens.next_scan hNext]; rfl
      rw [hNext, ← hPosition]
      refine ⟨Nat.le_add_right _ _, ?_, front, blanks, back, ?_, hBlanks, ?_, ?_⟩
      · rw [hPending]
        exact nofun
      · rw [hText, hRest, List.append_assoc]
      · rw [hPosition, hOffset]
      · rw [hPosition, hOffset, byteLength_append]

theorem StandsAt.fill_eq {cursor : Cursor} (h : reader.StandsAt cursor) :
    reader.fill.1 = cursor.next := by
  obtain ⟨filled, hFill, -⟩ := h.fill
  rw [hFill]

/-- The end stands at the end of the text, and nothing but the end comes behind it. -/
theorem StandsAt.ending {cursor : Cursor} (h : reader.StandsAt cursor)
    (hTokens : cursor.tokens = Tokens.ofString text) {token : Token}
    (hNext : cursor.next = .ok token) (hKind : token.kind = .ending) :
    token = .endingAt text.utf8ByteSize ∧
      ∀ calls, (reader.after calls).fill.1 = .ok token := by
  obtain ⟨position, hEnding, hAtEnd⟩ := Cursor.atEnd_of_next hTokens hNext hKind
  obtain rfl := Except.ok.inj (hNext.symm.trans hAtEnd.next)
  refine ⟨congrArg Token.endingAt (Tokens.ending_eq hEnding), fun calls => ?_⟩
  rw [(h.after calls).fill_eq]
  exact (hAtEnd.after calls).next

end Reader

/-- The errors with a place that are found in a text: by reading all tokens, by a reader inside of
the text, or in a listing that is decoded. -/
inductive Reported (text : String) : ParseError → Prop where
  | token {error : ParseError} (h : (Tokens.ofString text).ending = .error error) :
      Reported text error
  | call {reader : Reader} (hInside : reader.Inside text) {call : ReaderCall} {error : ParseError}
      (h : (reader.perform call).1 = .error error) : Reported text error
  | remark {reader : Reader} (hInside : reader.Inside text) (message : String) :
      Reported text (reader.remark message)
  | listing {limit : Nat} {error : ParseError}
      (h : Listing.ofString limit text = .error (.malformed error)) : Reported text error
  | slice {error : ParseError} (h : Slice.ofString text = .error (.malformed error)) :
      Reported text error

/-- An error with a place is blamed where a character starts. -/
theorem Reported.onBoundary {text : String} {error : ParseError} (h : Reported text error) :
    OnBoundary text error.position := by
  cases h with
  | token h => exact Tokens.onBoundary_of_ending h
  | call hInside h => exact (hInside.perform _).error _ h
  | remark hInside message => exact hInside.position
  | listing h => exact Listing.onBoundary_of_error h
  | slice h => exact Slice.onBoundary_of_error h

/-- A text is, in order, its tokens with the blanks before them, up to its end or to the one token
that is misspelled, and each token starts behind the one before it. No token and no error has a
place outside of the text or inside of a character. Whatever is called, a reader stands before the
next token with only blanks between them, and at the token if it has looked ahead; behind all other
tokens there is the end, always at the same place. -/
theorem tokens_tile (text : String) :
    (∃ pieces last, Tiled 0 text.toList pieces (Tokens.ofString text).ending ∧
      pieces.map Piece.token = (Tokens.ofString text).front ∧
      text.toList = pieces.flatMap Piece.text ++ last ∧
      ∀ position, (Tokens.ofString text).ending = .ok position →
        AreBlanks last ∧ position = text.utf8ByteSize) ∧
    ((Tokens.ofString text).front.Pairwise fun token behind => token.start < behind.start) ∧
    (∀ token ∈ (Tokens.ofString text).front, OnBoundary text token.start) ∧
    (∀ error, Reported text error → OnBoundary text error.position) ∧
    ∀ calls,
      let reader := (Reader.ofString text).after calls
      let next := ((Cursor.ofString text).after calls).next
      reader.Inside text ∧ reader.fill.1 = next ∧ reader.Awaits text (Tokens.startOf next) ∧
        ∀ token, next = .ok token → token.kind = .ending →
          token = .endingAt text.utf8ByteSize ∧ ∀ more, (reader.after more).fill.1 = .ok token := by
  obtain ⟨pieces, hTiled, hTokens⟩ := tiled_scan 0 text.toList
  obtain ⟨last, hText, hLast⟩ := hTiled.exists_last
  refine ⟨⟨pieces, last, hTiled, hTokens, hText, fun position hEnding => ?_⟩, ?_,
    fun token hToken => Tokens.onBoundary_of_mem hToken, fun error hError => hError.onBoundary,
    fun calls => ?_⟩
  · exact ⟨(hLast position hEnding).1, Tokens.ending_eq hEnding⟩
  · rw [Tokens.ofString, ← hTokens]
    exact hTiled.pairwise
  · have hStands := (Reader.standsAt_ofString text).after calls
    have hInside := (Reader.inside_ofString text).after calls
    refine ⟨hInside, hStands.fill_eq, hStands.awaits hInside, fun token hNext hKind => ?_⟩
    exact hStands.ending (Cursor.tokens_after _ calls) hNext hKind

end PinnedTree
