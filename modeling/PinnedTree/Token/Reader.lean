import PinnedTree.Token.Stream
import PinnedTree.Token.Value

/-!
A reader takes the tokens of a text one by one with one token of lookahead. Nothing past the
lookahead is read, so a misspelled token is an error only once it is reached. A call that fails
because the next token is not the expected one takes nothing, and the token can be read again.
-/

namespace PinnedTree

/-- A reader part of the way through a text. -/
structure Reader where
  /-- The length of the whole text in bytes. -/
  size : Nat
  /-- The byte at which the unread text starts. -/
  offset : Nat
  /-- The text that no token has been read from. -/
  rest : List Char
  /-- The lookahead: the next token, if it has been read already. -/
  pending : Option Token
  /-- The text of the token that was taken last. -/
  last : String
  deriving DecidableEq, Repr

namespace Reader

def ofString (text : String) : Reader :=
  { size := Text.byteLength text.toList
    offset := 0
    rest := text.toList
    pending := none
    last := "" }

/-- The next token, which becomes the lookahead. -/
def fill (reader : Reader) : Except ParseError Token × Reader :=
  match reader.pending with
  | some token => (.ok token, reader)
  | none =>
    match nextToken reader.offset reader.rest with
    | .error error => (.error error, reader)
    | .ok step =>
      (.ok step.token,
        { reader with offset := step.offset, rest := step.rest, pending := some step.token })

def take (reader : Reader) (token : Token) : Reader :=
  { reader with pending := none, last := token.text }

/-- The kind of the next token. -/
def peek (reader : Reader) : Except ParseError TokenKind × Reader :=
  let (next, filled) := reader.fill
  (next.map Token.kind, filled)

/-- Takes the next token, which must be of the given kind, and answers its text. -/
def read (kind : TokenKind) (reader : Reader) : Except ParseError String × Reader :=
  match reader.fill with
  | (.error error, filled) => (.error error, filled)
  | (.ok token, filled) =>
    if token.kind = kind then (.ok token.text, filled.take token)
    else (.error ⟨token.start, .expected kind token⟩, filled)

/-- Takes the next token whatever it is, short of the end, and answers its text. -/
def readAny (reader : Reader) : Except ParseError String × Reader :=
  match reader.fill with
  | (.error error, filled) => (.error error, filled)
  | (.ok token, filled) =>
    if token.kind = .ending then (.error ⟨token.start, .unexpectedEnd⟩, filled)
    else (.ok token.text, filled.take token)

/-- Takes the next token if it is of the given kind, and says whether it was. -/
def accept (kind : TokenKind) (reader : Reader) : Except ParseError Bool × Reader :=
  match reader.fill with
  | (.error error, filled) => (.error error, filled)
  | (.ok token, filled) =>
    if token.kind = kind then (.ok true, filled.take token) else (.ok false, filled)

/-- The first byte of the lookahead, or of the unread text when nothing is looked ahead at. -/
def position (reader : Reader) : Nat :=
  match reader.pending with
  | some token => token.start
  | none => reader.offset

/-- An error of the caller's own at the present position. -/
def remark (message : String) (reader : Reader) : ParseError :=
  ⟨reader.position, .remark message⟩

/-- How much of the text is still to be taken. -/
def remaining (reader : Reader) : Nat :=
  reader.rest.length + if reader.pending.isSome then 1 else 0

/-- Taking a token other than the end gets on. -/
theorem remaining_take_lt {reader filled : Reader} {token : Token}
    (hFill : reader.fill = (.ok token, filled)) (hKind : token.kind ≠ .ending) :
    (filled.take token).remaining < reader.remaining := by
  unfold fill at hFill
  split at hFill
  · rename_i lookahead hPending
    cases hFill
    simp [take, remaining, hPending]
  · rename_i hPending
    split at hFill
    · simp at hFill
    · rename_i step hNext
      cases hFill
      simpa [take, remaining, hPending] using nextToken_rest_lt hNext hKind

def skipFrom (place : ValuePlace) (reader : Reader) : Except ParseError Unit × Reader :=
  match _hFill : reader.fill with
  | (.error error, filled) => (.error error, filled)
  | (.ok token, filled) =>
    match _hStep : place.step token with
    | .error fault => (.error ⟨token.start, fault⟩, filled)
    | .ok none => (.ok (), filled.take token)
    | .ok (some next) => skipFrom next (filled.take token)
  termination_by reader.remaining
  decreasing_by exact remaining_take_lt _hFill (ValuePlace.kind_ne_ending_of_step _hStep)

def skipValue (reader : Reader) : Except ParseError Unit × Reader :=
  skipFrom .start reader

def inspect (reader : Reader) : String :=
  "JsopTokenizer \x7b len: " ++ toString reader.size ++ ", position: " ++ toString reader.position
    ++ ", last: " ++ Text.quote reader.last ++ " \x7d"

end Reader

end PinnedTree
