import PinnedTree.Token.Reader

/-! A cursor over all tokens of a text. It is what a reader with lookahead comes down to: the text
is cut into tokens at once, and an index says which of them is the next. -/
namespace PinnedTree

/-- A call that looks at the next token only. -/
inductive TokenCall where
  | peek
  | read (kind : TokenKind)
  | readAny
  | readString
  | accept (kind : TokenKind)
  deriving DecidableEq

inductive ReaderCall where
  | token (call : TokenCall)
  | skipValue
  deriving DecidableEq

inductive ReaderAnswer where
  | kind (kind : TokenKind)
  | text (text : String)
  | accepted (taken : Bool)
  | skipped
  deriving DecidableEq

namespace TokenCall

def answer (token : Token) : TokenCall → Except ParseFault ReaderAnswer
  | .peek => .ok (.kind token.kind)
  | .read kind =>
    if token.kind = kind then .ok (.text token.text) else .error (.expected kind token)
  | .readAny => if token.kind = .ending then .error .unexpectedEnd else .ok (.text token.text)
  | .readString =>
    if token.kind = .string then .ok (.text token.text) else .error (.expected .string token)
  | .accept kind => .ok (.accepted (token.kind = kind))

end TokenCall

def ReaderAnswer.takes : ReaderAnswer → Bool
  | .kind _ => false
  | .text _ => true
  | .accepted taken => taken
  | .skipped => false

/-- Whether a call has found out about the next token and left it where it is. -/
def leavesToken : Except ParseError ReaderAnswer → Bool
  | .ok answer => !answer.takes
  | .error error => !error.fault.isLexical

/-- The tokens of a text, with the index of the next one and the text of the last one taken. -/
structure Cursor where
  tokens : Tokens
  index : Nat
  last : String

namespace Cursor

def ofString (text : String) : Cursor :=
  ⟨.ofString text, 0, ""⟩

/-- The token at the index. Behind all others comes the end, or the error that ends the tokens. -/
def next (cursor : Cursor) : Except ParseError Token :=
  match cursor.tokens.front[cursor.index]? with
  | some token => .ok token
  | none => cursor.tokens.ending.map Token.endingAt

def take (cursor : Cursor) (token : Token) : Cursor :=
  { cursor with
    index := min (cursor.index + 1) cursor.tokens.front.length
    last := token.text }

/-- Only an answer that takes the token moves the cursor. -/
def look (cursor : Cursor) (call : TokenCall) : Except ParseError ReaderAnswer × Cursor :=
  match cursor.next with
  | .error error => (.error error, cursor)
  | .ok token =>
    match call.answer token with
    | .error fault => (.error ⟨token.start, fault⟩, cursor)
    | .ok answer => (.ok answer, if answer.takes then cursor.take token else cursor)

/-- A token that is not the end lies before the end of the list. -/
theorem lt_of_next {cursor : Cursor} {token : Token} (h : cursor.next = .ok token)
    (hKind : token.kind ≠ .ending) : cursor.index < cursor.tokens.front.length := by
  rw [next] at h
  split at h
  · rename_i found hFound
    exact (List.getElem?_eq_some_iff.mp hFound).1
  · cases hEnding : cursor.tokens.ending with
    | error error =>
        rw [hEnding] at h
        cases h
    | ok position =>
        rw [hEnding] at h
        cases h
        exact absurd rfl hKind

def skipFrom (place : ValuePlace) (cursor : Cursor) : Except ParseError Unit × Cursor :=
  match _hNext : cursor.next with
  | .error error => (.error error, cursor)
  | .ok token =>
    match _hStep : place.step token with
    | .error fault => (.error ⟨token.start, fault⟩, cursor)
    | .ok none => (.ok (), cursor.take token)
    | .ok (some following) => skipFrom following (cursor.take token)
  termination_by cursor.tokens.front.length - cursor.index
  decreasing_by
    have hLt := lt_of_next _hNext (ValuePlace.kind_ne_ending_of_step _hStep)
    simp only [take]
    omega

/-- The cursor has come to the end of the text, at the byte `position`. -/
structure AtEnd (cursor : Cursor) (position : Nat) : Prop where
  index : cursor.tokens.front.length ≤ cursor.index
  ending : cursor.tokens.ending = .ok position

/-- At the end of the text, the next token is the end. -/
theorem AtEnd.next {cursor : Cursor} {position : Nat} (h : cursor.AtEnd position) :
    cursor.next = .ok (.endingAt position) := by
  rw [Cursor.next, List.getElem?_eq_none h.index, h.ending]
  rfl

/-- A cursor at the end stays there when it takes a token. -/
theorem AtEnd.take {cursor : Cursor} {position : Nat} (h : cursor.AtEnd position) (token : Token) :
    (cursor.take token).AtEnd position :=
  ⟨Nat.le_min.mpr ⟨Nat.le_succ_of_le h.index, Nat.le_refl _⟩, h.ending⟩

def perform (cursor : Cursor) : ReaderCall → Except ParseError ReaderAnswer × Cursor
  | .token call => cursor.look call
  | .skipValue => (cursor.skipFrom .start).map (Except.map fun _ => .skipped) id

end Cursor

namespace Reader

def look (reader : Reader) : TokenCall → Except ParseError ReaderAnswer × Reader
  | .peek => reader.peek.map (Except.map .kind) id
  | .read kind => (reader.read kind).map (Except.map .text) id
  | .readAny => reader.readAny.map (Except.map .text) id
  | .readString => (reader.read .string).map (Except.map .text) id
  | .accept kind => (reader.accept kind).map (Except.map .accepted) id

def perform (reader : Reader) : ReaderCall → Except ParseError ReaderAnswer × Reader
  | .token call => reader.look call
  | .skipValue => reader.skipValue.map (Except.map fun _ => .skipped) id

end Reader

namespace ReaderCall

variable {σ : Type} (perform : σ → ReaderCall → Except ParseError ReaderAnswer × σ)

/-- Whether a call failed on a token that is misspelled. -/
def misspelled : Except ParseError ReaderAnswer → Bool
  | .error error => error.fault.isLexical
  | .ok _ => false

def after : List ReaderCall → σ → σ
  | [], state => state
  | call :: calls, state => after calls (perform state call).2

/-- The answers to some calls, each with the text of the last token taken after it. The first token
that is misspelled ends them. -/
def transcript (last : σ → String) :
    List ReaderCall → σ → List (Except ParseError ReaderAnswer × String)
  | [], _ => []
  | call :: calls, state =>
    let (answer, next) := perform state call
    (answer, last next) :: if misspelled answer then [] else transcript last calls next

end ReaderCall

abbrev Reader.after (reader : Reader) (calls : List ReaderCall) : Reader :=
  ReaderCall.after Reader.perform calls reader

abbrev Reader.transcript (reader : Reader) (calls : List ReaderCall) :
    List (Except ParseError ReaderAnswer × String) :=
  ReaderCall.transcript Reader.perform Reader.last calls reader

abbrev Cursor.after (cursor : Cursor) (calls : List ReaderCall) : Cursor :=
  ReaderCall.after Cursor.perform calls cursor

abbrev Cursor.transcript (cursor : Cursor) (calls : List ReaderCall) :
    List (Except ParseError ReaderAnswer × String) :=
  ReaderCall.transcript Cursor.perform Cursor.last calls cursor

end PinnedTree
