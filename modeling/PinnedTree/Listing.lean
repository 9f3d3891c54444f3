import PinnedTree.Double.Reading
import PinnedTree.Scalar
import PinnedTree.Token.Stream
import PinnedTree.Tree

/-!
What the text of a listing says about a node. The text is read token by token: at each place of a
listing only some tokens are allowed, and the first one that is not ends the reading with an error
that does not depend on what comes after it.

    listing  := '{' '}' | '{' member (',' member)* '}'
    member   := ':childNodeCount' ':' number | name ':' value
    value    := '{' '}' | scalar | '[' ']' | '[' scalar (',' scalar)* ']'
-/

namespace PinnedTree

/-- Why the text of a listing is refused. -/
inductive ListingError where
  /-- The text departs from the grammar. -/
  | malformed (error : ParseError)
  /-- A token stands where a value is due, and cannot be held as one. -/
  | unexpectedToken (token : String)
  deriving DecidableEq, Repr

/-- A node as its listing describes it. A name that comes again takes the place of the first. -/
structure Listing where
  properties : Members Property
  /-- The names of the children that are listed. -/
  children : List String
  /-- The number of all children. -/
  childCount : Nat

namespace Listing

/-- The scalar that a number stands for: a double if it has a point or an exponent, else an integer
that must be in range. -/
def number? (text : String) : Option Scalar :=
  if text.toList.any (fun c => c = '.' || c = 'e' || c = 'E') then
    (Double.read? text.toList).map .double
  else (Text.integer? text.toList).bind Scalar.long?

def count? (text : String) : Option Nat :=
  (Text.natural? text.toList).filter (· < UInt64.size)

def scalar (token : Token) : Except ListingError Scalar :=
  match token.kind with
  | .number =>
    match number? token.text with
    | some value => .ok value
    | none => .error (.unexpectedToken token.text)
  | .true => .ok (.boolean true)
  | .false => .ok (.boolean false)
  | .string => .ok (.text token.text)
  | .ending => .error (.malformed ⟨token.start, .unexpectedEnd⟩)
  | _ => .error (.unexpectedToken token.text)

/-- Refuses a token where another kind is due. -/
def refuse {α : Type} (kind : TokenKind) (token : Token) : Except ListingError α :=
  .error (.malformed ⟨token.start, .expected kind token⟩)

/-- What has been read of a listing. -/
structure Draft where
  properties : Members Property := []
  children : List String := []
  childCount : Option Nat := none

namespace Draft

/-- Adds a property, in place of an earlier one of the same name. -/
def addProperty (draft : Draft) (name : String) (value : Property) : Draft :=
  { draft with properties := draft.properties.put name value }

/-- Adds a child, unless there is one of the same name. -/
def addChild (draft : Draft) (name : String) : Draft :=
  if name ∈ draft.children then draft else { draft with children := draft.children ++ [name] }

end Draft

/-- Places in a listing, by what may come next. -/
inductive Place where
  /-- The brace that opens the listing. -/
  | opening
  /-- A name, or the end of an empty listing. -/
  | firstMember
  /-- A name. -/
  | name
  /-- The colon after a name. -/
  | colon (name : String)
  /-- The number of children. -/
  | total
  /-- The value of a member. -/
  | value (name : String)
  /-- The brace that closes a child. -/
  | childEnd (name : String)
  /-- A scalar, or the end of an empty array. -/
  | firstItem (name : String)
  /-- A scalar after those already in an array. -/
  | item (name : String) (items : List Scalar)
  /-- A comma, or the end of an array. -/
  | itemSeparator (name : String) (items : List Scalar)
  /-- A comma, or the end of the listing. -/
  | separator
  /-- The end of the text. -/
  | ending
  /-- Nothing. -/
  | finished
  deriving DecidableEq

abbrev State := Place × Draft

/-- The state after one more token. -/
def step (state : State) (token : Token) : Except ListingError State :=
  let (place, draft) := state
  match place with
  | .opening =>
    if token.kind = .leftBrace then .ok (.firstMember, draft) else refuse .leftBrace token
  | .firstMember =>
    if token.kind = .rightBrace then .ok (.ending, draft)
    else if token.kind = .string then .ok (.colon token.text, draft)
    else refuse .string token
  | .name =>
    if token.kind = .string then .ok (.colon token.text, draft) else refuse .string token
  | .colon name =>
    if token.kind = .colon then
      .ok (if name = childNodeCount then .total else .value name, draft)
    else refuse .colon token
  | .total =>
    if token.kind = .number then
      match count? token.text with
      | some count => .ok (.separator, { draft with childCount := some count })
      | none => .error (.unexpectedToken token.text)
    else refuse .number token
  | .value name =>
    if token.kind = .leftBrace then .ok (.childEnd name, draft)
    else if token.kind = .leftBracket then .ok (.firstItem name, draft)
    else (scalar token).map fun value => (.separator, draft.addProperty name (.one value))
  | .childEnd name =>
    if token.kind = .rightBrace then .ok (.separator, draft.addChild name)
    else refuse .rightBrace token
  | .firstItem name =>
    if token.kind = .rightBracket then .ok (.separator, draft.addProperty name (.many []))
    else (scalar token).map fun value => (.itemSeparator name [value], draft)
  | .item name items =>
    (scalar token).map fun value => (.itemSeparator name (items ++ [value]), draft)
  | .itemSeparator name items =>
    if token.kind = .comma then .ok (.item name items, draft)
    else if token.kind = .rightBracket then
      .ok (.separator, draft.addProperty name (.many items))
    else refuse .rightBracket token
  | .separator =>
    if token.kind = .comma then .ok (.name, draft)
    else if token.kind = .rightBrace then .ok (.ending, draft)
    else refuse .rightBrace token
  | .ending =>
    if token.kind = .ending then .ok (.finished, draft) else refuse .ending token
  | .finished => refuse .ending token

def draft (tokens : Tokens) : Except ListingError Draft :=
  (tokens.run step .malformed (.opening, {})).map Prod.snd

/-- A listing of more children than it counts, or than were asked for, is refused at the end of the
text. -/
def ofDraft (limit position : Nat) (draft : Draft) : Except ListingError Listing :=
  let listed := draft.children.length
  let count := draft.childCount.getD listed
  if count < listed then .error (.malformed ⟨position, .moreThanCounted listed count⟩)
  else if limit < listed then .error (.malformed ⟨position, .moreThanRequested listed limit⟩)
  else .ok { properties := draft.properties, children := draft.children, childCount := count }

/-- Reads the listing of a node that was asked for at most `limit` children. -/
def ofString (limit : Nat) (text : String) : Except ListingError Listing := do
  let draft ← draft (.ofString text)
  ofDraft limit (Text.byteLength text.toList) draft

end Listing

end PinnedTree
