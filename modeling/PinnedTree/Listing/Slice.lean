import PinnedTree.Listing
import PinnedTree.Token.Value

/-!
The children in the text of a listing and nothing else. The values of all other members are passed
over, whatever they hold.
-/

namespace PinnedTree.Slice

/-- Places in a listing of which only the children are wanted. -/
inductive Place where
  /-- The brace that opens the listing. -/
  | opening
  /-- A name, or the end of an empty listing. -/
  | firstMember
  /-- A name. -/
  | name
  /-- The colon after a name. -/
  | colon (name : String)
  /-- The value of a member. -/
  | value (name : String)
  /-- The brace that closes a child. -/
  | childEnd (name : String)
  /-- Inside a value that is passed over. -/
  | inside (place : ValuePlace)
  /-- A comma, or the end of the listing. -/
  | separator
  /-- The end of the text. -/
  | ending
  /-- Nothing. -/
  | finished
  deriving DecidableEq, Repr

/-- A place together with the children found on the way to it. -/
abbrev State := Place × Array String

/-- The place after a token of a value that is passed over. -/
def pass (place : ValuePlace) (token : Token) : Except ListingError Place :=
  match place.step token with
  | .error fault => .error (.malformed ⟨token.start, fault⟩)
  | .ok none => .ok .separator
  | .ok (some next) => .ok (.inside next)

def step (state : State) (token : Token) : Except ListingError State :=
  let (place, names) := state
  match place with
  | .opening =>
    if token.kind = .leftBrace then .ok (.firstMember, names) else Listing.refuse .leftBrace token
  | .firstMember =>
    if token.kind = .rightBrace then .ok (.ending, names)
    else if token.kind = .string then .ok (.colon token.text, names)
    else Listing.refuse .string token
  | .name =>
    if token.kind = .string then .ok (.colon token.text, names)
    else Listing.refuse .string token
  | .colon name =>
    if token.kind = .colon then .ok (.value name, names) else Listing.refuse .colon token
  | .value name =>
    if token.kind = .leftBrace then .ok (.childEnd name, names)
    else (pass .start token).map fun place => (place, names)
  | .childEnd name =>
    if token.kind = .rightBrace then .ok (.separator, names.push name)
    else Listing.refuse .rightBrace token
  | .inside place => (pass place token).map fun place => (place, names)
  | .separator =>
    if token.kind = .comma then .ok (.name, names)
    else if token.kind = .rightBrace then .ok (.ending, names)
    else Listing.refuse .rightBrace token
  | .ending =>
    if token.kind = .ending then .ok (.finished, names) else Listing.refuse .ending token
  | .finished => Listing.refuse .ending token

/-- The names of the children that a listing lists, each as often as it is listed. -/
def ofString (text : String) : Except ListingError (List String) :=
  ((Tokens.ofString text).run step .malformed (.opening, #[])).map fun state => state.2.toList

end PinnedTree.Slice
