import PinnedTree.Token

/-!
One complete value in a sequence of tokens: an atom, or arrays and objects around values, nested to
any depth. The machine below reads a value token by token; its places say what may come next, and
it refuses the first token with which no value goes on.
-/

namespace PinnedTree

/-- What a value can stand inside. -/
inductive Container where
  | array
  | object
  deriving DecidableEq, Repr

/-- Places inside a value. Each keeps the containers that are still open, innermost first. -/
inductive ValuePlace where
  /-- A value is due. -/
  | value (within : List Container)
  /-- After the start of an array: a value, or its end. -/
  | firstItem (outer : List Container)
  /-- After the start of an object: a name, or its end. -/
  | firstName (outer : List Container)
  /-- After a comma in an object: a name. -/
  | name (outer : List Container)
  /-- After a name: the colon. -/
  | colon (outer : List Container)
  /-- After a complete value: a comma, or the end of the innermost container. -/
  | separator (innermost : Container) (outer : List Container)
  deriving DecidableEq, Repr

namespace ValuePlace

def closing : Container → TokenKind
  | .array => .rightBracket
  | .object => .rightBrace

def afterComma (outer : List Container) : Container → ValuePlace
  | .array => .value (.array :: outer)
  | .object => .name outer

/-- The place after a complete value, which is none when no container is open. -/
def afterValue : List Container → Option ValuePlace
  | [] => none
  | innermost :: outer => some (.separator innermost outer)

/-- Takes the first token of a value. -/
def beginValue (within : List Container) (token : Token) :
    Except ParseFault (Option ValuePlace) :=
  if token.kind = .leftBrace then .ok (some (.firstName within))
  else if token.kind = .leftBracket then .ok (some (.firstItem within))
  else if token.kind.isAtom then .ok (afterValue within)
  else .error (.expectedValue token.kind)

def require (kind : TokenKind) (token : Token) (next : Option ValuePlace) :
    Except ParseFault (Option ValuePlace) :=
  if token.kind = kind then .ok next else .error (.expected kind token)

/-- The place after one more token, which is none after the last token of the value. -/
def step (place : ValuePlace) (token : Token) : Except ParseFault (Option ValuePlace) :=
  match place with
  | .value within => beginValue within token
  | .firstItem outer =>
    if token.kind = .rightBracket then .ok (afterValue outer)
    else beginValue (.array :: outer) token
  | .firstName outer =>
    if token.kind = .rightBrace then .ok (afterValue outer)
    else require .string token (some (.colon outer))
  | .name outer => require .string token (some (.colon outer))
  | .colon outer => require .colon token (some (.value (.object :: outer)))
  | .separator innermost outer =>
    if token.kind = .comma then .ok (some (afterComma outer innermost))
    else require (closing innermost) token (afterValue outer)

def start : ValuePlace :=
  .value []

/-- No value goes on with the end of the text. -/
theorem kind_ne_ending_of_step {place : ValuePlace} {token : Token} {next : Option ValuePlace}
    (hStep : place.step token = .ok next) : token.kind ≠ .ending := by
  intro hKind
  cases place with
  | separator innermost outer =>
    cases innermost <;> simp [step, require, closing, hKind] at hStep
  | _ => simp [step, beginValue, require, TokenKind.isAtom, hKind] at hStep

end ValuePlace

end PinnedTree
