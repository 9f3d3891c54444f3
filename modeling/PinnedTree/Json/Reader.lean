import PinnedTree.Json.Scaling
import PinnedTree.Token.Spelling

/-!
JSON values read from text. The tokens are those of listings without bare words, and a string must
not hold a control character as it is. A member that comes again replaces the value of the first.
-/

namespace PinnedTree.Json

/-- The number of arrays and objects that may stand inside each other. -/
def greatestDepth : Nat := 127

def lexeme? (text : List Char) : Option Lexeme :=
  match text.dropWhile Lexeme.isBlank with
  | [] => none
  | c :: rest =>
    match Lexeme.ofText c rest with
    | .error _ => none
    | .ok lexeme =>
      if lexeme.kind = .string ∧ lexeme.spelling.any (fun c => c.toNat < 0x20) then none
      else some lexeme

/-- What follows the next token, which must be of one kind. -/
def after? (kind : TokenKind) (text : List Char) : Option (List Char) := do
  let lexeme ← lexeme? text
  if lexeme.kind = kind then some lexeme.rest else none

def readString? (text : List Char) : Option (String × List Char) := do
  let lexeme ← lexeme? text
  if lexeme.kind = .string then some (String.ofList lexeme.text, lexeme.rest) else none

mutual

/-- A value and what follows it. The first number bounds the length of the recursion, the second
the depth of nesting. -/
def readValue? : Nat → Nat → List Char → Option (Json × List Char)
  | 0, _, _ => none
  | fuel + 1, depth, text => do
    let lexeme ← lexeme? text
    match lexeme.kind with
    | .null => some (.null, lexeme.rest)
    | .true => some (.atom (.boolean true), lexeme.rest)
    | .false => some (.atom (.boolean false), lexeme.rest)
    | .string => some (.atom (.text (String.ofList lexeme.text)), lexeme.rest)
    | .number =>
      let number ← Number.ofLiteral? lexeme.text
      some (.atom (.number number), lexeme.rest)
    | .leftBracket =>
      if depth = 0 then none
      else match after? .rightBracket lexeme.rest with
        | some rest => some (.array [], rest)
        | none =>
          let (items, rest) ← readItems? fuel (depth - 1) lexeme.rest
          some (.array items, rest)
    | .leftBrace =>
      if depth = 0 then none
      else match after? .rightBrace lexeme.rest with
        | some rest => some (.object [], rest)
        | none =>
          let (members, rest) ← readMembers? fuel (depth - 1) [] lexeme.rest
          some (.object members, rest)
    | _ => none

/-- The items of an array up to its end, at least one. -/
def readItems? : Nat → Nat → List Char → Option (List Json × List Char)
  | 0, _, _ => none
  | fuel + 1, depth, text => do
    let (item, rest) ← readValue? fuel depth text
    match after? .comma rest with
    | some rest =>
      let (items, rest) ← readItems? fuel depth rest
      some (item :: items, rest)
    | none =>
      let rest ← after? .rightBracket rest
      some ([item], rest)

/-- The members of an object up to its end, at least one, after those read before. -/
def readMembers? : Nat → Nat → Members Json → List Char → Option (Members Json × List Char)
  | 0, _, _, _ => none
  | fuel + 1, depth, members, text => do
    let (name, rest) ← readString? text
    let rest ← after? .colon rest
    let (value, rest) ← readValue? fuel depth rest
    let members := members.put name value
    match after? .comma rest with
    | some rest => readMembers? fuel depth members rest
    | none =>
      let rest ← after? .rightBrace rest
      some (members, rest)

end

def valueAt? (text : List Char) : Option (Json × List Char) :=
  readValue? (2 * text.length + 2) greatestDepth text

def isExhausted (text : List Char) : Bool :=
  text.all Lexeme.isBlank

def ofText? (text : List Char) : Option Json := do
  let (value, rest) ← valueAt? text
  if isExhausted rest then some value else none

def ofString? (text : String) : Option Json :=
  ofText? text.toList

def string? : Json → Option String
  | .atom (.text value) => some value
  | _ => none

def strings? : Json → Option (List String)
  | .array items => items.mapM string?
  | _ => none

/-- The natural number that a value is, if it is written as one within 64 bits. -/
def natural? : Json → Option Nat
  | .atom (.number (.integer (.ofNat value))) => some value
  | _ => none

end PinnedTree.Json
