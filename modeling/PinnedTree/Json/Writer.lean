import PinnedTree.Double.Shortest
import PinnedTree.Json

/-!
JSON text in its compact form: no blanks, members in order, and only the characters escaped that
have to be.
-/

namespace PinnedTree.Json

/-- Floats are positional from 0.00001 up to 10^16, else have an exponent with its sign. -/
def floatLayout : DecimalLayout :=
  ⟨-4, 16, true, false⟩

/-- A hexadecimal escape of four digits, for the characters below U+0100. -/
def codeUnitEscape (c : Char) : List Char :=
  ['\\', 'u', '0', '0', Nat.digitChar (c.toNat / 16), Nat.digitChar (c.toNat % 16)]

def escape (c : Char) : List Char :=
  if c = '"' ∨ c = '\\' then ['\\', c]
  else if 0x20 ≤ c.toNat then [c]
  else if c = '\x08' then ['\\', 'b']
  else if c = '\t' then ['\\', 't']
  else if c = '\n' then ['\\', 'n']
  else if c = '\x0c' then ['\\', 'f']
  else if c = '\r' then ['\\', 'r']
  else codeUnitEscape c

def writeString (s : String) : List Char :=
  '"' :: s.toList.flatMap escape ++ ['"']

def writeInt (value : Int) : List Char :=
  (if value < 0 then ['-'] else []) ++ Nat.toDigits 10 value.natAbs

def Number.write : Number → List Char
  | .integer value => writeInt value
  | .float value => floatLayout.writeFinite value

def Atom.write : Atom → List Char
  | .boolean true => ['t', 'r', 'u', 'e']
  | .boolean false => ['f', 'a', 'l', 's', 'e']
  | .number value => value.write
  | .text value => writeString value

mutual

def write : Json → List Char
  | .null => ['n', 'u', 'l', 'l']
  | .atom value => value.write
  | .array items => '[' :: writeItems items ++ [']']
  | .object members => '{' :: writeMembers members ++ ['}']

def writeItems : List Json → List Char
  | [] => []
  | [item] => write item
  | item :: next :: rest => write item ++ ',' :: writeItems (next :: rest)

def writeMembers : List (String × Json) → List Char
  | [] => []
  | [(name, value)] => writeString name ++ ':' :: write value
  | (name, value) :: next :: rest =>
    writeString name ++ ':' :: write value ++ ',' :: writeMembers (next :: rest)

end

/-- The compact JSON text of a value. -/
def text (value : Json) : String :=
  String.ofList value.write

end PinnedTree.Json
