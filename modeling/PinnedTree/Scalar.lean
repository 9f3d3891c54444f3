import PinnedTree.Json.Writer
import PinnedTree.Text.Quoted

/-!
Typed scalars and the values of properties: one scalar, or any number of them in order. A display
text tells apart the types, and one value from a list of values.
-/

namespace PinnedTree

/-- One value, or a list of values. One value is not the same as a list of one. -/
inductive OneOrMany (α : Type) where
  | one (value : α)
  | many (values : List α)
  deriving DecidableEq

namespace OneOrMany

variable {α β : Type}

def toList : OneOrMany α → List α
  | .one value => [value]
  | .many values => values

/-- Whether this is a list of values, even an empty one. -/
def isMany : OneOrMany α → Bool
  | .one _ => false
  | .many _ => true

def map (f : α → β) : OneOrMany α → OneOrMany β
  | .one value => .one (f value)
  | .many values => .many (values.map f)

end OneOrMany

inductive Scalar where
  | long (value : Int64)
  | double (value : Double)
  | boolean (value : Bool)
  | text (value : String)
  deriving DecidableEq

namespace Scalar

/-- Whether an integer lies in the range of the scalars. -/
def InLongRange (value : Int) : Prop :=
  Int64.minValue.toInt ≤ value ∧ value ≤ Int64.maxValue.toInt

instance (value : Int) : Decidable (InLongRange value) :=
  inferInstanceAs (Decidable (_ ∧ _))

def long? (value : Int) : Option Scalar :=
  if InLongRange value then some (.long (Int64.ofInt value)) else none

/-- Equality as values: of one type, and doubles as numbers. -/
def equal : Scalar → Scalar → Bool
  | .double left, .double right => left.equal right
  | left, right => left = right

/-- Doubles are displayed positionally from 0.0001 up to 10^16, else with a bare exponent. -/
def doubleLayout : DecimalLayout :=
  ⟨-3, 16, false, true⟩

def displayDouble : Double → List Char
  | .nan => ['N', 'a', 'N']
  | .infinite false => ['i', 'n', 'f']
  | .infinite true => ['-', 'i', 'n', 'f']
  | .finite value => doubleLayout.writeFinite value

/-- A scalar as it is displayed: strings are quoted, and a double never looks like an integer. -/
def display : Scalar → List Char
  | .long value => Json.writeInt value.toInt
  | .double value => displayDouble value
  | .boolean true => ['t', 'r', 'u', 'e']
  | .boolean false => ['f', 'a', 'l', 's', 'e']
  | .text value => Text.quoted value.toList

/-- A scalar as a JSON value. Only a finite double has one as a number. -/
def toJson : Scalar → Json
  | .long value => .atom (.number (.integer value.toInt))
  | .double (.finite value) => .atom (.number (.float value))
  | .double _ => .null
  | .boolean value => .atom (.boolean value)
  | .text value => .atom (.text value)

/-- The scalar that a JSON atom stands for. An integer that a scalar cannot hold becomes the
nearest double. -/
def ofAtom : Json.Atom → Scalar
  | .boolean value => .boolean value
  | .number (.integer value) => (long? value).getD (.double (.ofInt value))
  | .number (.float value) => .double (.finite value)
  | .text value => .text value

end Scalar

abbrev Property := OneOrMany Scalar

namespace Property

/-- Equality as values: of one form, and value by value. -/
def equal : Property → Property → Bool
  | .one left, .one right => left.equal right
  | .many left, .many right => left.isEqv right Scalar.equal
  | _, _ => false

def separated : List (List Char) → List Char
  | [] => []
  | [text] => text
  | text :: next :: rest => text ++ ',' :: ' ' :: separated (next :: rest)

/-- A value as it is displayed, a list of values in brackets. -/
def display : Property → List Char
  | .one value => value.display
  | .many values => '[' :: separated (values.map Scalar.display) ++ [']']

def line (name : String) (property : Property) : String :=
  name ++ " = " ++ String.ofList property.display

def toJson : Property → Json
  | .one value => value.toJson
  | .many values => .array (values.map Scalar.toJson)

/-- Reads a value from JSON: an atom, or an array of atoms. -/
def ofJson? : Json → Option Property
  | .atom value => some (.one (Scalar.ofAtom value))
  | .array items => (items.mapM Json.atom?).map fun values => .many (values.map Scalar.ofAtom)
  | _ => none

end Property

end PinnedTree
