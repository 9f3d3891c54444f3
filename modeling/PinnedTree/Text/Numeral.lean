/-!
Decimal numerals: an optional sign, digits with an optional point among them, and an optional
exponent. A numeral is read as the exact decimal that it spells.
-/

namespace PinnedTree.Text

def digitsValue (digits : List Char) : Nat :=
  Nat.ofDigitChars 10 digits 0

/-- Splits off a leading sign and says whether it was a minus. -/
def splitSign : List Char → Bool × List Char
  | [] => (false, [])
  | c :: rest =>
    if c = '-' then (true, rest)
    else if c = '+' then (false, rest)
    else (false, c :: rest)

/-- Reads one or more digits and nothing else. -/
def natural? (text : List Char) : Option Nat :=
  if text ≠ [] ∧ text.all Char.isDigit then some (digitsValue text) else none

def integer? (text : List Char) : Option Int :=
  let (negative, digits) := splitSign text
  (natural? digits).map fun value => if negative then -(value : Int) else value

/-- A decimal numeral split at its marks. -/
structure Numeral where
  negative : Bool
  /-- The digits before the point. -/
  whole : List Char
  /-- The digits after the point, when there is a point. -/
  fraction : Option (List Char)
  /-- The exponent, when there is one. -/
  exponent : Option Int
  deriving DecidableEq, Repr

namespace Numeral

def splitPoint (text : List Char) : List Char × Option (List Char) × List Char :=
  let whole := text.takeWhile Char.isDigit
  match text.dropWhile Char.isDigit with
  | [] => (whole, none, [])
  | c :: rest =>
    if c = '.' then (whole, some (rest.takeWhile Char.isDigit), rest.dropWhile Char.isDigit)
    else (whole, none, c :: rest)

/-- Reads a numeral that fills the text and has a digit before its exponent. -/
def read? (text : List Char) : Option Numeral :=
  let (negative, unsigned) := splitSign text
  let (whole, fraction, tail) := splitPoint unsigned
  if whole = [] ∧ fraction.getD [] = [] then none
  else match tail with
    | [] => some { negative, whole, fraction, exponent := none }
    | mark :: exponent =>
      if mark = 'e' ∨ mark = 'E' then
        (integer? exponent).map fun value => { negative, whole, fraction, exponent := some value }
      else none

/-- The digits on both sides of the point as one number. -/
def digits (numeral : Numeral) : Nat :=
  digitsValue (numeral.whole ++ numeral.fraction.getD [])

/-- The power of ten that the digits are multiplied by. -/
def power (numeral : Numeral) : Int :=
  numeral.exponent.getD 0 - (numeral.fraction.getD []).length

end Numeral

end PinnedTree.Text
