import PinnedTree.Json
import PinnedTree.Text.Numeral

/-!
Numbers of JSON text. An integer within 64 bits stays an integer. Every other number becomes a
double by scaling: as many leading digits as fit into 64 bits are taken as a whole number, and that
is multiplied or divided by powers of ten, each step rounded. The result can be off the nearest
double by its last bits. Numbers too large for a double are refused.
-/

namespace PinnedTree.Json

def finite? : Double → Option FiniteDouble
  | .finite value => some value
  | _ => none

/-- The greatest power of ten that scaling uses at once. -/
def greatestPower : Nat := 308

def powerOfTen (power : Nat) : Option FiniteDouble :=
  finite? (Double.ofRatio false (Nat.pow 10 power) 1)

/-- A double times a power of ten, if it is in range. -/
def scale (value : FiniteDouble) (exponent : Int) : Option FiniteDouble :=
  if exponent.natAbs ≤ greatestPower then do
    let power ← powerOfTen exponent.natAbs
    finite? (if 0 ≤ exponent then Double.mul value power else Double.div value power)
  else if value.steps = 0 then some value
  else if 0 ≤ exponent then none
  else do
    let power ← powerOfTen greatestPower
    let less ← finite? (Double.div value power)
    scale less (exponent + greatestPower)
  termination_by exponent.natAbs
  decreasing_by
    simp only [greatestPower] at *
    omega

/-- Takes digits into a number as long as it fits into 64 bits, and answers the digits left. -/
def gather (number : Nat) : List Char → Nat × List Char
  | [] => (number, [])
  | digit :: rest =>
    let next := number * 10 + (digit.toNat - '0'.toNat)
    if next < UInt64.size then gather next rest else (number, digit :: rest)

/-- Exponents are counted in 32 bits; one that is larger makes the number zero or too large. -/
def exponentLimit : Int := 0x80000000

def scaled? (numeral : Text.Numeral) : Option FiniteDouble := do
  let fraction := numeral.fraction.getD []
  let (whole, wholeLeft) := gather 0 numeral.whole
  let (number, fractionLeft) := gather whole fraction
  let shift : Int := wholeLeft.length - (fraction.length - fractionLeft.length : Nat)
  let exponent := numeral.exponent.getD 0
  if exponent.natAbs < exponentLimit then
    let start ← finite? (Double.ofRatio false number 1)
    let magnitude ← scale start (shift + exponent)
    some { magnitude with negative := numeral.negative }
  else if number ≠ 0 ∧ 0 < exponent then none
  else some (Double.zero numeral.negative)

namespace Number

/-- The integer that a numeral without fraction and exponent stands for, if it fits into 64 bits.
Minus zero does not count as an integer. -/
def integer? (numeral : Text.Numeral) : Option Int :=
  let value := Text.digitsValue numeral.whole
  if numeral.fraction.isSome ∨ numeral.exponent.isSome then none
  else if numeral.negative then
    if 0 < value ∧ Int64.minValue.toInt ≤ -(value : Int) then some (-(value : Int)) else none
  else if value < UInt64.size then some value else none

def ofLiteral? (literal : List Char) : Option Number := do
  let numeral ← Text.Numeral.read? literal
  match integer? numeral with
  | some value => some (.integer value)
  | none => (scaled? numeral).map .float

end Number

end PinnedTree.Json
