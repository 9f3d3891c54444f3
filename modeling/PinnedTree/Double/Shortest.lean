import PinnedTree.Double

/-!
Doubles written in the fewest digits that read back as the same double. The decimals with a given
exponent form a grid, and rounding is monotone, so if any point of a grid reads back as a value
then one of the value's two neighbours on that grid does. The coarsest such grid gives the fewest
digits, and the nearer neighbour is written.
-/

namespace PinnedTree

/-- The number `digits * 10 ^ exponent`. -/
structure Decimal where
  digits : Nat
  exponent : Int
  deriving DecidableEq, Repr

/-- How a format writes a decimal. -/
structure DecimalLayout where
  /-- Positional from this place of the point on, counted from the first digit. -/
  leastPoint : Int
  /-- Positional up to this place of the point. -/
  greatestPoint : Int
  /-- Whether a positive exponent has a sign. -/
  plusSign : Bool
  /-- Whether a value halfway between two decimals takes the upper or the even one. -/
  tieUp : Bool

namespace Double

/-- A count of steps divided by a power of ten, as a quotient. -/
def onGrid (steps : Nat) : Int → Nat × Nat
  | .ofNat power => (steps, stepsInOne * Nat.pow 10 power)
  | .negSucc power => (steps * Nat.pow 10 (power + 1), stepsInOne)

/-- Whether a decimal reads back as a positive double of `steps` steps. -/
def readsBack (steps : Nat) (decimal : Decimal) : Bool :=
  match ofDecimal false decimal.digits decimal.exponent with
  | .finite value => value.steps == steps
  | _ => false

/-- The neighbour on one grid that reads back, the nearer one if both do. -/
def neighbour? (tieUp : Bool) (steps : Nat) (exponent : Int) : Option Decimal :=
  let (num, den) := onGrid steps exponent
  let lower : Decimal := ⟨num / den, exponent⟩
  let upper : Decimal := ⟨num / den + 1, exponent⟩
  let twice := 2 * (num % den)
  let takesUpper := den < twice || (twice == den && (tieUp || (num / den) % 2 == 1))
  match readsBack steps lower, readsBack steps upper with
  | true, true => some (if takesUpper then upper else lower)
  | true, false => some lower
  | false, true => some upper
  | false, false => none

/-- Tries grids from `exponent` downwards, and writes the value out in full at the last. -/
def searchGrids (tieUp : Bool) (steps : Nat) : Nat → Int → Decimal
  | 0, _ => ⟨steps * Nat.pow 5 unitBits, -(unitBits : Int)⟩
  | grids + 1, exponent =>
    match neighbour? tieUp steps exponent with
    | some decimal => decimal
    | none => searchGrids tieUp steps grids (exponent - 1)

/-- An exponent at which a value of `steps` steps is less than one, so that no coarser grid has a
point that reads back. -/
def coarsestExponent (steps : Nat) : Int :=
  ((steps.log2 : Int) - unitBits) * 30103 / 100000 + 2

/-- The decimal of the fewest digits that reads back as a positive double. -/
def shortest (tieUp : Bool) (steps : Nat) : Decimal :=
  let start := coarsestExponent steps
  searchGrids tieUp steps (start + unitBits + 1).toNat start

end Double

namespace DecimalLayout

/-- The digits with the point after the first `point` of them and at least one digit on each
side. -/
def positional (digits : List Char) (point : Int) : List Char :=
  if point ≤ 0 then ['0', '.'] ++ List.replicate (-point).toNat '0' ++ digits
  else if digits.length ≤ point.toNat then
    digits ++ List.replicate (point.toNat - digits.length) '0' ++ ['.', '0']
  else digits.take point.toNat ++ '.' :: digits.drop point.toNat

/-- The digits with the point after the first of them, and an exponent. -/
def scientific (plusSign : Bool) (digits : List Char) (exponent : Int) : List Char :=
  let fraction := if digits.tail = [] then [] else '.' :: digits.tail
  let sign := if exponent < 0 then ['-'] else if plusSign then ['+'] else []
  digits.take 1 ++ fraction ++ ['e'] ++ sign ++ Nat.toDigits 10 exponent.natAbs

def write (layout : DecimalLayout) (decimal : Decimal) : List Char :=
  let digits := Nat.toDigits 10 decimal.digits
  let point := digits.length + decimal.exponent
  if layout.leastPoint ≤ point ∧ point ≤ layout.greatestPoint then positional digits point
  else scientific layout.plusSign digits (point - 1)

def writeFinite (layout : DecimalLayout) (value : FiniteDouble) : List Char :=
  let sign := if value.negative then ['-'] else []
  if value.steps = 0 then sign ++ ['0', '.', '0']
  else sign ++ layout.write (Double.shortest layout.tieUp value.steps)

end DecimalLayout

end PinnedTree
