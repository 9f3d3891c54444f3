/-!
Floating-point numbers of 64 bits, as exact values. The smallest positive double is 2⁻¹⁰⁷⁴, and
every finite double is a whole number of such steps with at most 53 significant bits, so a finite
double is a sign and a count of steps. Arithmetic is exact arithmetic on counts followed by one
rounding to the nearest double, a tie going to the even neighbour.
-/

namespace PinnedTree

/-- One is this power of two in steps. -/
def Double.unitBits : Nat := 1074

/-- The finite doubles lie below this power of two in steps, which is 2¹⁰²⁴. -/
def Double.rangeBits : Nat := 2098

/-- The number of steps of 2⁻¹⁰⁷⁴ in one. -/
def Double.stepsInOne : Nat := Nat.pow 2 Double.unitBits

/-- The least number of steps that is too large for a finite double. -/
def Double.stepsLimit : Nat := Nat.pow 2 Double.rangeBits

/-- A count of steps is a double when it is within range and all but its 53 highest bits are
zero. -/
def Double.Representable (steps : Nat) : Prop :=
  steps < Double.stepsLimit ∧ Nat.pow 2 (steps.log2 - 52) ∣ steps

/-- A finite double. Zero has two signs. -/
structure FiniteDouble where
  negative : Bool
  steps : Nat
  representable : Double.Representable steps
  deriving DecidableEq

inductive Double where
  | nan
  | infinite (negative : Bool)
  | finite (value : FiniteDouble)
  deriving DecidableEq

namespace Double

/-- The quotient rounded to the nearest whole number, a tie to the even one. -/
def divideToEven (num den : Nat) : Nat :=
  let quotient := num / den
  let twice := 2 * (num % den)
  if twice < den then quotient
  else if den < twice then quotient + 1
  else quotient + quotient % 2

theorem divideToEven_le (num den : Nat) : divideToEven num den ≤ num / den + 1 := by
  simp only [divideToEven]
  split
  · omega
  · split <;> omega

/-- The distance between doubles near `num / den` steps. -/
def spacing (num den : Nat) : Nat :=
  Nat.pow 2 ((num / den).log2 - 52)

/-- The count nearest to `num / den` steps among those of at most 53 significant bits. -/
def nearest (num den : Nat) : Nat :=
  divideToEven num (den * spacing num den) * spacing num den

theorem quotient_spacing_lt (num den : Nat) :
    num / (den * spacing num den) < Nat.pow 2 53 := by
  simp only [spacing, Nat.pow_eq]
  rw [← Nat.div_div_eq_div_mul, Nat.div_lt_iff_lt_mul (Nat.two_pow_pos _), ← Nat.pow_add]
  by_cases hSmall : num / den = 0
  · rw [hSmall]
    exact Nat.two_pow_pos _
  · exact Nat.lt_of_lt_of_le Nat.lt_log2_self (Nat.pow_le_pow_right (by decide) (by omega))

/-- At most 53 bits followed by zeros: the shape of every rounded count. -/
theorem low_bits_zero {bits shift : Nat} (hBits : bits ≤ Nat.pow 2 53) :
    Nat.pow 2 ((bits * Nat.pow 2 shift).log2 - 52) ∣ bits * Nat.pow 2 shift := by
  simp only [Nat.pow_eq] at *
  by_cases hZero : bits = 0
  · simp [hZero]
  have hPos : bits * 2 ^ shift ≠ 0 :=
    Nat.mul_ne_zero hZero (Nat.ne_of_gt (Nat.two_pow_pos shift))
  rcases Nat.lt_or_eq_of_le hBits with hBelow | hFull
  · have hHigh : (bits * 2 ^ shift).log2 < 53 + shift := by
      rw [Nat.log2_lt hPos, Nat.pow_add]
      exact Nat.mul_lt_mul_of_pos_right hBelow (Nat.two_pow_pos shift)
    exact Nat.dvd_mul_left_of_dvd (Nat.pow_dvd_pow 2 (by omega)) bits
  · rw [hFull, ← Nat.pow_add, Nat.log2_two_pow]
    exact Nat.pow_dvd_pow 2 (by omega)

/-- A rounded count that is within range is a double. -/
theorem representable_nearest {num den : Nat} (hRange : nearest num den < stepsLimit) :
    Representable (nearest num den) :=
  ⟨hRange, low_bits_zero
    (Nat.le_trans (divideToEven_le _ _) (Nat.succ_le_of_lt (quotient_spacing_lt num den)))⟩

theorem stepsLimit_pos : 0 < stepsLimit := by
  unfold stepsLimit
  generalize rangeBits = bits
  exact Nat.two_pow_pos bits

theorem representable_zero : Representable 0 :=
  ⟨stepsLimit_pos, Nat.dvd_zero _⟩

def zero (negative : Bool) : FiniteDouble :=
  ⟨negative, 0, representable_zero⟩

/-- The double nearest to `num / den` steps, infinite when that is out of range. -/
def ofSteps (negative : Bool) (num den : Nat) : Double :=
  if hRange : nearest num den < stepsLimit then
    .finite ⟨negative, nearest num den, representable_nearest hRange⟩
  else
    .infinite negative

def ofRatio (negative : Bool) (num den : Nat) : Double :=
  ofSteps negative (num * stepsInOne) den

def ofInt (value : Int) : Double :=
  ofRatio (decide (value < 0)) value.natAbs 1

def mul (left right : FiniteDouble) : Double :=
  ofSteps (left.negative != right.negative) (left.steps * right.steps) stepsInOne

/-- The quotient of two finite doubles, the second of which is not zero. -/
def div (left right : FiniteDouble) : Double :=
  ofSteps (left.negative != right.negative) (left.steps * stepsInOne) right.steps

/-- Decimal magnitudes beyond this are infinite, and those below its inverse are zero, so that a
magnitude need not be exact: it is taken from the binary one by `3/10 < log 2 < 1/3`. -/
def decimalRange : Int := 400

/-- The double nearest to `digits * 10 ^ exponent`. -/
def ofDecimal (negative : Bool) (digits : Nat) (exponent : Int) : Double :=
  let bits : Int := digits.log2
  if digits = 0 then .finite (zero negative)
  else if decimalRange < bits * 3 / 10 + exponent then .infinite negative
  else if bits / 3 + exponent < -decimalRange then .finite (zero negative)
  else match exponent with
    | .ofNat power => ofRatio negative (digits * Nat.pow 10 power) 1
    | .negSucc power => ofRatio negative digits (Nat.pow 10 (power + 1))

/-- Equality as numbers: the zeros agree, and what is not a number equals nothing. -/
def equal : Double → Double → Bool
  | .infinite left, .infinite right => left == right
  | .finite left, .finite right =>
    left.steps == right.steps && (left.steps == 0 || left.negative == right.negative)
  | _, _ => false

end Double

end PinnedTree
