import Mathlib.Algebra.Order.Field.Basic
import Mathlib.Algebra.Order.Field.Power
import Mathlib.Data.Rat.Cast.Order
import PinnedTree.Double.Reading
import PinnedTree.Proofs.Number.Rounding

/-! Where the doubles end. A quotient is rounded to a finite double exactly if it lies below the
middle between the greatest finite double and the power of two behind it, where a tie goes up. Hence
a numeral stands for a finite double exactly if the decimal that it spells lies below this bound,
and for the infinity of its sign otherwise. The estimate that keeps long numerals short never
decides against that. -/
namespace PinnedTree

namespace Double

def isFinite : Double → Bool
  | .finite _ => true
  | _ => false

theorem exists_of_isFinite {value : Double} (h : value.isFinite = true) :
    ∃ finite, value = .finite finite := by
  cases value with
  | finite value => exact ⟨value, rfl⟩
  | nan => cases h
  | infinite negative => cases h

def magnitudeBits : Nat := 1024

/-- The middle between the greatest finite double, which is 2¹⁰²⁴ - 2⁹⁷¹, and 2¹⁰²⁴. -/
def overflowBound : Nat :=
  Nat.pow 2 magnitudeBits - Nat.pow 2 (magnitudeBits - 54)

/-! ### Rounding below a bound -/

/-- Rounding does not fall below the quotient without its remainder. -/
theorem le_divideToEven (num den : Nat) : num / den ≤ divideToEven num den := by
  simp only [divideToEven]
  split
  · exact Nat.le_refl _
  · split <;> omega

/-- What is rounded stays below an even number if it is below by more than a half. -/
theorem divideToEven_lt_iff {num den bound : Nat} (hDen : 0 < den) (hEven : bound % 2 = 0) :
    divideToEven num den < bound ↔ 2 * num + den < 2 * (den * bound) := by
  have hSplit : den * (num / den) + num % den = num := Nat.div_add_mod num den
  have hRest : num % den < den := Nat.mod_lt num hDen
  have hLow := le_divideToEven num den
  have hHigh := divideToEven_le num den
  have hRounded : divideToEven num den = if 2 * (num % den) < den then num / den else
      if den < 2 * (num % den) then num / den + 1 else num / den + num / den % 2 := rfl
  generalize num / den = quotient at *
  generalize num % den = rest at *
  rcases Nat.lt_trichotomy (quotient + 1) bound with hBelow | rfl | hAbove
  · have hProduct : den * (quotient + 2) ≤ den * bound := Nat.mul_le_mul_left den hBelow
    rw [Nat.mul_add] at hProduct
    omega
  · -- The number below the bound is odd, so a tie goes up to the bound.
    rw [hRounded, Nat.mul_add]
    split
    · omega
    · split <;> omega
  · have hProduct : den * bound ≤ den * quotient :=
      Nat.mul_le_mul_left den (Nat.le_of_lt_succ hAbove)
    omega

/-- Near a quotient, doubles lie apart by a power of two that leaves 53 bits. -/
theorem spacing_eq (num den : Nat) : spacing num den = 2 ^ ((num / den).log2 - 52) :=
  rfl

theorem div_mul_spacing (num den : Nat) :
    num / (den * spacing num den) = num / den / spacing num den :=
  (Nat.div_div_eq_div_mul num den _).symm

/-- The nearest count is above the quotient by one distance at most. -/
theorem nearest_le_add_spacing (num den : Nat) :
    nearest num den ≤ num / den + spacing num den := by
  have hFloor := Nat.div_mul_le_self (num / den) (spacing num den)
  have hRound := Nat.mul_le_mul_right (spacing num den)
    (divideToEven_le num (den * spacing num den))
  rw [div_mul_spacing, Nat.add_mul] at hRound
  rw [nearest]
  omega

theorem two_pow_log2_le {n : Nat} (h : 0 < n.log2) : 2 ^ n.log2 ≤ n := by
  apply Nat.log2_self_le
  rintro rfl
  exact absurd h (by decide)

/-- Rounding does not go below a power of two. -/
theorem two_pow_log2_le_nearest {num den : Nat} (h : 52 ≤ (num / den).log2) :
    2 ^ (num / den).log2 ≤ nearest num den := by
  have hPower : 2 ^ (num / den).log2 = 2 ^ 52 * spacing num den := by
    rw [spacing_eq, ← Nat.pow_add, Nat.add_sub_of_le h]
  have hUnit : 0 < spacing num den := Nat.two_pow_pos _
  have hFloor : 2 ^ 52 ≤ num / (den * spacing num den) := by
    rw [div_mul_spacing, Nat.le_div_iff_mul_le hUnit, ← hPower]
    exact two_pow_log2_le (by omega)
  rw [hPower]
  exact Nat.mul_le_mul_right _ (Nat.le_trans hFloor (le_divideToEven _ _))

/-- A quotient is rounded below a power of two if it is below by more than half of the distance
between the doubles there. -/
theorem nearest_lt_iff (num : Nat) {den bits : Nat} (hDen : 0 < den) (hBits : 53 ≤ bits) :
    nearest num den < 2 ^ bits ↔ 2 * num + den * 2 ^ (bits - 53) < 2 * (den * 2 ^ bits) := by
  rcases Nat.lt_trichotomy ((num / den).log2 + 1) bits with hBelow | hEqual | hAbove
  · have hDouble : 2 ^ bits = 2 * 2 ^ (bits - 1) := by
      rw [← Nat.pow_succ', Nat.succ_eq_add_one, Nat.sub_add_cancel (by omega)]
    have hSmall : num / den < 2 ^ (bits - 1) :=
      Nat.lt_of_lt_of_le Nat.lt_log2_self (Nat.pow_le_pow_right (by omega) (by omega))
    have hStep : spacing num den ≤ 2 ^ (bits - 1) :=
      Nat.pow_le_pow_right (by omega) (by omega)
    have hHalf : den * 2 ^ (bits - 53) ≤ den * 2 ^ (bits - 1) :=
      Nat.mul_le_mul_left den (Nat.pow_le_pow_right (by omega) (by omega))
    have hNum : num < den * 2 ^ (bits - 1) := by
      rwa [Nat.mul_comm, ← Nat.div_lt_iff_lt_mul hDen]
    have hNearest := nearest_le_add_spacing num den
    rw [hDouble, Nat.mul_left_comm den]
    exact iff_of_true (by omega) (by omega)
  · -- Here the distance between doubles is known, and the bound is an even multiple of it.
    have hStep : spacing num den = 2 ^ (bits - 53) := by
      rw [spacing_eq, ← hEqual, Nat.add_sub_add_right _ 1 52]
    have hPower : 2 ^ bits = 2 ^ (bits - 53) * 2 ^ 53 := by
      rw [← Nat.pow_add, Nat.sub_add_cancel hBits]
    rw [nearest, hStep, hPower, Nat.mul_comm (divideToEven _ _),
      Nat.mul_lt_mul_left (Nat.two_pow_pos _),
      divideToEven_lt_iff (Nat.mul_pos hDen (Nat.two_pow_pos _)) (by decide), Nat.mul_assoc]
  · have hBound : 2 ^ bits ≤ 2 ^ (num / den).log2 :=
      Nat.pow_le_pow_right (by omega) (by omega)
    have hNearest := two_pow_log2_le_nearest (show 52 ≤ (num / den).log2 by omega)
    have hNum : den * 2 ^ bits ≤ num := by
      rw [Nat.mul_comm, ← Nat.le_div_iff_mul_le hDen]
      exact Nat.le_trans hBound (two_pow_log2_le (by omega))
    exact iff_of_false (by omega) (by omega)

/-- The same for a quotient that is counted in steps. -/
theorem nearest_mul_lt_iff (num unit : Nat) {den range : Nat} (hDen : 0 < den)
    (hRange : 54 ≤ range) :
    nearest (num * 2 ^ unit) den < 2 ^ (unit + range) ↔
      num + den * 2 ^ (range - 54) < den * 2 ^ range := by
  have hUnit : 0 < 2 * 2 ^ unit := Nat.mul_pos (by decide) (Nat.two_pow_pos unit)
  have hHalf : 2 ^ (unit + range - 53) = 2 ^ (range - 54) * (2 * 2 ^ unit) := by
    rw [← Nat.pow_succ', ← Nat.pow_add]
    congr 1
    omega
  have hNum : 2 * (num * 2 ^ unit) = num * (2 * 2 ^ unit) := Nat.mul_left_comm 2 num _
  have hLimit : 2 * (den * 2 ^ (unit + range)) = den * 2 ^ range * (2 * 2 ^ unit) := by
    rw [Nat.pow_add, Nat.mul_comm (2 ^ unit), ← Nat.mul_assoc den, Nat.mul_left_comm 2]
  rw [nearest_lt_iff _ hDen (by omega), hHalf, hNum, hLimit, ← Nat.mul_assoc den, ← Nat.add_mul,
    Nat.mul_lt_mul_right hUnit]

theorem overflowBound_pos : 0 < overflowBound := by
  have hBits : 54 ≤ magnitudeBits := by decide
  unfold overflowBound
  generalize magnitudeBits = bits at hBits
  exact Nat.sub_pos_of_lt (Nat.pow_lt_pow_right (by decide) (by omega))

/-- Quotients are rounded to finite doubles below the bound. -/
theorem nearest_lt_stepsLimit_iff (num : Nat) {den : Nat} (hDen : 0 < den) :
    nearest (num * stepsInOne) den < stepsLimit ↔ num < overflowBound * den := by
  have hRange : rangeBits = unitBits + magnitudeBits := rfl
  have hBits : 54 ≤ magnitudeBits := by decide
  unfold stepsInOne stepsLimit overflowBound
  rewrite [hRange]
  generalize magnitudeBits = bits at hBits
  generalize unitBits = unit
  simp only [Nat.pow_eq]
  rw [nearest_mul_lt_iff num unit hDen hBits, Nat.sub_mul, Nat.mul_comm den, Nat.mul_comm den]
  omega

/-! ### Doubles of decimals -/

/-- Rounding gives a finite double exactly when the nearest count is in range. -/
theorem isFinite_ofSteps (negative : Bool) (num den : Nat) :
    (ofSteps negative num den).isFinite = true ↔ nearest num den < stepsLimit := by
  rw [ofSteps]
  split
  · rename_i hRange
    exact iff_of_true rfl hRange
  · rename_i hRange
    exact iff_of_false Bool.false_ne_true hRange

/-- Rounding gives a finite double exactly below the bound. -/
theorem isFinite_ofRatio (negative : Bool) (num : Nat) {den : Nat} (hDen : 0 < den) :
    (ofRatio negative num den).isFinite = true ↔ (num : ℚ) / den < overflowBound := by
  rw [ofRatio, isFinite_ofSteps, nearest_lt_stepsLimit_iff num hDen,
    div_lt_iff₀ (Nat.cast_pos.mpr hDen)]
  exact_mod_cast Iff.rfl

/-- Ten decimal places are more than thirty binary ones. -/
theorem ten_pow_le_two_pow (bits : Nat) : 10 ^ (bits * 3 / 10) ≤ 2 ^ bits := by
  apply (Nat.pow_le_pow_iff_left (show 10 ≠ 0 by decide)).mp
  calc (10 ^ (bits * 3 / 10)) ^ 10
    _ = 10 ^ (bits * 3 / 10 * 10) := (Nat.pow_mul ..).symm
    _ ≤ 10 ^ (3 * bits) := Nat.pow_le_pow_right (by decide) (by omega)
    _ = (10 ^ 3) ^ bits := Nat.pow_mul ..
    _ ≤ (2 ^ 10) ^ bits := Nat.pow_le_pow_left (by decide) bits
    _ = (2 ^ bits) ^ 10 := by rw [← Nat.pow_mul, ← Nat.pow_mul, Nat.mul_comm]

theorem two_pow_le_ten_pow (bits : Nat) : 2 ^ (bits + 1) ≤ 10 ^ (bits / 3 + 1) := by
  calc 2 ^ (bits + 1)
    _ ≤ 2 ^ (3 * (bits / 3 + 1)) := Nat.pow_le_pow_right (by decide) (by omega)
    _ = (2 ^ 3) ^ (bits / 3 + 1) := Nat.pow_mul ..
    _ ≤ 10 ^ (bits / 3 + 1) := Nat.pow_le_pow_left (by decide) _

/-- A power of ten within the decimal range lies beyond the bound. -/
theorem exists_overflowBound_le : ∃ places : Nat, places ≤ decimalRange ∧
    overflowBound ≤ 10 ^ places := by
  obtain ⟨bits, hBits, hPlaces⟩ : ∃ bits, magnitudeBits = bits + 1 ∧ bits / 3 + 1 ≤ 400 :=
    ⟨1023, rfl, by decide⟩
  refine ⟨bits / 3 + 1, Int.ofNat_le.mpr hPlaces, ?_⟩
  unfold overflowBound
  rewrite [hBits]
  exact Nat.le_trans (Nat.sub_le ..) (two_pow_le_ten_pow bits)

theorem cast_ten_pow_mul (places : Nat) (exponent : Int) :
    ((10 ^ places : Nat) : ℚ) * 10 ^ exponent = 10 ^ (places + exponent) := by
  rw [zpow_add₀ (by norm_num), zpow_natCast, Nat.cast_pow, Nat.cast_ofNat]

/-- Decimals that are estimated to be too large are. -/
theorem overflowBound_le_of_large {digits : Nat} {exponent : Int} (h : digits ≠ 0)
    (hLarge : decimalRange < (digits.log2 : Int) * 3 / 10 + exponent) :
    (overflowBound : ℚ) ≤ digits * 10 ^ exponent := by
  have hDigits : 10 ^ (digits.log2 * 3 / 10) ≤ digits :=
    Nat.le_trans (ten_pow_le_two_pow _) (Nat.log2_self_le h)
  have hCast : ((digits.log2 * 3 / 10 : Nat) : Int) = (digits.log2 : Int) * 3 / 10 := by
    push_cast
    rfl
  obtain ⟨range, hRange, hBound⟩ := exists_overflowBound_le
  rw [← hCast] at hLarge
  generalize digits.log2 * 3 / 10 = places at hDigits hLarge
  calc (overflowBound : ℚ)
    _ ≤ ((10 ^ range : Nat) : ℚ) := Nat.cast_le.mpr hBound
    _ = 10 ^ (range : Int) := by rw [zpow_natCast, Nat.cast_pow, Nat.cast_ofNat]
    _ ≤ 10 ^ (places + exponent) := zpow_le_zpow_right₀ (by norm_num) (by omega)
    _ = ((10 ^ places : Nat) : ℚ) * 10 ^ exponent := (cast_ten_pow_mul places exponent).symm
    _ ≤ digits * 10 ^ exponent :=
        mul_le_mul_of_nonneg_right (Nat.cast_le.mpr hDigits) (by positivity)

/-- Decimals that are estimated to be too small to count are below the bound. -/
theorem lt_overflowBound_of_small {digits : Nat} {exponent : Int}
    (hSmall : (digits.log2 : Int) / 3 + exponent < -decimalRange) :
    (digits : ℚ) * 10 ^ exponent < overflowBound := by
  have hDigits : digits < 10 ^ (digits.log2 / 3 + 1) :=
    Nat.lt_of_lt_of_le Nat.lt_log2_self (two_pow_le_ten_pow _)
  rw [decimalRange] at hSmall
  have hPlaces : ((digits.log2 / 3 + 1 : Nat) : Int) + exponent ≤ 0 := by omega
  generalize digits.log2 / 3 + 1 = places at hDigits hPlaces
  calc (digits : ℚ) * 10 ^ exponent
    _ < ((10 ^ places : Nat) : ℚ) * 10 ^ exponent :=
        mul_lt_mul_of_pos_right (Nat.cast_lt.mpr hDigits) (by positivity)
    _ = 10 ^ (places + exponent) := cast_ten_pow_mul places exponent
    _ ≤ 1 := zpow_le_one_of_nonpos₀ (by norm_num) hPlaces
    _ ≤ overflowBound := by exact_mod_cast overflowBound_pos

/-- A decimal is read as a finite double if and only if it lies below the bound. -/
theorem isFinite_ofDecimal (negative : Bool) (digits : Nat) (exponent : Int) :
    (ofDecimal negative digits exponent).isFinite = true ↔
      (digits : ℚ) * 10 ^ exponent < overflowBound := by
  simp only [ofDecimal]
  split
  · rename_i hZero
    refine iff_of_true rfl ?_
    rw [hZero, Nat.cast_zero, zero_mul]
    exact_mod_cast overflowBound_pos
  · rename_i hDigits
    split
    · rename_i hLarge
      exact iff_of_false Bool.false_ne_true (not_lt.mpr (overflowBound_le_of_large hDigits hLarge))
    · split
      · rename_i hSmall
        exact iff_of_true rfl (lt_overflowBound_of_small hSmall)
      · cases exponent with
        | ofNat power =>
            rw [isFinite_ofRatio negative _ Nat.one_pos, Int.ofNat_eq_natCast, zpow_natCast,
              Nat.pow_eq, Nat.cast_one, div_one, Nat.cast_mul, Nat.cast_pow, Nat.cast_ofNat]
        | negSucc power =>
            rw [isFinite_ofRatio negative _ (ten_pow_pos (power + 1)), zpow_negSucc,
              Nat.pow_eq, Nat.cast_pow, Nat.cast_ofNat, div_eq_mul_inv]

/-- A decimal that is not read as a finite double is read as the infinity of its sign. -/
theorem ofDecimal_of_not_isFinite {negative : Bool} {digits : Nat} {exponent : Int}
    (h : (ofDecimal negative digits exponent).isFinite = false) :
    ofDecimal negative digits exponent = .infinite negative := by
  rcases ofDecimal_cases digits exponent with hZero | hInfinite | ⟨num, den, hSteps⟩
  · rw [hZero] at h
    cases h
  · exact hInfinite negative
  · rw [hSteps, ofSteps] at h ⊢
    split at h
    · cases h
    · rename_i hRange
      exact dif_neg hRange

end Double

end PinnedTree
