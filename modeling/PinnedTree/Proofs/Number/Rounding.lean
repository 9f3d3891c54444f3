import PinnedTree.Double.Shortest

/-! Rounding gives back what is already a double. The quotient that is rounded matters, not the
numbers that make it up, so a decimal may be shifted against its exponent. Hence the shortest
decimal of a double reads back as that double, also where the search for it ends with the decimal
that is written out in full. -/
namespace PinnedTree.Double

/-- Rounding a quotient is the same in lower terms. -/
theorem divideToEven_mul_right (num den : Nat) {factor : Nat} (h : 0 < factor) :
    divideToEven (num * factor) (den * factor) = divideToEven num den := by
  have hQuotient : num * factor / (den * factor) = num / den := Nat.mul_div_mul_right num den h
  have hRest : 2 * (num * factor % (den * factor)) = 2 * (num % den) * factor := by
    rw [Nat.mul_mod_mul_right, Nat.mul_assoc]
  simp only [divideToEven, hQuotient, hRest, Nat.mul_lt_mul_right h]

theorem divideToEven_mul_self (quotient : Nat) {den : Nat} (h : 0 < den) :
    divideToEven (quotient * den) den = quotient := by
  simp [divideToEven, Nat.mul_div_cancel quotient h, h]

theorem spacing_mul_right (num den : Nat) {factor : Nat} (h : 0 < factor) :
    spacing (num * factor) (den * factor) = spacing num den := by
  rw [spacing, spacing, Nat.mul_div_mul_right num den h]

theorem nearest_mul_right (num den : Nat) {factor : Nat} (h : 0 < factor) :
    nearest (num * factor) (den * factor) = nearest num den := by
  rw [nearest, nearest, spacing_mul_right num den h, Nat.mul_right_comm,
    divideToEven_mul_right num _ h]

/-- What is a double needs no rounding. -/
theorem nearest_of_representable {steps den : Nat} (h : Representable steps) (hDen : 0 < den) :
    nearest (steps * den) den = steps := by
  have hSpacing : spacing (steps * den) den = Nat.pow 2 (steps.log2 - 52) := by
    rw [spacing, Nat.mul_div_cancel steps hDen]
  obtain ⟨bits, hBits⟩ := h.2
  have hUnit : 0 < Nat.pow 2 (steps.log2 - 52) := Nat.two_pow_pos _
  rw [nearest, hSpacing]
  generalize Nat.pow 2 (steps.log2 - 52) = unit at hBits hUnit
  calc divideToEven (steps * den) (den * unit) * unit
    _ = divideToEven (bits * (den * unit)) (den * unit) * unit := by
        rw [hBits, Nat.mul_comm unit, Nat.mul_assoc, Nat.mul_comm unit]
    _ = bits * unit := by rw [divideToEven_mul_self bits (Nat.mul_pos hDen hUnit)]
    _ = steps := by rw [hBits, Nat.mul_comm]

theorem ofSteps_mul_right (negative : Bool) (num den : Nat) {factor : Nat} (h : 0 < factor) :
    ofSteps negative (num * factor) (den * factor) = ofSteps negative num den := by
  simp only [ofSteps, nearest_mul_right num den h]

/-- A count that is a double is not rounded. -/
theorem ofSteps_of_representable (negative : Bool) {steps den : Nat} (h : Representable steps)
    (hDen : 0 < den) : ofSteps negative (steps * den) den = .finite ⟨negative, steps, h⟩ := by
  have hNearest := nearest_of_representable h hDen
  simp only [ofSteps, hNearest]
  exact dif_pos h.1

theorem ofRatio_mul_right (negative : Bool) (num den : Nat) {factor : Nat} (h : 0 < factor) :
    ofRatio negative (num * factor) (den * factor) = ofRatio negative num den := by
  rw [ofRatio, ofRatio, Nat.mul_right_comm, ofSteps_mul_right negative _ den h]

/-- A decimal is taken for zero or for infinite, or it is rounded as a quotient. Which of these it
is does not depend on the sign. -/
theorem ofDecimal_cases (digits : Nat) (exponent : Int) :
    (∀ negative, ofDecimal negative digits exponent = .finite (zero negative)) ∨
      (∀ negative, ofDecimal negative digits exponent = .infinite negative) ∨
      ∃ num den, ∀ negative, ofDecimal negative digits exponent = ofSteps negative num den := by
  simp only [ofDecimal]
  split
  · exact .inl fun _ => rfl
  · split
    · exact .inr (.inl fun _ => rfl)
    · split
      · exact .inl fun _ => rfl
      · cases exponent with
        | ofNat power => exact .inr (.inr ⟨_, _, fun _ => rfl⟩)
        | negSucc power => exact .inr (.inr ⟨_, _, fun _ => rfl⟩)

/-- The sign of a decimal goes over to the double. -/
theorem ofDecimal_negative {digits : Nat} {exponent : Int} {value : FiniteDouble}
    (h : ofDecimal false digits exponent = .finite value) (negative : Bool) :
    ofDecimal negative digits exponent = .finite ⟨negative, value.steps, value.representable⟩ := by
  rcases ofDecimal_cases digits exponent with hZero | hInfinite | ⟨num, den, hSteps⟩
  · rw [hZero] at h ⊢
    cases h
    rfl
  · rw [hInfinite] at h
    cases h
  · rw [hSteps, ofSteps] at h ⊢
    split at h
    · rename_i hRange
      cases h
      exact dif_pos hRange
    · cases h

/-- A decimal whose magnitude is estimated to be in range is rounded as a quotient. -/
theorem ofDecimal_ofNat (negative : Bool) {digits power : Nat} (h : digits ≠ 0)
    (hRange : (digits.log2 : Int) * 3 / 10 + power ≤ decimalRange) :
    ofDecimal negative digits (.ofNat power) = ofRatio negative (digits * Nat.pow 10 power) 1 := by
  have hAbove : -decimalRange ≤ (digits.log2 : Int) / 3 + power := by
    simp only [decimalRange]
    omega
  simp only [ofDecimal, if_neg h, Int.ofNat_eq_natCast]
  rw [if_neg (Int.not_lt.mpr hRange), if_neg (Int.not_lt.mpr hAbove)]

/-- A decimal with a negative power of ten is a quotient, unless it is far out of range. -/
theorem ofDecimal_negSucc (negative : Bool) {digits power : Nat} (h : digits ≠ 0)
    (hBelow : (digits.log2 : Int) * 3 / 10 ≤ decimalRange + (power + 1))
    (hAbove : (power + 1) - decimalRange ≤ (digits.log2 : Int) / 3) :
    ofDecimal negative digits (.negSucc power) =
      ofRatio negative digits (Nat.pow 10 (power + 1)) := by
  have hNegSucc : Int.negSucc power = -((power : Int) + 1) := by omega
  simp only [ofDecimal, if_neg h]
  rw [if_neg (by omega), if_neg (by omega)]

theorem log2_le_of_lt {n bits : Nat} (h : n < Nat.pow 2 bits) : n.log2 ≤ bits := by
  rcases Nat.eq_zero_or_pos n with rfl | hPos
  · simp
  · exact Nat.le_of_lt ((Nat.log2_lt (Nat.ne_of_gt hPos)).mpr h)

theorem le_log2_mul_of_le {n factor bits : Nat} (h : Nat.pow 2 bits ≤ n) (hFactor : 0 < factor) :
    bits ≤ (factor * n).log2 := by
  have hLe : Nat.pow 2 bits ≤ factor * n := Nat.le_trans h (Nat.le_mul_of_pos_left n hFactor)
  exact (Nat.le_log2 (Nat.ne_of_gt (Nat.lt_of_lt_of_le (Nat.two_pow_pos bits) hLe))).mpr hLe

/-- A small decimal may be written with a zero behind the point. -/
theorem ofDecimal_shift (negative : Bool) {digits power : Nat}
    (h : digits * Nat.pow 10 (power + 1) < Nat.pow 2 63) :
    ofDecimal negative (digits * Nat.pow 10 (power + 1)) (.negSucc 0) =
      ofDecimal negative digits (.ofNat power) := by
  rcases Nat.eq_zero_or_pos digits with rfl | hPos
  · simp [ofDecimal]
  · have hPower : 0 < Nat.pow 10 (power + 1) := Nat.pow_pos (by omega)
    have hLong := log2_le_of_lt h
    have hShort : digits.log2 ≤ 63 :=
      log2_le_of_lt (Nat.lt_of_le_of_lt (Nat.le_mul_of_pos_right digits hPower) h)
    have hBound : power < 63 := by
      have hTwo : Nat.pow 2 power ≤ Nat.pow 10 (power + 1) :=
        Nat.le_trans (Nat.pow_le_pow_left (by omega) power)
          (Nat.pow_le_pow_right (by omega) (Nat.le_succ power))
      apply (Nat.pow_lt_pow_iff_right (a := 2) (by omega)).mp
      exact Nat.lt_of_le_of_lt (Nat.le_trans hTwo (Nat.le_mul_of_pos_left _ hPos)) h
    rw [ofDecimal_negSucc negative (Nat.mul_ne_zero (Nat.ne_of_gt hPos) (Nat.ne_of_gt hPower))
        (by simp only [decimalRange]; omega) (by simp only [decimalRange]; omega),
      ofDecimal_ofNat negative (Nat.ne_of_gt hPos) (by simp only [decimalRange]; omega)]
    have hSplit : digits * Nat.pow 10 (power + 1) = digits * Nat.pow 10 power * 10 := by
      simp only [Nat.pow_eq, Nat.pow_succ, Nat.mul_assoc]
    have hTen : Nat.pow 10 (0 + 1) = 1 * 10 := rfl
    simp only [hSplit, hTen]
    exact ofRatio_mul_right negative _ 1 (by omega)

/-! ### The search for the shortest decimal -/

/-- A decimal reads back when it is rounded to that many steps. -/
theorem readsBack_iff {steps : Nat} {decimal : Decimal} :
    readsBack steps decimal = true ↔
      ∃ value, ofDecimal false decimal.digits decimal.exponent = .finite value ∧
        value.steps = steps := by
  rw [readsBack]
  split
  · rename_i value hValue
    simp [hValue]
  · rename_i hOther
    simpa using fun value hValue _ => hOther value hValue

/-- A neighbour on a grid is only taken if it reads back. -/
theorem readsBack_of_neighbour? {tieUp : Bool} {steps : Nat} {exponent : Int} {decimal : Decimal}
    (h : neighbour? tieUp steps exponent = some decimal) : readsBack steps decimal = true := by
  simp only [neighbour?] at h
  split at h
  · rename_i hLower hUpper
    rw [← Option.some.inj h]
    split
    · exact hUpper
    · exact hLower
  · rename_i hLower hUpper
    exact Option.some.inj h ▸ hLower
  · rename_i hLower hUpper
    exact Option.some.inj h ▸ hUpper
  · cases h

/-- A power of five lies between two powers of two. The bounds are kept as variables, so that no
step evaluates the powers. -/
theorem five_pow_bounds : ∃ low high, low = 2448 ∧ high = 2506 ∧
    Nat.pow 2 low ≤ Nat.pow 5 unitBits ∧ Nat.pow 5 unitBits < Nat.pow 2 high :=
  ⟨2448, 2506, rfl, rfl, by decide +kernel, by decide +kernel⟩

theorem five_pow_mul_two_pow (bits : Nat) :
    Nat.pow 5 bits * Nat.pow 2 bits = Nat.pow 10 bits := by
  simp only [Nat.pow_eq]
  rw [← Nat.mul_pow]

theorem five_pow_pos (bits : Nat) : 0 < Nat.pow 5 bits :=
  Nat.pow_pos (by omega)

theorem ten_pow_pos (bits : Nat) : 0 < Nat.pow 10 bits :=
  Nat.pow_pos (by omega)

theorem mul_lt_two_pow {left right leftBits rightBits : Nat} (hLeft : left < Nat.pow 2 leftBits)
    (hRight : right < Nat.pow 2 rightBits) : left * right < Nat.pow 2 (leftBits + rightBits) := by
  simp only [Nat.pow_eq, Nat.pow_add]
  exact Nat.mul_lt_mul'' hLeft hRight

/-- The decimal that is written out in full needs no rounding at all. -/
theorem readsBack_full {steps : Nat} (h : Representable steps) (hPos : 0 < steps) :
    readsBack steps ⟨steps * Nat.pow 5 unitBits, -(unitBits : Int)⟩ = true := by
  obtain ⟨low, high, rfl, rfl, hFiveLow, hFiveHigh⟩ := five_pow_bounds
  have hRange : unitBits = 1074 ∧ rangeBits = 2098 := ⟨rfl, rfl⟩
  have hSteps := h.1
  unfold stepsLimit at hSteps
  obtain ⟨power, hUnit⟩ : ∃ power, unitBits = power + 1 := ⟨1073, rfl⟩
  refine readsBack_iff.mpr ⟨⟨false, steps, h⟩, ?_, rfl⟩
  have hFinite : ofRatio false (steps * Nat.pow 5 unitBits) (Nat.pow 10 unitBits) =
      .finite ⟨false, steps, h⟩ := by
    unfold ofRatio stepsInOne
    rewrite [Nat.mul_assoc, five_pow_mul_two_pow]
    exact ofSteps_of_representable false h (ten_pow_pos unitBits)
  have hDigits : steps * Nat.pow 5 unitBits ≠ 0 :=
    Nat.mul_ne_zero (Nat.ne_of_gt hPos) (Nat.ne_of_gt (five_pow_pos unitBits))
  have hLow := le_log2_mul_of_le hFiveLow hPos
  have hHigh := log2_le_of_lt (mul_lt_two_pow hSteps hFiveHigh)
  generalize unitBits = unit at *
  generalize rangeBits = range at *
  subst hUnit
  rw [show -((power + 1 : Nat) : Int) = .negSucc power from rfl,
    ofDecimal_negSucc false hDigits (by simp only [decimalRange]; omega)
      (by simp only [decimalRange]; omega)]
  exact hFinite

/-- Whatever grid the search ends at, its decimal reads back. -/
theorem readsBack_searchGrids (tieUp : Bool) {steps : Nat} (h : Representable steps)
    (hPos : 0 < steps) (grids : Nat) (exponent : Int) :
    readsBack steps (searchGrids tieUp steps grids exponent) = true := by
  induction grids generalizing exponent with
  | zero => exact readsBack_full h hPos
  | succ grids ih =>
      rw [searchGrids]
      split
      · rename_i decimal hFound
        exact readsBack_of_neighbour? hFound
      · exact ih (exponent - 1)

/-- The shortest decimal of a positive double reads back as that double. -/
theorem readsBack_shortest (tieUp : Bool) {steps : Nat} (h : Representable steps)
    (hPos : 0 < steps) : readsBack steps (shortest tieUp steps) = true :=
  readsBack_searchGrids tieUp h hPos _ _

end PinnedTree.Double
