import PinnedTree.Proofs.Number.Integer
import PinnedTree.Proofs.Number.Rounding

/-! Doubles in listings. However a double is laid out, its text is a JSON number that has a fraction
or an exponent, so it is never taken for an integer, and it reads back as the same double. -/
namespace PinnedTree

open Text

namespace DecimalLayout

def positionalParts (negative : Bool) (digits : List Char) (point : Int) : NumberParts :=
  if point ≤ 0 then
    { negative
      whole := ['0']
      fraction := some (List.replicate (-point).toNat '0' ++ digits)
      exponent := none }
  else if digits.length ≤ point.toNat then
    { negative
      whole := digits ++ List.replicate (point.toNat - digits.length) '0'
      fraction := some ['0']
      exponent := none }
  else
    { negative
      whole := digits.take point.toNat
      fraction := some (digits.drop point.toNat)
      exponent := none }

def scientificParts (negative plusSign : Bool) (digits : List Char) (exponent : Int) :
    NumberParts where
  negative
  whole := digits.take 1
  fraction := if digits.tail = [] then none else some digits.tail
  exponent := some {
    mark := 'e'
    sign := if exponent < 0 then ['-'] else if plusSign then ['+'] else []
    digits := Nat.toDigits 10 exponent.natAbs }

def decimalParts (layout : DecimalLayout) (negative : Bool) (decimal : Decimal) : NumberParts :=
  let digits := Nat.toDigits 10 decimal.digits
  let point := digits.length + decimal.exponent
  if layout.leastPoint ≤ point ∧ point ≤ layout.greatestPoint then
    positionalParts negative digits point
  else scientificParts negative layout.plusSign digits (point - 1)

def finiteParts (layout : DecimalLayout) (value : FiniteDouble) : NumberParts :=
  if value.steps = 0 then
    { negative := value.negative, whole := ['0'], fraction := some ['0'], exponent := none }
  else
    layout.decimalParts value.negative (Double.shortest layout.tieUp value.steps)

/-! ### The text is the spelling of the parts -/

theorem spell_positionalParts (negative : Bool) (digits : List Char) (point : Int) :
    (positionalParts negative digits point).spell =
      (if negative then ['-'] else []) ++ positional digits point := by
  simp only [positionalParts, positional]
  split
  · simp [NumberParts.spell, NumberParts.signText, NumberParts.fractionText,
      NumberParts.exponentText]
  · split <;> simp [NumberParts.spell, NumberParts.signText, NumberParts.fractionText,
      NumberParts.exponentText]

theorem spell_scientificParts (negative plusSign : Bool) (digits : List Char) (exponent : Int) :
    (scientificParts negative plusSign digits exponent).spell =
      (if negative then ['-'] else []) ++ scientific plusSign digits exponent := by
  have hFraction : (scientificParts negative plusSign digits exponent).fractionText =
      if digits.tail = [] then [] else '.' :: digits.tail := by
    simp only [NumberParts.fractionText, scientificParts]
    split <;> rfl
  rw [NumberParts.spell, hFraction]
  simp [NumberParts.signText, NumberParts.exponentText, ExponentParts.spell, scientificParts,
    scientific]
  rfl

theorem spell_decimalParts (layout : DecimalLayout) (negative : Bool) (decimal : Decimal) :
    (layout.decimalParts negative decimal).spell =
      (if negative then ['-'] else []) ++ layout.write decimal := by
  simp only [decimalParts, write]
  split
  · exact spell_positionalParts _ _ _
  · exact spell_scientificParts _ _ _ _

/-- A finite double is written as its parts are spelled. -/
theorem writeFinite_eq_spell (layout : DecimalLayout) (value : FiniteDouble) :
    layout.writeFinite value = (layout.finiteParts value).spell := by
  simp only [writeFinite, finiteParts]
  split
  · simp [NumberParts.spell, NumberParts.signText, NumberParts.fractionText,
      NumberParts.exponentText]
  · exact (spell_decimalParts _ _ _).symm

/-! ### The parts are well spelled -/

theorem wellSpelled_positionalParts (negative : Bool) {digits : List Char} (point : Int)
    (hDigits : IsDigits digits) (hHead : digits.head? ≠ some '0') :
    (positionalParts negative digits point).WellSpelled := by
  have hZeros : ∀ count, ∀ c ∈ List.replicate count '0', c.isDigit = true := by
    intro count c h
    rw [List.eq_of_mem_replicate h]
    rfl
  simp only [positionalParts]
  split
  · refine ⟨⟨by simp, by simp⟩, fun _ => rfl, ?_, by simp⟩
    rintro _ ⟨⟩
    refine ⟨by simp [hDigits.1], fun c h => ?_⟩
    exact (List.mem_append.mp h).elim (hZeros _ c) (hDigits.2 c)
  · rename_i hPoint
    split
    · refine ⟨⟨by simp [hDigits.1], fun c h => ?_⟩, fun h => absurd ?_ hHead, ?_, by simp⟩
      · exact (List.mem_append.mp h).elim (hDigits.2 c) (hZeros _ c)
      · simpa [List.head?_append, List.head?_eq_some_head hDigits.1] using h
      · rintro _ ⟨⟩
        exact ⟨by simp, by simp⟩
    · rename_i hLong
      obtain ⟨count, hCount⟩ : ∃ count, point.toNat = count + 1 :=
        Nat.exists_eq_add_one.mpr (by omega)
      refine ⟨⟨?_, fun c h => hDigits.2 c (List.mem_of_mem_take h)⟩, fun h => absurd ?_ hHead,
        ?_, by simp⟩
      · simp [hDigits.1, hCount]
      · rw [← h, hCount, List.head?_take, if_neg (Nat.succ_ne_zero count)]
      · rintro _ ⟨⟩
        refine ⟨?_, fun c h => hDigits.2 c (List.mem_of_mem_drop h)⟩
        simpa using Nat.lt_of_not_le hLong

theorem wellSpelled_scientificParts (negative plusSign : Bool) {digits : List Char}
    (exponent : Int) (hDigits : IsDigits digits) :
    (scientificParts negative plusSign digits exponent).WellSpelled := by
  obtain ⟨first, others, rfl⟩ := List.exists_cons_of_ne_nil hDigits.1
  refine ⟨⟨by simp [scientificParts], fun c h => hDigits.2 c (List.mem_of_mem_take h)⟩, ?_, ?_, ?_⟩
  · intro h
    simpa [scientificParts] using h
  · intro tail h
    by_cases hTail : others = []
    · simp [scientificParts, hTail] at h
    · simp only [scientificParts, List.tail_cons, hTail, if_false, Option.mem_some] at h
      rw [← h]
      exact ⟨hTail, fun c hMem => hDigits.2 c (List.mem_cons_of_mem _ hMem)⟩
  · rintro _ ⟨⟩
    refine ⟨Or.inl rfl, ?_, isDigits_toDigits _⟩
    dsimp only
    split
    · exact Or.inr (Or.inr rfl)
    · split
      · exact Or.inr (Or.inl rfl)
      · exact Or.inl rfl

/-- A decimal that is not zero is written as numbers are spelled. -/
theorem wellSpelled_decimalParts (layout : DecimalLayout) (negative : Bool) {decimal : Decimal}
    (h : 0 < decimal.digits) : (layout.decimalParts negative decimal).WellSpelled := by
  simp only [decimalParts]
  split
  · exact wellSpelled_positionalParts _ _ (isDigits_toDigits _) (head?_toDigits h)
  · exact wellSpelled_scientificParts _ _ _ (isDigits_toDigits _)

/-! ### The parts stand for the double -/

theorem digitsValue_zeros_append (count : Nat) (digits : List Char) :
    digitsValue (List.replicate count '0' ++ digits) = digitsValue digits := by
  rw [digitsValue, Nat.ofDigitChars_append, Nat.ofDigitChars_replicate_zero, Nat.mul_zero]
  rfl

theorem digitsValue_append_zeros (digits : List Char) (count : Nat) :
    digitsValue (digits ++ List.replicate count '0') = digitsValue digits * Nat.pow 10 count := by
  rw [digitsValue, Nat.ofDigitChars_append, Nat.ofDigitChars_replicate_zero, Nat.mul_comm]
  rfl

/-- A whole decimal gets a zero behind the point. Its digits are then no longer those of the
decimal, and only here the bound of the layout matters. -/
theorem ofDecimal_whole (negative : Bool) {digits : Nat} {exponent : Int}
    (hPoint : (Nat.toDigits 10 digits).length + exponent ≤ 16)
    (hShort : (Nat.toDigits 10 digits).length ≤
      ((Nat.toDigits 10 digits).length + exponent).toNat) :
    Double.ofDecimal negative
      (digits * Nat.pow 10
        (((Nat.toDigits 10 digits).length + exponent).toNat - (Nat.toDigits 10 digits).length + 1))
      (-1) = Double.ofDecimal negative digits exponent := by
  have hPos : 0 < (Nat.toDigits 10 digits).length := Nat.length_toDigits_pos
  obtain ⟨power, rfl⟩ : ∃ power : Nat, exponent = power := ⟨exponent.toNat, by omega⟩
  have hPower : ((Nat.toDigits 10 digits).length + (power : Int)).toNat -
      (Nat.toDigits 10 digits).length = power := by omega
  have hLt : digits < 10 ^ (Nat.toDigits 10 digits).length :=
    (Nat.length_toDigits_le_iff (by omega) hPos).mp (Nat.le_refl _)
  have hSmall : digits * Nat.pow 10 (power + 1) < Nat.pow 2 63 := by
    calc digits * Nat.pow 10 (power + 1)
      _ < 10 ^ (Nat.toDigits 10 digits).length * 10 ^ (power + 1) :=
          Nat.mul_lt_mul_of_pos_right hLt (Nat.pow_pos (by omega))
      _ = 10 ^ ((Nat.toDigits 10 digits).length + (power + 1)) := (Nat.pow_add _ _ _).symm
      _ ≤ 10 ^ 17 := Nat.pow_le_pow_right (by omega) (by omega)
      _ < Nat.pow 2 63 := by decide
  rw [hPower]
  exact Double.ofDecimal_shift negative hSmall

theorem ofNumeral_positionalParts (negative : Bool) {digits : Nat} {exponent : Int}
    (hPoint : (Nat.toDigits 10 digits).length + exponent ≤ 16) :
    Double.ofNumeral (positionalParts negative (Nat.toDigits 10 digits)
      ((Nat.toDigits 10 digits).length + exponent)).numeral =
        Double.ofDecimal negative digits exponent := by
  simp only [positionalParts]
  split
  · have hZeros : ['0'] ++ (List.replicate
          (-((Nat.toDigits 10 digits).length + exponent)).toNat '0' ++ Nat.toDigits 10 digits) =
        List.replicate ((-((Nat.toDigits 10 digits).length + exponent)).toNat + 1) '0' ++
          Nat.toDigits 10 digits := rfl
    simp only [Double.ofNumeral, Numeral.digits, Numeral.power, NumberParts.numeral,
      Option.getD_some, Option.map_none, Option.getD_none, List.length_append,
      List.length_replicate, hZeros, digitsValue_zeros_append, digitsValue_toDigits]
    congr 1
    omega
  · split
    · rename_i hShort
      simp only [Double.ofNumeral, Numeral.digits, Numeral.power, NumberParts.numeral,
        Option.getD_some, Option.map_none, Option.getD_none, List.append_assoc,
        ← List.replicate_succ', digitsValue_append_zeros, digitsValue_toDigits]
      exact ofDecimal_whole negative hPoint hShort
    · rename_i hLong
      simp only [Double.ofNumeral, Numeral.digits, Numeral.power, NumberParts.numeral,
        Option.getD_some, Option.map_none, Option.getD_none, List.take_append_drop,
        List.length_drop, digitsValue_toDigits]
      congr 1
      omega

theorem ofNumeral_scientificParts (negative plusSign : Bool) (digits : Nat) (exponent : Int) :
    Double.ofNumeral (scientificParts negative plusSign (Nat.toDigits 10 digits)
      ((Nat.toDigits 10 digits).length + exponent - 1)).numeral =
        Double.ofDecimal negative digits exponent := by
  obtain ⟨first, others, hDigits⟩ := List.exists_cons_of_ne_nil
    (Nat.toDigits_ne_nil (n := digits) (b := 10))
  have hFraction : ((scientificParts negative plusSign (Nat.toDigits 10 digits)
      ((Nat.toDigits 10 digits).length + exponent - 1)).fraction).getD [] = others := by
    simp only [scientificParts, hDigits, List.tail_cons]
    split
    · rename_i hTail
      rw [hTail]
      rfl
    · rfl
  have hExponent : ExponentParts.value
      { mark := 'e'
        sign := if (Nat.toDigits 10 digits).length + exponent - 1 < 0 then ['-']
          else if plusSign then ['+'] else []
        digits := Nat.toDigits 10 ((Nat.toDigits 10 digits).length + exponent - 1).natAbs } =
      (Nat.toDigits 10 digits).length + exponent - 1 := by
    simp only [ExponentParts.value, digitsValue_toDigits]
    by_cases hNegative : (Nat.toDigits 10 digits).length + exponent - 1 < 0
    · simp only [hNegative, if_true]
      omega
    · cases plusSign <;> simp [hNegative] <;> omega
  have hWhole : (scientificParts negative plusSign (Nat.toDigits 10 digits)
      ((Nat.toDigits 10 digits).length + exponent - 1)).whole = [first] := by
    simp [scientificParts, hDigits]
  have hValue : digitsValue (first :: others) = digits := by
    rw [← hDigits, digitsValue_toDigits]
  have hLength : (Nat.toDigits 10 digits).length = others.length + 1 := by
    rw [hDigits, List.length_cons]
  simp only [Double.ofNumeral, Numeral.digits, Numeral.power, NumberParts.numeral, hFraction,
    hWhole, List.singleton_append, hValue]
  apply congrArg (Double.ofDecimal negative digits)
  simp only [scientificParts, Option.map_some, Option.getD_some, hExponent]
  omega

/-- A decimal that is written is read as the double nearest to it. -/
theorem ofNumeral_decimalParts {layout : DecimalLayout} (hLayout : layout.greatestPoint ≤ 16)
    (negative : Bool) (decimal : Decimal) :
    Double.ofNumeral (layout.decimalParts negative decimal).numeral =
      Double.ofDecimal negative decimal.digits decimal.exponent := by
  simp only [decimalParts]
  split
  · rename_i hPoint
    exact ofNumeral_positionalParts negative (Int.le_trans hPoint.2 hLayout)
  · exact ofNumeral_scientificParts negative layout.plusSign decimal.digits decimal.exponent

/-- The shortest decimal of a positive double is not zero. -/
theorem digits_shortest_pos (tieUp : Bool) {steps : Nat} (h : Double.Representable steps)
    (hPos : 0 < steps) : 0 < (Double.shortest tieUp steps).digits := by
  obtain ⟨value, hValue, hSteps⟩ :=
    Double.readsBack_iff.mp (Double.readsBack_shortest tieUp h hPos)
  apply Nat.pos_of_ne_zero
  intro hZero
  simp only [Double.ofDecimal, hZero, if_true] at hValue
  cases hValue
  exact Nat.ne_of_gt hPos hSteps.symm

/-- A finite double is written as numbers are spelled. -/
theorem wellSpelled_finiteParts (layout : DecimalLayout) (value : FiniteDouble) :
    (layout.finiteParts value).WellSpelled := by
  rw [finiteParts]
  split
  · exact ⟨⟨by simp, by simp⟩, fun _ => rfl, by simp [IsDigits], by simp⟩
  · rename_i hSteps
    exact wellSpelled_decimalParts layout value.negative
      (digits_shortest_pos _ value.representable (Nat.pos_of_ne_zero hSteps))

/-- A finite double that is written is read back. -/
theorem ofNumeral_finiteParts {layout : DecimalLayout} (hLayout : layout.greatestPoint ≤ 16)
    (value : FiniteDouble) :
    Double.ofNumeral (layout.finiteParts value).numeral = .finite value := by
  rw [finiteParts]
  split
  · rename_i hSteps
    obtain ⟨negative, steps, hRepresentable⟩ := value
    dsimp only at hSteps
    subst hSteps
    rfl
  · rename_i hSteps
    rw [ofNumeral_decimalParts hLayout]
    obtain ⟨finite, hFinite, hSame⟩ := Double.readsBack_iff.mp
      (Double.readsBack_shortest layout.tieUp value.representable (Nat.pos_of_ne_zero hSteps))
    rw [Double.ofDecimal_negative hFinite]
    obtain ⟨negative, steps, hRepresentable⟩ := value
    dsimp only at hSame ⊢
    simp only [hSame]

/-- A double that is written reads back as the same double. -/
theorem read?_writeFinite {layout : DecimalLayout} (hLayout : layout.greatestPoint ≤ 16)
    (value : FiniteDouble) : Double.read? (layout.writeFinite value) = some (.finite value) := by
  rw [Double.read?, writeFinite_eq_spell, NumberParts.read?_spell (wellSpelled_finiteParts _ _),
    Option.map_some, ofNumeral_finiteParts hLayout]
  rfl

/-- The text of a double has a point or an exponent. -/
theorem writeFinite_fractional (layout : DecimalLayout) (value : FiniteDouble) :
    (layout.writeFinite value).any (fun c => c = '.' || c = 'e' || c = 'E') = true := by
  have hScientific : ∀ plusSign digits exponent,
      (scientific plusSign digits exponent).any (fun c => c = '.' || c = 'e' || c = 'E') =
        true := by
    intro plusSign digits exponent
    simp [scientific]
  have hPositional : ∀ digits point,
      (positional digits point).any (fun c => c = '.' || c = 'e' || c = 'E') = true := by
    intro digits point
    simp only [positional]
    split
    · simp
    · split <;> simp
  have hWrite : ∀ decimal,
      (layout.write decimal).any (fun c => c = '.' || c = 'e' || c = 'E') = true := by
    intro decimal
    simp only [write]
    split
    · exact hPositional _ _
    · exact hScientific _ _ _
  simp only [writeFinite]
  split
  · simp
  · rw [List.any_append, hWrite, Bool.or_true]

end DecimalLayout

/-- A written double is read as that double, and never as an integer. -/
theorem Listing.number?_writeFinite {layout : DecimalLayout} (hLayout : layout.greatestPoint ≤ 16)
    (value : FiniteDouble) :
    Listing.number? (String.ofList (layout.writeFinite value)) =
      some (.double (.finite value)) := by
  rw [Listing.number?, String.toList_ofList, DecimalLayout.writeFinite_fractional, if_pos rfl,
    DecimalLayout.read?_writeFinite hLayout]
  rfl

end PinnedTree
