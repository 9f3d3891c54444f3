import PinnedTree.Json.Writer
import PinnedTree.Listing
import PinnedTree.Proofs.Number.Spelling

/-! Integers in listings. An integer is written with no leading zero and no mark of a fraction, so
it is read as an integer again: as itself where it fits, and not at all where it does not. -/
namespace PinnedTree

open Text

theorem isDigits_toDigits (n : Nat) : IsDigits (Nat.toDigits 10 n) :=
  ⟨Nat.toDigits_ne_nil, fun _ h => Nat.isDigit_of_mem_toDigits (by omega) (by omega) h⟩

/-- The decimal digits of a number are read as the number. -/
theorem digitsValue_toDigits (n : Nat) : digitsValue (Nat.toDigits 10 n) = n :=
  Nat.ofDigitChars_ten_toDigits

theorem digitChar_ne_zero : ∀ digit < 10, 0 < digit → digit.digitChar ≠ '0' := by
  decide

/-- The highest digit of a positive number is not zero. -/
theorem head?_toDigits {n : Nat} (h : 0 < n) : (Nat.toDigits 10 n).head? ≠ some '0' := by
  induction n using Nat.strongRecOn with
  | ind n ih =>
      by_cases hSmall : n < 10
      · rw [Nat.toDigits_of_lt_base hSmall]
        exact fun hHead => digitChar_ne_zero n hSmall h (Option.some.inj hHead)
      · have hLe : 10 ≤ n := Nat.le_of_not_lt hSmall
        obtain ⟨first, others, hDigits⟩ := List.exists_cons_of_ne_nil
          (Nat.toDigits_ne_nil (n := n / 10) (b := 10))
        rw [Nat.toDigits_of_base_le (by omega) hLe, hDigits, List.cons_append, List.head?_cons,
          ← List.head?_cons (l := others), ← hDigits]
        exact ih (n / 10) (Nat.div_lt_self h (by omega)) (Nat.div_pos hLe (by omega))

/-- Only zero is written with a leading zero. -/
theorem toDigits_of_head? {n : Nat} (h : (Nat.toDigits 10 n).head? = some '0') :
    Nat.toDigits 10 n = ['0'] := by
  rcases Nat.eq_zero_or_pos n with rfl | hPos
  · rfl
  · exact absurd h (head?_toDigits hPos)

namespace Json

def integerParts (value : Int) : NumberParts where
  negative := decide (value < 0)
  whole := Nat.toDigits 10 value.natAbs
  fraction := none
  exponent := none

/-- An integer is written as numbers are spelled. -/
theorem integerParts_wellSpelled (value : Int) : (integerParts value).WellSpelled where
  whole := isDigits_toDigits _
  noLeadingZero := toDigits_of_head?
  fraction := by simp [integerParts]
  exponent := by simp [integerParts]

theorem writeInt_eq_spell (value : Int) : writeInt value = (integerParts value).spell := by
  simp [writeInt, integerParts, NumberParts.spell, NumberParts.signText, NumberParts.fractionText,
    NumberParts.exponentText]

theorem not_fractional_of_isDigit {c : Char} (h : c.isDigit = true) :
    ¬(c = '.' ∨ c = 'e' ∨ c = 'E') := by
  rintro (rfl | rfl | rfl) <;> cases h

/-- No character of an integer marks it as a double. -/
theorem writeInt_not_fractional (value : Int) :
    (writeInt value).any (fun c => c = '.' || c = 'e' || c = 'E') = false := by
  rw [List.any_eq_false]
  intro c hMem
  simp only [writeInt, List.mem_append] at hMem
  rcases hMem with hSign | hDigit
  · split at hSign
    · rw [List.mem_singleton.mp hSign]
      decide
    · cases hSign
  · have h := not_fractional_of_isDigit ((isDigits_toDigits _).2 c hDigit)
    simpa [or_assoc] using h

/-- An integer that is written is read back. -/
theorem integer?_writeInt (value : Int) : integer? (writeInt value) = some value := by
  have hSplit := NumberParts.splitSign_spell (integerParts_wellSpelled value)
  simp only [NumberParts.fractionText, NumberParts.exponentText, integerParts, Option.elim_none,
    List.append_nil] at hSplit
  rw [integer?, writeInt_eq_spell, integerParts, hSplit]
  simp only [natural?_of_isDigits (isDigits_toDigits _), digitsValue_toDigits, decide_eq_true_eq]
  have hValue : (if value < 0 then -(value.natAbs : Int) else value.natAbs) = value := by
    split
    · omega
    · omega
  exact congrArg some hValue

end Json

namespace Listing

/-- A written integer is read as a long, if it is in the range of longs. -/
theorem number?_writeInt (value : Int) :
    number? (String.ofList (Json.writeInt value)) = Scalar.long? value := by
  rw [number?, String.toList_ofList, Json.writeInt_not_fractional, if_neg (by decide),
    Json.integer?_writeInt]
  rfl

/-- A written count is read as itself, if it fits into a word. -/
theorem count?_writeInt {count : Nat} (h : count < UInt64.size) :
    count? (String.ofList (Json.writeInt count)) = some count := by
  have hText : Json.writeInt count = Nat.toDigits 10 count := by
    rw [Json.writeInt, if_neg (by omega), List.nil_append, Int.natAbs_natCast]
  rw [count?, String.toList_ofList, hText, natural?_of_isDigits (isDigits_toDigits count),
    digitsValue_toDigits]
  simp [h]

end Listing

end PinnedTree
