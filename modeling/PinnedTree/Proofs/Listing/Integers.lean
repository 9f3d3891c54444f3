import Mathlib.Data.Nat.Digits.Defs
import PinnedTree.Proofs.Listing.Departures
import PinnedTree.Proofs.Token.Positions

/-! Integers in listings are exact. A number without a point and an exponent is held as the integer
that its digits stand for, or it is refused and named as it is written; and so it is with the number
of children, which is digits and nothing else. -/
namespace PinnedTree

namespace Listing

open Text

/-! ### The integers that digits stand for -/

def digit (c : Char) : Nat :=
  c.toNat - '0'.toNat

/-- What digits stand for in the decimal system, where the last one counts least. -/
def decimal (digits : List Char) : Nat :=
  Nat.ofDigits 10 (digits.reverse.map digit)

/-- The integer that digits stand for, with or without a minus. -/
inductive Denotes : List Char → Int → Prop where
  | plain {digits : List Char} (hDigits : IsDigits digits) : Denotes digits (decimal digits)
  | minus {digits : List Char} (hDigits : IsDigits digits) :
      Denotes ('-' :: digits) (-(decimal digits : Int))

/-- Digits are read in the decimal system. -/
theorem digitsValue_eq_decimal (digits : List Char) : digitsValue digits = decimal digits := by
  induction digits using List.reverseRecOn with
  | nil => rfl
  | append_singleton front last ih =>
      rw [digitsValue, Nat.ofDigitChars_append, Nat.ofDigitChars_cons, Nat.ofDigitChars_nil,
        decimal, List.reverse_concat, List.map_cons, Nat.ofDigits_cons, Nat.add_comm, ← decimal,
        ← ih]
      rfl

/-- The spelling of an integer is read as that integer. -/
theorem Denotes.integer? {text : List Char} {value : Int} (h : Denotes text value) :
    Text.integer? text = some value := by
  cases h with
  | plain hDigits =>
      obtain ⟨first, others, hText⟩ := List.exists_cons_of_ne_nil hDigits.1
      have hFirst := hDigits.2 first (hText ▸ List.mem_cons_self)
      have hSplit : splitSign text = (false, text) := by
        rw [hText, splitSign, if_neg (NumberParts.ne_of_isDigit hFirst rfl),
          if_neg (NumberParts.ne_of_isDigit hFirst rfl)]
      rw [Text.integer?, hSplit, ← digitsValue_eq_decimal]
      simp [natural?_of_isDigits hDigits]
  | @minus digits hDigits =>
      rw [Text.integer?, splitSign, if_pos rfl, ← digitsValue_eq_decimal]
      simp [natural?_of_isDigits hDigits]

variable {text : String} {front : List Token} {token : Token}

/-- Every number without a point and an exponent denotes an integer. -/
theorem exists_denotes (h : token ∈ (Tokens.ofString text).front) (hKind : token.kind = .number)
    (hWhole : ¬ IsFractional token.text) : ∃ value, Denotes token.text.toList value := by
  obtain ⟨parts, hParts, hText, hFraction, hExponent⟩ := whole_of_mem h hKind hWhole
  rw [hText, NumberParts.spell, hFraction, hExponent, List.append_nil, List.append_nil,
    NumberParts.signText]
  cases parts.negative with
  | true => exact ⟨_, .minus hParts.whole⟩
  | false => exact ⟨_, .plain hParts.whole⟩

/-! ### Longs -/

/-- A token is read as the long that is this integer. If there is none, the token is refused and
named. -/
structure ReadsExactly (token : Token) (value : Int) : Prop where
  held : -9223372036854775808 ≤ value → value ≤ 9223372036854775807 →
    ∃ long : Int64, long.toInt = value ∧ scalar token = .ok (.long long)
  refused : ¬(-9223372036854775808 ≤ value ∧ value ≤ 9223372036854775807) →
    scalar token = .error (.unexpectedToken token.text)

/-- A number without point and exponent is read exactly, or refused and named. -/
theorem Denotes.readsExactly {value : Int} (h : Denotes token.text.toList value)
    (hKind : token.kind = .number) (hWhole : ¬ IsFractional token.text) :
    ReadsExactly token value := by
  have hNumber : number? token.text = Scalar.long? value := by
    rw [number?_of_whole hWhole, h.integer?]
    rfl
  constructor
  · intro hLow hHigh
    have hLong := long?_eq_some_iff.mpr ⟨show Scalar.InLongRange value from ⟨hLow, hHigh⟩, rfl⟩
    have hBelow := Int.lt_of_le_of_lt hHigh (show 9223372036854775807 < (2 ^ 63 : Int) by decide)
    refine ⟨Int64.ofInt value, Int64.toInt_ofInt_of_le hLow hBelow, ?_⟩
    simp only [scalar, hKind, hNumber, hLong]
  · intro hOutside
    have hNone : Scalar.long? value = none := if_neg hOutside
    simp only [scalar, hKind, hNumber, hNone]

/-! ### Numbers of children -/

/-- The plain digits of a number that a word of 64 bits holds. -/
def IsCount (text : List Char) : Prop :=
  IsDigits text ∧ decimal text ≤ 18446744073709551615

/-- Plain digits below the bound are taken as the count that they spell. -/
theorem count?_of_isCount {text : String} (h : IsCount text.toList) :
    count? text = some (decimal text.toList) := by
  apply count?_eq_some_iff.mpr
  rw [digitsValue_eq_decimal]
  exact ⟨h.1, Nat.lt_succ_of_le h.2, rfl⟩

/-- Nothing else is taken as a count. -/
theorem count?_of_not_isCount {text : String} (h : ¬ IsCount text.toList) :
    count? text = none := by
  cases hCount : count? text with
  | none => rfl
  | some count =>
      obtain ⟨hDigits, hSmall, -⟩ := count?_eq_some_iff.mp hCount
      rw [digitsValue_eq_decimal] at hSmall
      exact absurd ⟨hDigits, Nat.le_of_lt_succ hSmall⟩ h

/-- Only the value of its own member changes the number of children. -/
theorem childCount_of_step {place after : Place} {draft next : Draft}
    (h : step (place, draft) token = .ok (after, next)) (hPlace : place ≠ .total) :
    next.childCount = draft.childCount := by
  cases place with
  | total => exact absurd rfl hPlace
  | value name =>
      simp only [step] at h
      split at h
      · cases h
        rfl
      · split at h
        · cases h
          rfl
        · obtain ⟨value, -, hNext⟩ := exists_of_map_eq_ok h
          cases hNext
          rfl
  | childEnd name =>
      simp only [step] at h
      split at h
      · cases h
        rw [Draft.addChild_eq]
      · cases h
  | firstItem name =>
      simp only [step] at h
      split at h
      · cases h
        rfl
      · obtain ⟨value, -, hNext⟩ := exists_of_map_eq_ok h
        cases hNext
        rfl
  | item name items =>
      obtain ⟨value, -, hNext⟩ := exists_of_map_eq_ok h
      cases hNext
      rfl
  | _ =>
      simp only [step] at h
      repeat' split at h
      all_goals
        cases h
        try rfl

/-- Where no number of children is due any more, the last one stays. -/
theorem childCount_of_foldlM {tokens rest : List Token} {state after : State}
    (hTokens : tokens.foldlM step (.opening, {}) = .ok state)
    (hRest : rest.foldlM step state = .ok after)
    (hLast : ∀ later, tokens <+: later → later <+: tokens ++ rest → ¬ TotalDue later) :
    after.2.childCount = state.2.childCount := by
  induction rest generalizing tokens state with
  | nil =>
      cases hRest
      rfl
  | cons token rest ih =>
      cases hStep : step state token with
      | error error =>
          rw [List.foldlM_cons, hStep] at hRest
          cases hRest
      | ok next =>
          -- The tokens before this one tell the place, so a total here would be due in the text.
          have hPlace : state.1 ≠ .total := fun hTotal =>
            hLast tokens (List.prefix_refl tokens) (List.prefix_append tokens _)
              ((totalDue_iff hTokens).mpr hTotal)
          rw [foldlM_cons_of_eq_ok hStep] at hRest
          have hNext : (tokens ++ [token]).foldlM step (.opening, {}) = .ok next := by
            rw [foldlM_append_of_eq_ok hTokens, foldlM_cons_of_eq_ok hStep]
            rfl
          rw [ih hNext hRest, childCount_of_step hStep hPlace]
          intro later hFront hBehind
          rw [List.append_assoc] at hBehind
          exact hLast later ((List.prefix_append tokens [token]).trans hFront) hBehind

/-- A number that stands for the number of children is taken as it is, and is kept unless the text
gives another one later. Any other number is refused and named. -/
structure CountsExactly (text : String) (front : List Token) (token : Token) : Prop where
  taken : IsCount token.text.toList → ∃ draft,
    (front ++ [token]).foldlM step (.opening, {}) = .ok (.separator, draft) ∧
      draft.childCount = some (decimal token.text.toList)
  kept : IsCount token.text.toList →
    (∀ later, front ++ [token] <+: later → later <+: (Tokens.ofString text).front →
      ¬ TotalDue later) →
    ∀ limit listing, ofString limit text = .ok listing →
      listing.childCount = decimal token.text.toList
  refused : ¬ IsCount token.text.toList →
    ∀ limit, ofString limit text = .error (.unexpectedToken token.text)

/-- A number where the total is due is taken exactly, or refused and named. -/
theorem countsExactly (hPrefix : front ++ [token] <+: (Tokens.ofString text).front)
    (hKind : token.kind = .number) (hDue : TotalDue front) : CountsExactly text front token := by
  obtain ⟨entries, hNamed⟩ := hDue
  obtain ⟨rest, hTokens⟩ := hPrefix
  have hFront : front.foldlM step (.opening, {}) = .ok (.total, .ofEntries entries) := by
    rw [hNamed.read, valuePlace, if_pos rfl]
  let counted : Draft :=
    { Draft.ofEntries entries with childCount := some (decimal token.text.toList) }
  have hTaken (hCount : IsCount token.text.toList) :
      (front ++ [token]).foldlM step (.opening, {}) = .ok (.separator, counted) := by
    have hStep : step (.total, .ofEntries entries) token = .ok (.separator, counted) := by
      simp only [step, hKind, if_true, count?_of_isCount hCount, counted]
    rw [foldlM_append_of_eq_ok hFront, foldlM_cons_of_eq_ok hStep]
    rfl
  refine ⟨fun hCount => ⟨_, hTaken hCount, rfl⟩, fun hCount hLast limit listing hListing => ?_,
    fun hCount limit => ?_⟩
  · obtain ⟨entries, hSpells⟩ := exists_spells_of_ok hListing
    have hRest := hSpells.front.read
    rw [← hTokens, foldlM_append_of_eq_ok (hTaken hCount)] at hRest
    have hKept := childCount_of_foldlM (hTaken hCount) hRest (hTokens ▸ hLast)
    rw [(Draft.holds_ofEntries entries).childCount] at hKept
    rw [(hSpells.ofString_eq_ok hListing).2.childCount, hKept, Option.getD_some]
  · have hReaches : (Tokens.ofString text).Reaches front (.ok token) :=
      ⟨token :: rest, by rw [← hTokens, List.append_assoc]; rfl, rfl⟩
    have hStep : step (.total, .ofEntries entries) token =
        .error (.unexpectedToken token.text) := by
      simp only [step, hKind, if_true, count?_of_not_isCount hCount]
    exact ofString_eq_error (hReaches.run_eq_error hFront hStep) limit

end Listing

/-- A number of a text that has no point and no exponent is read as the long that its digits denote,
or it is refused and named as it stands in the text. As the number of children, it is taken if it
is plain digits that a word holds, and any other number is refused and named. -/
theorem integers_exact {text : String} {front : List Token} {token : Token}
    (hPrefix : front ++ [token] <+: (Tokens.ofString text).front) (hKind : token.kind = .number) :
    (∃ before behind, text.toList = before ++ (token.text.toList ++ behind) ∧
      token.start = Text.byteLength before) ∧
    (¬ Listing.IsFractional token.text → ∃ value, Listing.Denotes token.text.toList value ∧
      Listing.ReadsExactly token value) ∧
    (Listing.TotalDue front → Listing.CountsExactly text front token) := by
  have hMem : token ∈ (Tokens.ofString text).front :=
    hPrefix.subset (List.mem_append_right front List.mem_cons_self)
  refine ⟨Tokens.exists_written hMem ?_, fun hWhole => ?_, Listing.countsExactly hPrefix hKind⟩
  · rw [hKind]
    exact nofun
  · obtain ⟨value, hDenotes⟩ := Listing.exists_denotes hMem hKind hWhole
    exact ⟨value, hDenotes, hDenotes.readsExactly hKind hWhole⟩

def Listing.bounds : Json :=
  .object [
    (childNodeCount, .atom (.number (.integer 18446744073709551616))),
    ("a", .atom (.number (.integer (-9223372036854775808))))]

/-- The number of children is refused, although it is plain digits. The least long is held. -/
theorem integers_exact_sample :
    Listing.ofString 5 Listing.bounds.text = .error (.unexpectedToken "18446744073709551616") ∧
      ∃ long : Int64, long.toInt = -9223372036854775808 ∧
        Listing.scalar ⟨.number, "-9223372036854775808", 44⟩ = .ok (.long long) := by
  let front : List Token :=
    [⟨.leftBrace, "\x7b", 0⟩, ⟨.string, ":childNodeCount", 1⟩, ⟨.colon, ":", 18⟩]
  let count : Token := ⟨.number, "18446744073709551616", 19⟩
  let before : List Token :=
    front ++ [count, ⟨.comma, ",", 39⟩, ⟨.string, "a", 40⟩, ⟨.colon, ":", 43⟩]
  let least : Token := ⟨.number, "-9223372036854775808", 44⟩
  have hTokens : before ++ [least] ++ [⟨.rightBrace, "\x7d", 64⟩] =
      (Tokens.ofString Listing.bounds.text).front := by
    rw [Json.ofString_text]
    rfl
  constructor
  · have hPrefix : front ++ [count] <+: (Tokens.ofString Listing.bounds.text).front :=
      ⟨_, hTokens⟩
    have hRead : front.foldlM Listing.step (.opening, {}) = .ok (.total, {}) := rfl
    have hDue : Listing.TotalDue front := (Listing.totalDue_iff hRead).mpr rfl
    refine ((integers_exact hPrefix rfl).2.2 hDue).refused ?_ 5
    rintro ⟨-, hSmall⟩
    exact absurd hSmall (by decide)
  · have hPrefix : before ++ [least] <+: (Tokens.ofString Listing.bounds.text).front :=
      ⟨_, hTokens⟩
    have hWhole : ¬ Listing.IsFractional least.text := by
      rw [← Listing.any_fractional_iff]
      decide
    obtain ⟨value, hDenotes, hReads⟩ := (integers_exact hPrefix rfl).2.1 hWhole
    have hValue : Text.integer? least.text.toList = some (-9223372036854775808) := by decide
    obtain rfl := Option.some.inj (hValue.symm.trans hDenotes.integer?)
    exact hReads.held (by decide) (by decide)

end PinnedTree
