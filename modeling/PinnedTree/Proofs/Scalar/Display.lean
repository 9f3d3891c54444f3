import PinnedTree.Proofs.Number.Float
import PinnedTree.Proofs.Text.Joined
import PinnedTree.Proofs.Text.Quoted

/-! Values are told apart by their display texts. The text of a scalar delimits itself in a list: a
string by its quotes, and every other scalar because it has none of the characters of lists. What is
not quoted is read back as it was. -/
namespace PinnedTree

open Text

/-- The characters that neither lists nor quotes need. -/
def isBare (c : Char) : Bool :=
  c ≠ ',' && c ≠ '[' && c ≠ ']' && c ≠ '"'

theorem isBare_of_isDigit {c : Char} (h : c.isDigit = true) : isBare c = true := by
  have hNe : ∀ mark : Char, mark.isDigit = false → c ≠ mark :=
    fun mark hMark => NumberParts.ne_of_isDigit h hMark
  simp [isBare, hNe ',' rfl, hNe '[' rfl, hNe ']' rfl, hNe '"' rfl]

namespace NumberParts

/-- A number is spelled by digits and the marks of numbers. -/
theorem mem_spell {parts : NumberParts} (hParts : parts.WellSpelled) {c : Char}
    (h : c ∈ parts.spell) : c.isDigit = true ∨ c ∈ ['-', '+', '.', 'e', 'E'] := by
  simp only [spell, List.mem_append] at h
  rcases h with hSign | hWhole | hFraction | hExponent
  · rw [signText] at hSign
    split at hSign
    · rw [List.mem_singleton.mp hSign]
      exact .inr (by decide)
    · cases hSign
  · exact .inl (hParts.whole.2 c hWhole)
  · cases hSome : parts.fraction with
    | none =>
        rw [fractionText, hSome] at hFraction
        cases hFraction
    | some digits =>
        rw [fractionText, hSome] at hFraction
        rcases List.mem_cons.mp hFraction with rfl | hDigit
        · exact .inr (by decide)
        · exact .inl ((hParts.fraction digits hSome).2 c hDigit)
  · cases hSome : parts.exponent with
    | none =>
        rw [exponentText, hSome] at hExponent
        cases hExponent
    | some exponent =>
        obtain ⟨hMark, hSign, hDigits⟩ := hParts.exponent exponent hSome
        rw [exponentText, hSome, Option.elim_some, ExponentParts.spell] at hExponent
        rcases List.mem_cons.mp hExponent with rfl | hRest
        · rcases hMark with hMark | hMark <;> rw [hMark] <;> exact .inr (by decide)
        · rcases List.mem_append.mp hRest with hPlus | hDigit
          · rcases hSign with hSign | hSign | hSign <;> rw [hSign] at hPlus
            · cases hPlus
            · rw [List.mem_singleton.mp hPlus]
              exact .inr (by decide)
            · rw [List.mem_singleton.mp hPlus]
              exact .inr (by decide)
          · exact .inl (hDigits.2 c hDigit)

/-- A number is spelled without the characters that lists and quotes need. -/
theorem isBare_of_mem_spell {parts : NumberParts} (hParts : parts.WellSpelled) :
    ∀ c ∈ parts.spell, isBare c = true := by
  have hMarks : ['-', '+', '.', 'e', 'E'].all isBare = true := by decide
  exact fun c h => (mem_spell hParts h).elim isBare_of_isDigit (List.all_eq_true.mp hMarks c)

theorem spell_ne_nil {parts : NumberParts} (hParts : parts.WellSpelled) : parts.spell ≠ [] := by
  obtain ⟨c, tail, hSpell, -⟩ := startsNumber_spell hParts
  rw [hSpell]
  exact List.cons_ne_nil c tail

end NumberParts

namespace Scalar

def isText : Scalar → Bool
  | .text _ => true
  | _ => false

/-! ### Scalars without quotes -/

/-- What is displayed without quotes has none of the characters of lists, and is not empty. -/
theorem bare_display {scalar : Scalar} (h : scalar.isText = false) :
    scalar.display ≠ [] ∧ ∀ c ∈ scalar.display, isBare c = true := by
  cases scalar with
  | text value => cases h
  | boolean value => cases value <;> exact ⟨List.cons_ne_nil _ _, List.all_eq_true.mp rfl⟩
  | long value =>
      have hParts := Json.integerParts_wellSpelled value.toInt
      rw [display, Json.writeInt_eq_spell]
      exact ⟨NumberParts.spell_ne_nil hParts, NumberParts.isBare_of_mem_spell hParts⟩
  | double value =>
      cases value with
      | nan => exact ⟨List.cons_ne_nil _ _, List.all_eq_true.mp rfl⟩
      | infinite negative =>
          cases negative <;> exact ⟨List.cons_ne_nil _ _, List.all_eq_true.mp rfl⟩
      | finite value =>
          have hParts := DecimalLayout.wellSpelled_finiteParts doubleLayout value
          rw [display, displayDouble, DecimalLayout.writeFinite_eq_spell]
          exact ⟨NumberParts.spell_ne_nil hParts, NumberParts.isBare_of_mem_spell hParts⟩

def boolean? (text : List Char) : Option Scalar :=
  if text = ['t', 'r', 'u', 'e'] then some (.boolean true)
  else if text = ['f', 'a', 'l', 's', 'e'] then some (.boolean false)
  else none

/-- The scalar that is displayed so without quotes: a number, a double with a name or a boolean. -/
def ofBare? (text : List Char) : Option Scalar :=
  (Listing.number? (String.ofList text)).or
    (((Double.named? text).map Scalar.double).or (boolean? text))

theorem long?_toInt (value : Int64) : long? value.toInt = some (.long value) := by
  have hRange : InLongRange value.toInt := ⟨value.minValue_le_toInt, value.toInt_le⟩
  rw [long?, if_pos hRange, Int64.ofInt_toInt]

/-- What is displayed without quotes is read back. -/
theorem ofBare?_display {scalar : Scalar} (h : scalar.isText = false) :
    ofBare? scalar.display = some scalar := by
  cases scalar with
  | text value => cases h
  | boolean value => cases value <;> decide
  | long value =>
      rw [ofBare?, display, Listing.number?_writeInt, long?_toInt]
      rfl
  | double value =>
      cases value with
      | nan => decide
      | infinite negative => cases negative <;> decide
      | finite value =>
          have hLayout : doubleLayout.greatestPoint ≤ 16 := by decide
          rw [ofBare?, display, displayDouble, Listing.number?_writeFinite hLayout]
          rfl

/-! ### Scalars in a list -/

/-- What is displayed without quotes does not start with a character of lists or a quote. -/
theorem bare_append_ne {scalar : Scalar} (h : scalar.isText = false) {mark : Char}
    (hMark : isBare mark = false) (rest behind : List Char) :
    scalar.display ++ rest ≠ mark :: behind := by
  obtain ⟨hSome, hBare⟩ := bare_display h
  obtain ⟨first, others, hDisplay⟩ := List.exists_cons_of_ne_nil hSome
  have hFirst := hBare first (hDisplay ▸ List.mem_cons_self)
  rw [hDisplay, List.cons_append]
  intro hSame
  rw [(List.cons.inj hSame).1, hMark] at hFirst
  cases hFirst

/-- In front of a character of lists, a display text tells the scalar and what follows. -/
theorem display_append_inj {left right : Scalar} {rest behind : List Char}
    (hRest : StopsAt isBare rest) (hBehind : StopsAt isBare behind)
    (h : left.display ++ rest = right.display ++ behind) : left = right ∧ rest = behind := by
  cases hLeft : left.isText with
  | false =>
      cases hRight : right.isText with
      | false =>
          obtain ⟨-, hLeftBare⟩ := bare_display hLeft
          obtain ⟨-, hRightBare⟩ := bare_display hRight
          have hFront := congrArg (List.takeWhile isBare) h
          have hBack := congrArg (List.dropWhile isBare) h
          rw [takeWhile_append hLeftBare hRest, takeWhile_append hRightBare hBehind] at hFront
          rw [dropWhile_append hLeftBare hRest, dropWhile_append hRightBare hBehind] at hBack
          have hRead := ofBare?_display hLeft
          rw [hFront, ofBare?_display hRight] at hRead
          exact ⟨(Option.some.inj hRead).symm, hBack⟩
      | true =>
          cases right with
          | text value => exact absurd h (bare_append_ne hLeft rfl rest _)
          | _ => cases hRight
  | true =>
      cases left with
      | text value =>
          cases hRight : right.isText with
          | false => exact absurd h.symm (bare_append_ne hRight rfl behind _)
          | true =>
              cases right with
              | text other =>
                  obtain ⟨hValue, hTail⟩ := quoted_append_inj h
                  exact ⟨congrArg Scalar.text (String.toList_inj.mp hValue), hTail⟩
              | _ => cases hRight
      | _ => cases hLeft

/-- A scalar as it is displayed tells itself and where it ends. -/
theorem delimits_display (scalar : Scalar) : Delimits display (StopsAt isBare) scalar :=
  ⟨display_append_inj⟩

/-- No scalar starts like a list, or where a list ends. -/
theorem display_append_ne_bracket {scalar : Scalar} {bracket : Char}
    (hBracket : bracket = '[' ∨ bracket = ']') (rest behind : List Char) :
    scalar.display ++ rest ≠ bracket :: behind := by
  cases hText : scalar.isText with
  | true =>
      cases scalar with
      | text value =>
          intro hSame
          have hQuote := (List.cons.inj hSame).1
          rcases hBracket with rfl | rfl <;> cases hQuote
      | _ => cases hText
  | false =>
      apply bare_append_ne hText
      rcases hBracket with rfl | rfl <;> rfl

end Scalar

namespace Property

/-! ### Lists -/

theorem separated_eq_intercalate (texts : List (List Char)) :
    separated texts = [',', ' '].intercalate texts := by
  induction texts with
  | nil => rfl
  | cons first rest ih =>
      cases rest with
      | nil => simp [separated]
      | cons next rest => simp [separated, ih]

/-- In a list of scalars a comma or the bracket ends each of them. -/
theorem brackets_display : Brackets Scalar.display (StopsAt isBare) [',', ' '] ']' where
  beforeSeparator _ := stopsAt_cons rfl _
  beforeClosing _ := stopsAt_cons rfl _
  separator_ne _ _ h := by cases (List.cons.inj h).1
  element_ne _ rest behind := Scalar.display_append_ne_bracket (.inr rfl) rest behind

/-- A list of values is displayed between brackets, with separators between the values. -/
theorem display_many (values : List Scalar) :
    display (.many values) = '[' :: joined Scalar.display [',', ' '] ']' values [] := by
  rw [display, separated_eq_intercalate]
  rfl

/-- Scalars that are displayed alike are the same. -/
theorem display_injective : Function.Injective display := by
  intro left right h
  cases left with
  | one value =>
      cases right with
      | one other =>
          have hSame : value.display ++ [] = other.display ++ [] := congrArg (· ++ []) h
          exact congrArg OneOrMany.one
            (Scalar.display_append_inj (stopsAt_nil _) (stopsAt_nil _) hSame).1
      | many values =>
          have hSame := (List.append_nil value.display).trans h
          exact absurd hSame (Scalar.display_append_ne_bracket (.inl rfl) [] _)
  | many values =>
      cases right with
      | one other =>
          have hSame := (List.append_nil other.display).trans h.symm
          exact absurd hSame (Scalar.display_append_ne_bracket (.inl rfl) [] _)
      | many others =>
          rw [display_many, display_many] at h
          have hSame := brackets_display.joined_inj (fun scalar _ => scalar.delimits_display)
            (List.cons.inj h).2
          exact congrArg OneOrMany.many hSame.1

end Property

/-! ### Equality as values -/

theorem Scalar.equal_self {scalar : Scalar} (h : scalar ≠ .double .nan) :
    scalar.equal scalar = true := by
  cases scalar with
  | double value =>
      cases value with
      | nan => exact absurd rfl h
      | infinite negative => simp [Scalar.equal, Double.equal]
      | finite value => simp [Scalar.equal, Double.equal]
  | long value => simp [Scalar.equal]
  | boolean value => simp [Scalar.equal]
  | text value => simp [Scalar.equal]

/-- A value equals itself unless it has what is not a number. -/
theorem Property.equal_self {value : Property}
    (h : ∀ scalar ∈ value.toList, scalar ≠ .double .nan) : value.equal value = true := by
  cases value with
  | one value => exact Scalar.equal_self (h value List.mem_cons_self)
  | many values =>
      change values.isEqv values Scalar.equal = true
      induction values with
      | nil => rfl
      | cons first rest ih =>
          obtain ⟨hFirst, hRest⟩ := List.forall_mem_cons.mp h
          rw [List.isEqv_cons_cons, Scalar.equal_self hFirst, ih hRest]
          rfl

/-- Values that are displayed alike are the same, down to the form, the types and the signs of
zeros. So they are also equal as values, unless what is not a number is among them. -/
theorem display_unambiguous (left right : Property) :
    (left.display = right.display ↔ left = right) ∧
      ((∀ scalar ∈ left.toList, scalar ≠ .double .nan) → left.display = right.display →
        left.equal right = true) := by
  have hSame : left.display = right.display ↔ left = right := Property.display_injective.eq_iff
  refine ⟨hSame, fun hNumbers hDisplay => ?_⟩
  obtain rfl := hSame.mp hDisplay
  exact Property.equal_self hNumbers

/-- A comma inside a string is not taken for one of the list. Minus zero is equal to itself. -/
theorem display_unambiguous_sample :
    Property.display (.many [.long 1, .text "2, 3"]) ≠
        Property.display (.many [.long 1, .text "2", .long 3]) ∧
      Property.equal (.many [.double (.finite (Double.zero true))])
        (.many [.double (.finite (Double.zero true))]) = true := by
  refine ⟨fun hDisplay => ?_, (display_unambiguous _ _).2 (fun scalar hScalar => ?_) rfl⟩
  · have hSame := (display_unambiguous _ _).1.mp hDisplay
    exact absurd hSame (by decide)
  · rw [List.mem_singleton.mp hScalar]
    exact nofun

end PinnedTree
