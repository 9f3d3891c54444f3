import Mathlib.Data.List.Forall2
import PinnedTree.Proofs.Json.Reading
import PinnedTree.Proofs.Number.Overflow
import PinnedTree.Scalar

/-! Values come back from JSON text. How a scalar is written tells its type, so that a reader who
takes the first type that fits takes the right one. Only the digits of a double may be read as
another double, and what is not finite does not come back at all. -/
namespace PinnedTree

open Text

/-- A list is read if each of its items is. -/
theorem mapM_eq_some_iff {α β : Type} {read : α → Option β} {items : List α} {back : List β} :
    items.mapM read = some back ↔
      List.Forall₂ (fun item one => read item = some one) items back := by
  induction items generalizing back with
  | nil =>
      rw [List.mapM_nil, List.forall₂_nil_left_iff]
      exact ⟨fun h => (Option.some.inj h).symm, fun h => congrArg some h.symm⟩
  | cons item items ih =>
      rw [List.mapM_cons, List.forall₂_cons_left_iff]
      constructor
      · intro h
        obtain ⟨one, hOne, h⟩ := Option.bind_eq_some_iff.mp h
        obtain ⟨others, hOthers, h⟩ := Option.bind_eq_some_iff.mp h
        cases h
        exact ⟨one, others, hOne, ih.mp hOthers, rfl⟩
      · rintro ⟨one, others, hOne, hOthers, rfl⟩
        rw [hOne, ih.mpr hOthers]
        rfl

/-! ### Doubles as literals -/

namespace DecimalLayout

/-- A double is written with a fraction or an exponent. -/
theorem finiteParts_fractional (layout : DecimalLayout) (value : FiniteDouble) :
    (layout.finiteParts value).numeral.fraction.isSome = true ∨
      (layout.finiteParts value).numeral.exponent.isSome = true := by
  simp only [finiteParts, decimalParts, positionalParts, scientificParts, NumberParts.numeral]
  split
  · exact .inl rfl
  · split
    · split
      · exact .inl rfl
      · split <;> exact .inl rfl
    · exact .inr rfl

end DecimalLayout

namespace Json.Number

/-- An integer that fits into 64 bits is read as itself. -/
theorem ofLiteral?_writeInt {value : Int} (hLow : Int64.minValue.toInt ≤ value)
    (hHigh : value < UInt64.size) : ofLiteral? (writeInt value) = some (.integer value) := by
  have hInteger : integer? (integerParts value).numeral = some value := by
    simp only [integer?, integerParts, NumberParts.numeral, digitsValue_toDigits, Option.map_none,
      Option.isSome_none, Bool.false_eq_true, or_self, if_false, decide_eq_true_eq]
    by_cases hNegative : value < 0
    · have hValue : -(value.natAbs : Int) = value := by omega
      rw [if_pos hNegative, hValue, if_pos ⟨by omega, hLow⟩]
    · have hValue : (value.natAbs : Int) = value := by omega
      rw [if_neg hNegative, if_pos (by omega), hValue]
  rw [ofLiteral?, writeInt_eq_spell, NumberParts.read?_spell (integerParts_wellSpelled value)]
  simp only [Option.bind_eq_bind, Option.bind_some, hInteger]

/-- A double is never read as an integer. -/
theorem ofLiteral?_writeFinite (value : FiniteDouble) :
    ofLiteral? (floatLayout.writeFinite value) =
      (scaled? (floatLayout.finiteParts value).numeral).map .float := by
  have hInteger : integer? (floatLayout.finiteParts value).numeral = none :=
    if_pos (floatLayout.finiteParts_fractional value)
  rw [ofLiteral?, DecimalLayout.writeFinite_eq_spell,
    NumberParts.read?_spell (DecimalLayout.wellSpelled_finiteParts _ value)]
  simp only [Option.bind_eq_bind, Option.bind_some, hInteger]

end Json.Number

/-- A literal with a fraction whose digits all fit is scaled once. -/
theorem Json.scaled?_of_gather (negative : Bool) {digits fraction : List Char}
    {whole number : Nat} (hWhole : gather 0 digits = (whole, []))
    (hNumber : gather whole fraction = (number, [])) (hPositive : 0 < fraction.length)
    (hPower : fraction.length ≤ greatestPower) :
    scaled? ⟨negative, digits, some fraction, none⟩ =
      (finite? (Double.ofRatio false number 1)).bind fun start =>
        (powerOfTen fraction.length).bind fun power =>
          (finite? (Double.div start power)).map fun value => { value with negative } := by
  have hExponent : ((([] : List Char).length : Int) -
      (fraction.length - ([] : List Char).length : Nat)) + 0 = -(fraction.length : Int) := by
    simp
  have hScale : ∀ start, scale start (-(fraction.length : Int)) =
      (powerOfTen fraction.length).bind fun power => finite? (Double.div start power) := by
    intro start
    rw [scale, Int.natAbs_neg, Int.natAbs_natCast, if_pos hPower]
    simp only [if_neg (show ¬0 ≤ -(fraction.length : Int) by omega)]
    rfl
  simp only [scaled?, Option.getD_some, Option.getD_none, hWhole, hNumber, hExponent, hScale,
    if_pos (show ((0 : Int).natAbs : Int) < exponentLimit by decide)]
  simp only [Option.bind_eq_bind, Option.bind_assoc, Option.map_eq_bind]
  rfl

/-- The reader of literals takes the text of the double for the same double. -/
def FiniteDouble.ReadsBack (value : FiniteDouble) : Prop :=
  Json.Number.ofLiteral? (Json.floatLayout.writeFinite value) = some (.float value)

namespace Scalar

inductive Kind where
  | long
  | double
  | boolean
  | text
  deriving DecidableEq

def kind : Scalar → Kind
  | .long _ => .long
  | .double _ => .double
  | .boolean _ => .boolean
  | .text _ => .text

def isFinite : Scalar → Bool
  | .double value => value.isFinite
  | _ => true

/-! ### Trying the types in order -/

def asLong? : Json → Option Scalar
  | .atom (.number (.integer value)) => long? value
  | _ => none

def asDouble? : Json → Option Scalar
  | .atom (.number (.integer value)) => some (.double (.ofInt value))
  | .atom (.number (.float value)) => some (.double (.finite value))
  | _ => none

def asBoolean? : Json → Option Scalar
  | .atom (.boolean value) => some (.boolean value)
  | _ => none

def asText? : Json → Option Scalar
  | .atom (.text value) => some (.text value)
  | _ => none

/-- The scalar of the first type that a value fits. -/
def firstFit? (value : Json) : Option Scalar :=
  (asLong? value).or ((asDouble? value).or ((asBoolean? value).or (asText? value)))

/-- The type that fits first is that of the scalar of an atom. -/
theorem firstFit?_eq (value : Json) : firstFit? value = value.atom?.map ofAtom := by
  cases value with
  | atom value =>
      cases value with
      | boolean value => rfl
      | text value => rfl
      | number value =>
          cases value with
          | float value => rfl
          | integer value =>
              simp only [firstFit?, asLong?, asDouble?, Json.atom?, ofAtom, Option.map_some]
              cases long? value <;> rfl
  | null => rfl
  | array items => rfl
  | object members => rfl

/-! ### Scalars -/

/-- What reading makes of a scalar that was written. -/
def reread? (scalar : Scalar) : Option Scalar :=
  (scalar.toJson.reread?.bind Json.atom?).map ofAtom

/-- A scalar has no parts as a JSON value. -/
theorem isLeaf_toJson (scalar : Scalar) : scalar.toJson.IsLeaf := by
  cases scalar with
  | long value => exact .atom _
  | boolean value => exact .atom _
  | text value => exact .atom _
  | double value =>
      cases value with
      | finite value => exact .atom _
      | nan => exact .null
      | infinite negative => exact .null

/-- An integer is read as it was written. -/
theorem reread?_long (value : Int64) : reread? (.long value) = some (.long value) := by
  have hRange : InLongRange value.toInt := ⟨value.minValue_le_toInt, value.toInt_le⟩
  have hLiteral :=
    Json.Number.ofLiteral?_writeInt hRange.1 (Int.lt_of_le_of_lt hRange.2 (by decide))
  have hAtom : ofAtom (.number (.integer value.toInt)) = .long value := by
    rw [ofAtom, long?, if_pos hRange, Option.getD_some, Int64.ofInt_toInt]
  rw [reread?, toJson, Json.reread?, Json.Atom.reread?, Json.Number.write, hLiteral]
  exact congrArg some hAtom

/-- A finite double is read as what its text is scaled to. -/
theorem reread?_finite (value : FiniteDouble) :
    reread? (.double (.finite value)) =
      (Json.scaled? (Json.floatLayout.finiteParts value).numeral).map
        fun read => .double (.finite read) := by
  rw [reread?, toJson, Json.reread?, Json.Atom.reread?, Json.Number.write,
    Json.Number.ofLiteral?_writeFinite]
  cases Json.scaled? (Json.floatLayout.finiteParts value).numeral <;> rfl

/-- A finite double is read as it was written if its text is scaled back to it. -/
theorem reread?_of_readsBack {value : FiniteDouble} (h : value.ReadsBack) :
    reread? (.double (.finite value)) = some (.double (.finite value)) := by
  rw [reread?, toJson, Json.reread?, Json.Atom.reread?, Json.Number.write, h]
  rfl

/-- A double that is not finite is written as null, and null is not read. -/
theorem reread?_of_not_finite {scalar : Scalar} (h : scalar.isFinite = false) :
    scalar.reread? = none := by
  cases scalar with
  | double value =>
      cases value with
      | finite value => cases h
      | nan => rfl
      | infinite negative => rfl
  | long value => cases h
  | boolean value => cases h
  | text value => cases h

/-- A scalar that comes back has the type that it had. -/
theorem kind_of_reread? {scalar back : Scalar} (h : scalar.reread? = some back) :
    back.kind = scalar.kind := by
  cases scalar with
  | long value =>
      rw [reread?_long] at h
      cases h
      rfl
  | boolean value =>
      cases h
      rfl
  | text value =>
      cases h
      rfl
  | double value =>
      cases value with
      | finite value =>
          rw [reread?_finite] at h
          obtain ⟨read, -, rfl⟩ := Option.map_eq_some_iff.mp h
          rfl
      | nan => cases h
      | infinite negative => cases h

/-- A finite scalar comes back as it was, if its digits do. -/
theorem reread?_eq_self {scalar : Scalar} (hFinite : scalar.isFinite = true)
    (hRead : ∀ value, scalar = .double (.finite value) → value.ReadsBack) :
    scalar.reread? = some scalar := by
  cases scalar with
  | long value => exact reread?_long value
  | boolean value => rfl
  | text value => rfl
  | double value =>
      cases value with
      | finite value => exact reread?_of_readsBack (hRead value rfl)
      | nan => cases hFinite
      | infinite negative => cases hFinite

/-- Writing a list of scalars and reading it back goes scalar by scalar. -/
theorem reread_all (scalars : List Scalar) :
    (((scalars.map toJson).mapM Json.reread?).bind fun items =>
      (items.mapM Json.atom?).map (List.map ofAtom)) = scalars.mapM reread? := by
  induction scalars with
  | nil => rfl
  | cons first rest ih =>
      rw [List.map_cons, List.mapM_cons, List.mapM_cons, ← ih, reread?]
      cases first.toJson.reread? with
      | none => rfl
      | some item =>
          cases (rest.map toJson).mapM Json.reread? with
          | none => cases hAtom : item.atom? <;> simp [hAtom]
          | some items =>
              cases hAtom : item.atom? with
              | none => simp [hAtom]
              | some atom => cases hAtoms : items.mapM Json.atom? <;> simp [hAtom, hAtoms]

/-- What can be read back is finite. -/
theorem isFinite_of_reread? {scalar back : Scalar} (h : scalar.reread? = some back) :
    scalar.isFinite = true := by
  cases hFinite : scalar.isFinite with
  | true => rfl
  | false =>
      rw [reread?_of_not_finite hFinite] at h
      cases h

end Scalar

namespace Property

def IsFinite (property : Property) : Prop :=
  ∀ scalar ∈ property.toList, scalar.isFinite = true

instance (property : Property) : Decidable property.IsFinite :=
  List.decidableBAll (fun scalar : Scalar => scalar.isFinite = true) property.toList

def reread? (property : Property) : Option Property :=
  (Json.ofString? property.toJson.text).bind ofJson?

def asOne? (value : Json) : Option Property :=
  (Scalar.firstFit? value).map .one

def asMany? : Json → Option Property
  | .array items => (items.mapM Scalar.firstFit?).map .many
  | _ => none

/-- The value of the first form that fits. -/
def firstFit? (value : Json) : Option Property :=
  (asOne? value).or (asMany? value)

/-- The values of a list are read one by one. -/
theorem mapM_firstFit? (items : List Json) :
    items.mapM Scalar.firstFit? = (items.mapM Json.atom?).map (List.map Scalar.ofAtom) := by
  induction items with
  | nil => rfl
  | cons item items ih =>
      rw [List.mapM_cons, List.mapM_cons, ih, Scalar.firstFit?_eq]
      cases item.atom? with
      | none => rfl
      | some atom => cases items.mapM Json.atom? <;> rfl

/-- Reading takes the first form and the first type that fit. -/
theorem ofJson?_eq_firstFit? (value : Json) : ofJson? value = firstFit? value := by
  rw [firstFit?, asOne?, Scalar.firstFit?_eq]
  cases value with
  | null => rfl
  | atom value => rfl
  | object members => rfl
  | array items =>
      rw [asMany?, mapM_firstFit?, ofJson?]
      cases items.mapM Json.atom? <;> rfl

/-- One value is read as one value. -/
theorem reread?_one (scalar : Scalar) : reread? (.one scalar) = scalar.reread?.map .one := by
  rw [reread?, Json.ofString?, Json.text, String.toList_ofList, toJson,
    Json.ofText?_write_leaf scalar.isLeaf_toJson, Scalar.reread?]
  rcases scalar.isLeaf_toJson with hNull | ⟨atom, hAtom⟩
  · rw [hNull]
    rfl
  · rw [hAtom, Json.reread?]
    cases atom.reread? <;> rfl

/-- A list of values is read as a list, value by value. -/
theorem reread?_many (scalars : List Scalar) :
    reread? (.many scalars) = (scalars.mapM Scalar.reread?).map .many := by
  have hLeaves : ∀ item ∈ scalars.map Scalar.toJson, item.IsLeaf := by
    intro item hItem
    obtain ⟨scalar, -, rfl⟩ := List.mem_map.mp hItem
    exact scalar.isLeaf_toJson
  rw [reread?, Json.ofString?, Json.text, String.toList_ofList, toJson,
    Json.ofText?_write_array hLeaves, ← Scalar.reread_all]
  cases (scalars.map Scalar.toJson).mapM Json.reread? with
  | none => rfl
  | some items =>
      simp only [Option.map_some, Option.bind_some, ofJson?, Option.map_map]
      rfl

/-- A value is read as it was written if its doubles are finite and read back. -/
theorem reread?_eq_self {property : Property} (hFinite : property.IsFinite)
    (hRead : ∀ value, Scalar.double (.finite value) ∈ property.toList → value.ReadsBack) :
    property.reread? = some property := by
  have hScalar : ∀ scalar ∈ property.toList, scalar.reread? = some scalar := by
    intro scalar hMem
    apply Scalar.reread?_eq_self (hFinite scalar hMem)
    rintro value rfl
    exact hRead value hMem
  cases property with
  | one scalar => rw [reread?_one, hScalar scalar List.mem_cons_self, Option.map_some]
  | many scalars =>
      have hScalars : scalars.mapM Scalar.reread? = some scalars :=
        mapM_eq_some_iff.mpr (List.forall₂_same.mpr hScalar)
      rw [reread?_many, hScalars, Option.map_some]

/-- What comes back has the form that was written, and the types scalar by scalar. -/
theorem kinds_of_reread? {property back : Property} (h : property.reread? = some back) :
    back.map Scalar.kind = property.map Scalar.kind := by
  cases property with
  | one scalar =>
      rw [reread?_one] at h
      obtain ⟨read, hRead, rfl⟩ := Option.map_eq_some_iff.mp h
      exact congrArg OneOrMany.one (Scalar.kind_of_reread? hRead)
  | many scalars =>
      rw [reread?_many] at h
      obtain ⟨read, hRead, rfl⟩ := Option.map_eq_some_iff.mp h
      have hKinds : List.Forall₂ (· = ·) (scalars.map Scalar.kind) (read.map Scalar.kind) := by
        rw [List.forall₂_map_left_iff, List.forall₂_map_right_iff]
        exact (mapM_eq_some_iff.mp hRead).imp fun _ _ h => (Scalar.kind_of_reread? h).symm
      rw [List.forall₂_eq_eq_eq] at hKinds
      exact congrArg OneOrMany.many hKinds.symm

/-- What comes back has no double that is not finite. -/
theorem isFinite_of_reread? {property back : Property} (h : property.reread? = some back) :
    property.IsFinite := by
  cases property with
  | one scalar =>
      rw [reread?_one] at h
      obtain ⟨read, hRead, rfl⟩ := Option.map_eq_some_iff.mp h
      exact List.forall_mem_singleton.mpr (Scalar.isFinite_of_reread? hRead)
  | many scalars =>
      rw [reread?_many] at h
      obtain ⟨read, hRead, rfl⟩ := Option.map_eq_some_iff.mp h
      have hFinite := (mapM_eq_some_iff.mp hRead).imp fun _ _ h =>
        And.intro (Scalar.isFinite_of_reread? h) h
      exact ((List.forall₂_and_left ..).mp hFinite).1

end Property

/-- A value comes back from its JSON text with every type it had, and as the same value if its
doubles are finite and their digits read back. The reader goes by the first form that fits. -/
theorem property_survives_json (property : Property) :
    (∀ json, Property.ofJson? json = Property.firstFit? json) ∧
      (∀ back, property.reread? = some back →
        back.map Scalar.kind = property.map Scalar.kind) ∧
      (property.IsFinite →
        (∀ value, Scalar.double (.finite value) ∈ property.toList → value.ReadsBack) →
        property.reread? = some property) :=
  ⟨Property.ofJson?_eq_firstFit?, fun _ => Property.kinds_of_reread?, Property.reread?_eq_self⟩

def Double.three : FiniteDouble :=
  ⟨false, 3 * Double.stepsInOne, by decide +kernel, by decide +kernel⟩

theorem readsBack_three : Double.three.ReadsBack := by
  have hNumeral : (Json.floatLayout.finiteParts Double.three).numeral =
      ⟨false, ['3'], some ['0'], none⟩ := by
    decide +kernel
  rw [FiniteDouble.ReadsBack, Json.Number.ofLiteral?_writeFinite, hNumeral,
    Json.scaled?_of_gather false (show Json.gather 0 ['3'] = (3, []) from rfl)
      (show Json.gather 3 ['0'] = (30, []) from rfl) (by decide) (by decide)]
  decide +kernel

/-- Both zeros read back. -/
theorem readsBack_zero (negative : Bool) : (Double.zero negative).ReadsBack := by
  have hNumeral : (Json.floatLayout.finiteParts (Double.zero negative)).numeral =
      ⟨negative, ['0'], some ['0'], none⟩ := by
    cases negative <;> decide +kernel
  rw [FiniteDouble.ReadsBack, Json.Number.ofLiteral?_writeFinite, hNumeral,
    Json.scaled?_of_gather negative (show Json.gather 0 ['0'] = (0, []) from rfl)
      (show Json.gather 0 ['0'] = (0, []) from rfl) (by decide) (by decide)]
  cases negative <;> decide +kernel

/-- Whole doubles, an integer and strings that look like other values. -/
theorem property_survives_json_sample :
    let property : Property := .many [.double (.finite Double.three),
      .double (.finite (Double.zero true)), .long 3, .text "3", .text "true", .text "[1.5]",
      .boolean true]
    property.reread? = some property := by
  refine (property_survives_json _).2.2 (by decide) ?_
  intro value hMem
  simp only [OneOrMany.toList, List.mem_cons, List.not_mem_nil, Scalar.double.injEq,
    Double.finite.injEq, reduceCtorEq, or_false] at hMem
  rcases hMem with rfl | rfl
  · exact readsBack_three
  · exact readsBack_zero true

end PinnedTree
