import PinnedTree.Listing
import PinnedTree.Proofs.Except
import PinnedTree.Proofs.Number.Spelling

/-! The grammar of listings over tokens, said without the places that the reading goes through. The
reading follows it: it gets to the end of a listing on exactly the tokens of one, and has then taken
its members in their order. -/
namespace PinnedTree.Listing

open Text

/-! ### The grammar -/

/-- A number with a point or an exponent. -/
def IsFractional (text : String) : Prop :=
  ∃ c ∈ text.toList, c = '.' ∨ c = 'e' ∨ c = 'E'

instance (text : String) : Decidable (IsFractional text) :=
  inferInstanceAs (Decidable (∃ c ∈ text.toList, c = '.' ∨ c = 'e' ∨ c = 'E'))

/-- The tokens of a scalar. -/
inductive Stands (token : Token) : Scalar → Prop where
  | text (hKind : token.kind = .string) : Stands token (.text token.text)
  | true (hKind : token.kind = .true) : Stands token (.boolean Bool.true)
  | false (hKind : token.kind = .false) : Stands token (.boolean Bool.false)
  | double {value : Double} (hKind : token.kind = .number) (hFractional : IsFractional token.text)
      (hRead : Double.read? token.text.toList = some value) : Stands token (.double value)
  | long {value : Int} (hKind : token.kind = .number) (hWhole : ¬ IsFractional token.text)
      (hRead : integer? token.text.toList = some value) (hRange : Scalar.InLongRange value) :
      Stands token (.long (Int64.ofInt value))

/-- An opening bracket, and one or more scalars with commas between them. -/
inductive Items : List Token → List Scalar → Prop where
  | first {bracket token : Token} {value : Scalar} (hBracket : bracket.kind = .leftBracket)
      (hValue : Stands token value) : Items [bracket, token] [value]
  | next {front : List Token} {values : List Scalar} {comma token : Token} {value : Scalar}
      (hFront : Items front values) (hComma : comma.kind = .comma) (hValue : Stands token value) :
      Items (front ++ [comma, token]) (values ++ [value])

/-- What a member of a listing says. -/
inductive Entry where
  | total (count : Nat)
  | child (name : String)
  | property (name : String) (value : Property)

/-- The tokens of a value, and what it says when it is the value of `name`. -/
inductive Says (name : String) : List Token → Entry → Prop where
  | total {token : Token} (hName : name = childNodeCount) (hKind : token.kind = .number)
      (hDigits : IsDigits token.text.toList)
      (hCount : digitsValue token.text.toList < UInt64.size) :
      Says name [token] (.total (digitsValue token.text.toList))
  | child {left right : Token} (hName : name ≠ childNodeCount) (hLeft : left.kind = .leftBrace)
      (hRight : right.kind = .rightBrace) : Says name [left, right] (.child name)
  | one {token : Token} {value : Scalar} (hName : name ≠ childNodeCount)
      (hValue : Stands token value) : Says name [token] (.property name (.one value))
  | none {left right : Token} (hName : name ≠ childNodeCount) (hLeft : left.kind = .leftBracket)
      (hRight : right.kind = .rightBracket) : Says name [left, right] (.property name (.many []))
  | many {tokens : List Token} {values : List Scalar} {right : Token}
      (hName : name ≠ childNodeCount) (hItems : Items tokens values)
      (hRight : right.kind = .rightBracket) :
      Says name (tokens ++ [right]) (.property name (.many values))

/-- A name, a colon and a value. -/
inductive Member : List Token → Entry → Prop where
  | mk {name colon : Token} {tokens : List Token} {entry : Entry} (hName : name.kind = .string)
      (hColon : colon.kind = .colon) (hValue : Says name.text tokens entry) :
      Member (name :: colon :: tokens) entry

/-- An opening brace, and one or more members with commas between them. -/
inductive Opened : List Token → List Entry → Prop where
  | first {brace : Token} {tokens : List Token} {entry : Entry} (hBrace : brace.kind = .leftBrace)
      (hMember : Member tokens entry) : Opened (brace :: tokens) [entry]
  | next {front tokens : List Token} {entries : List Entry} {comma : Token} {entry : Entry}
      (hFront : Opened front entries) (hComma : comma.kind = .comma)
      (hMember : Member tokens entry) :
      Opened (front ++ comma :: tokens) (entries ++ [entry])

/-- The tokens of a listing, and what its members say. -/
inductive Wire : List Token → List Entry → Prop where
  | empty {left right : Token} (hLeft : left.kind = .leftBrace)
      (hRight : right.kind = .rightBrace) : Wire [left, right] []
  | members {front : List Token} {entries : List Entry} {right : Token}
      (hFront : Opened front entries) (hRight : right.kind = .rightBrace) :
      Wire (front ++ [right]) entries

/-! ### Scalars and counts -/

theorem any_fractional_iff {text : String} :
    (text.toList.any fun c => c = '.' || c = 'e' || c = 'E') = true ↔ IsFractional text := by
  simp [IsFractional, or_assoc]

/-- A number with a point or an exponent is read as a double. -/
theorem number?_of_fractional {text : String} (h : IsFractional text) :
    number? text = (Double.read? text.toList).map .double :=
  if_pos (any_fractional_iff.mpr h)

/-- A number without point and exponent is read as an integer, which has to be in range. -/
theorem number?_of_whole {text : String} (h : ¬ IsFractional text) :
    number? text = (integer? text.toList).bind Scalar.long? :=
  if_neg fun hAny => h (any_fractional_iff.mp hAny)

theorem long?_eq_some_iff {value : Int} {scalar : Scalar} :
    Scalar.long? value = some scalar ↔
      Scalar.InLongRange value ∧ scalar = .long (Int64.ofInt value) := by
  rw [Scalar.long?]
  split
  · rename_i hRange
    simp [hRange, eq_comm]
  · rename_i hRange
    simp [hRange]

/-- A number token is read as the grammar says. -/
theorem number?_eq_some_iff {token : Token} (hKind : token.kind = .number) {value : Scalar} :
    number? token.text = some value ↔ Stands token value := by
  by_cases hFractional : IsFractional token.text
  · rw [number?_of_fractional hFractional, Option.map_eq_some_iff]
    constructor
    · rintro ⟨double, hRead, rfl⟩
      exact .double hKind hFractional hRead
    · intro h
      cases h with
      | double _ _ hRead => exact ⟨_, hRead, rfl⟩
      | long _ hWhole => exact absurd hFractional hWhole
      | text hOther | true hOther | false hOther => cases hKind.symm.trans hOther
  · rw [number?_of_whole hFractional, Option.bind_eq_some_iff]
    constructor
    · rintro ⟨integer, hRead, hLong⟩
      obtain ⟨hRange, rfl⟩ := long?_eq_some_iff.mp hLong
      exact .long hKind hFractional hRead hRange
    · intro h
      cases h with
      | double _ hOther => exact absurd hOther hFractional
      | long _ _ hRead hRange => exact ⟨_, hRead, long?_eq_some_iff.mpr ⟨hRange, rfl⟩⟩
      | text hOther | true hOther | false hOther => cases hKind.symm.trans hOther

/-- The decoder takes a token for a scalar exactly when the token stands for it. -/
theorem scalar_eq_ok_iff {token : Token} {value : Scalar} :
    scalar token = .ok value ↔ Stands token value := by
  constructor
  · intro h
    simp only [scalar] at h
    split at h
    · rename_i hKind
      split at h
      · rename_i hNumber
        cases h
        exact (number?_eq_some_iff hKind).mp hNumber
      · cases h
    · rename_i hKind
      cases h
      exact .true hKind
    · rename_i hKind
      cases h
      exact .false hKind
    · rename_i hKind
      cases h
      exact .text hKind
    · cases h
    · cases h
  · intro h
    cases h with
    | text hKind | true hKind | false hKind => rw [scalar, hKind]
    | double hKind hFractional hRead =>
        have hNumber := (number?_eq_some_iff hKind).mpr (.double hKind hFractional hRead)
        simp only [scalar, hKind, hNumber]
    | long hKind hWhole hRead hRange =>
        have hNumber := (number?_eq_some_iff hKind).mpr (.long hKind hWhole hRead hRange)
        simp only [scalar, hKind, hNumber]

/-- No mark is a scalar. -/
theorem Stands.kind_ne_mark {token : Token} {value : Scalar} (h : Stands token value) :
    token.kind ≠ .leftBrace ∧ token.kind ≠ .leftBracket ∧ token.kind ≠ .rightBracket := by
  cases h with
  | text hKind | true hKind | false hKind | double hKind | long hKind =>
      rw [hKind]
      exact ⟨nofun, nofun, nofun⟩

/-- A count is plain digits and small enough for a word. -/
theorem count?_eq_some_iff {text : String} {count : Nat} :
    count? text = some count ↔
      IsDigits text.toList ∧ digitsValue text.toList < UInt64.size ∧
        digitsValue text.toList = count := by
  rw [count?, Option.filter_eq_some_iff]
  constructor
  · rintro ⟨hNatural, hCount⟩
    simp only [natural?] at hNatural
    split at hNatural
    · rename_i hDigits
      cases hNatural
      exact ⟨⟨hDigits.1, List.all_eq_true.mp hDigits.2⟩, of_decide_eq_true hCount, rfl⟩
    · cases hNatural
  · rintro ⟨hDigits, hCount, rfl⟩
    exact ⟨natural?_of_isDigits hDigits, decide_eq_true hCount⟩

/-! ### Listings are read -/

/-- What a member adds to what has been read. -/
def Draft.take (draft : Draft) : Entry → Draft
  | .total count => { draft with childCount := some count }
  | .child name => draft.addChild name
  | .property name value => draft.addProperty name value

/-- What has been read of a listing with these members. -/
def Draft.ofEntries (entries : List Entry) : Draft :=
  entries.foldl Draft.take {}

theorem Draft.ofEntries_concat (entries : List Entry) (entry : Entry) :
    ofEntries (entries ++ [entry]) = (ofEntries entries).take entry :=
  List.foldl_append

def valuePlace (name : String) : Place :=
  if name = childNodeCount then .total else .value name

variable {draft : Draft} {tokens : List Token}

theorem Stands.step_item {token : Token} {value : Scalar} (h : Stands token value) (name : String)
    (items : List Scalar) :
    step (.item name items, draft) token = .ok (.itemSeparator name (items ++ [value]), draft) := by
  rw [step, scalar_eq_ok_iff.mpr h]
  rfl

theorem Stands.step_firstItem {token : Token} {value : Scalar} (h : Stands token value)
    (name : String) :
    step (.firstItem name, draft) token = .ok (.itemSeparator name [value], draft) := by
  obtain ⟨-, -, hBracket⟩ := h.kind_ne_mark
  rw [step, if_neg hBracket, scalar_eq_ok_iff.mpr h]
  rfl

theorem Stands.step_value {token : Token} {value : Scalar} (h : Stands token value)
    (name : String) :
    step (.value name, draft) token = .ok (.separator, draft.addProperty name (.one value)) := by
  obtain ⟨hBrace, hBracket, -⟩ := h.kind_ne_mark
  rw [step, if_neg hBrace, if_neg hBracket, scalar_eq_ok_iff.mpr h]
  rfl

/-- The items of an array are read in order. -/
theorem Items.read {values : List Scalar} (h : Items tokens values) (name : String) :
    tokens.foldlM step (.value name, draft) = .ok (.itemSeparator name values, draft) := by
  induction h with
  | @first bracket token value hBracket hValue =>
      have hOpen : step (.value name, draft) bracket = .ok (.firstItem name, draft) := by
        simp [step, hBracket]
      rw [foldlM_cons_of_eq_ok hOpen, foldlM_cons_of_eq_ok (hValue.step_firstItem name)]
      rfl
  | @next front values comma token value _ hComma hValue ih =>
      have hNext : step (.itemSeparator name values, draft) comma =
          .ok (.item name values, draft) := by
        simp [step, hComma]
      rw [foldlM_append_of_eq_ok ih, foldlM_cons_of_eq_ok hNext,
        foldlM_cons_of_eq_ok (hValue.step_item name values)]
      rfl

/-- The value of a member is read to its end. -/
theorem Says.read {name : String} {entry : Entry} (h : Says name tokens entry) :
    tokens.foldlM step (valuePlace name, draft) = .ok (.separator, draft.take entry) := by
  cases h with
  | @total token hName hKind hDigits hCount =>
      have hTotal := count?_eq_some_iff.mpr ⟨hDigits, hCount, rfl⟩
      have hStep : step (.total, draft) token =
          .ok (.separator, draft.take (.total (digitsValue token.text.toList))) := by
        simp only [step, hKind, hTotal]
        rfl
      rw [valuePlace, if_pos hName, foldlM_cons_of_eq_ok hStep]
      rfl
  | @child left right hName hLeft hRight =>
      have hOpen : step (.value name, draft) left = .ok (.childEnd name, draft) := by
        simp [step, hLeft]
      have hClose : step (.childEnd name, draft) right = .ok (.separator, draft.addChild name) := by
        simp [step, hRight]
      rw [valuePlace, if_neg hName, foldlM_cons_of_eq_ok hOpen, foldlM_cons_of_eq_ok hClose]
      rfl
  | one hName hValue =>
      rw [valuePlace, if_neg hName, foldlM_cons_of_eq_ok (hValue.step_value name)]
      rfl
  | @none left right hName hLeft hRight =>
      have hOpen : step (.value name, draft) left = .ok (.firstItem name, draft) := by
        simp [step, hLeft]
      have hClose : step (.firstItem name, draft) right =
          .ok (.separator, draft.addProperty name (.many [])) := by
        simp [step, hRight]
      rw [valuePlace, if_neg hName, foldlM_cons_of_eq_ok hOpen, foldlM_cons_of_eq_ok hClose]
      rfl
  | @many tokens values right hName hItems hRight =>
      have hClose : step (.itemSeparator name values, draft) right =
          .ok (.separator, draft.addProperty name (.many values)) := by
        simp [step, hRight]
      rw [valuePlace, if_neg hName, foldlM_append_of_eq_ok (hItems.read name),
        foldlM_cons_of_eq_ok hClose]
      rfl

/-- A member is read where a name is due, be it the first one or not. -/
theorem Member.read {entry : Entry} (h : Member tokens entry) {place : Place}
    (hPlace : place = .firstMember ∨ place = .name) :
    tokens.foldlM step (place, draft) = .ok (.separator, draft.take entry) := by
  obtain ⟨hName, hColon, hValue⟩ := h
  rename_i name colon tokens
  have hFirst : step (place, draft) name = .ok (.colon name.text, draft) := by
    rcases hPlace with rfl | rfl <;> simp [step, hName]
  have hSecond : step (.colon name.text, draft) colon = .ok (valuePlace name.text, draft) := by
    simp [step, hColon, valuePlace]
  rw [foldlM_cons_of_eq_ok hFirst, foldlM_cons_of_eq_ok hSecond, hValue.read]

/-- The members that have been opened are read as what they say. -/
theorem Opened.read {entries : List Entry} (h : Opened tokens entries) :
    tokens.foldlM step (.opening, {}) = .ok (.separator, .ofEntries entries) := by
  induction h with
  | @first brace tokens entry hBrace hMember =>
      have hOpen : step (.opening, {}) brace = .ok (.firstMember, {}) := by simp [step, hBrace]
      rw [foldlM_cons_of_eq_ok hOpen, hMember.read (Or.inl rfl)]
      rfl
  | @next front tokens entries comma entry _ hComma hMember ih =>
      have hNext : step (.separator, .ofEntries entries) comma =
          .ok (.name, .ofEntries entries) := by
        simp [step, hComma]
      rw [foldlM_append_of_eq_ok ih, foldlM_cons_of_eq_ok hNext, hMember.read (Or.inr rfl),
        Draft.ofEntries_concat]

/-- The tokens of a listing are read to its end. -/
theorem Wire.read {entries : List Entry} (h : Wire tokens entries) :
    tokens.foldlM step (.opening, {}) = .ok (.ending, .ofEntries entries) := by
  cases h with
  | @empty left right hLeft hRight =>
      have hOpen : step (.opening, {}) left = .ok (.firstMember, {}) := by simp [step, hLeft]
      have hClose : step (.firstMember, {}) right = .ok (.ending, {}) := by simp [step, hRight]
      rw [foldlM_cons_of_eq_ok hOpen, foldlM_cons_of_eq_ok hClose]
      rfl
  | @members front entries right hFront hRight =>
      have hClose : step (.separator, .ofEntries entries) right =
          .ok (.ending, .ofEntries entries) := by
        simp [step, hRight]
      rw [foldlM_append_of_eq_ok hFront.read, foldlM_cons_of_eq_ok hClose]
      rfl

end PinnedTree.Listing
