import PinnedTree.Json.Reader
import PinnedTree.Proofs.Json.Tokens

/-! Compact JSON text is read back, value by value. What is written of an atom is cut off as one
lexeme and read as the same atom, but for numbers, which are as the reader of literals has them; and
an array of atoms is read item by item to its bracket. -/
namespace PinnedTree.Json

open Text Lexeme

/-! ### Lexemes -/

/-- What is cut off is the next token, unless a control character stands inside of a string. -/
theorem lexeme?_of_ofText {c : Char} {tail : List Char} {lexeme : Lexeme}
    (hBlank : isBlank c = false) (h : Lexeme.ofText c tail = .ok lexeme)
    (hPlain : lexeme.kind = .string → ∀ c ∈ lexeme.spelling, 0x20 ≤ c.toNat) :
    lexeme? (c :: tail) = some lexeme := by
  have hControl : ¬(lexeme.kind = .string ∧
      (lexeme.spelling.any fun c => decide (c.toNat < 0x20)) = true) := by
    rintro ⟨hKind, hAny⟩
    obtain ⟨c, hMem, hLow⟩ := List.any_eq_true.mp hAny
    exact absurd (of_decide_eq_true hLow) (Nat.not_lt.mpr (hPlain hKind c hMem))
  rw [lexeme?, List.dropWhile_cons, hBlank]
  simp only [Bool.false_eq_true, if_false, h, if_neg hControl]

theorem lexeme?_mark {c : Char} {kind : TokenKind} (hMark : TokenKind.ofMark? c = some kind)
    (hBlank : isBlank c = false) (hKind : kind ≠ .string) (rest : List Char) :
    lexeme? (c :: rest) = some ⟨kind, [c], [c], rest⟩ := by
  have hLexeme : Lexeme.ofText c rest = .ok ⟨kind, [c], [c], rest⟩ := by
    rw [Lexeme.ofText, hMark]
  exact lexeme?_of_ofText hBlank hLexeme fun hString => absurd hString hKind

def BeginsWord (c : Char) : Prop :=
  TokenKind.ofMark? c = none ∧ isBlank c = false ∧ c ≠ '"' ∧ c.isDigit = false ∧ c ≠ '-'

instance (c : Char) : Decidable (BeginsWord c) :=
  inferInstanceAs (Decidable (_ ∧ _))

/-- The reader takes a word up to its end. -/
theorem lexeme?_word {c : Char} {tail rest : List Char} (hFirst : BeginsWord c)
    (hWord : (c :: tail).all isWordCharacter = true) (hRest : Separated rest)
    (hKind : TokenKind.ofWord (c :: tail) ≠ .string) :
    lexeme? (c :: tail ++ rest) =
      some ⟨TokenKind.ofWord (c :: tail), c :: tail, c :: tail, rest⟩ := by
  obtain ⟨hMark, hBlank, hQuote, hDigit, hMinus⟩ := hFirst
  have hLexeme := Lexeme.ofText_word hMark hQuote hDigit hMinus hWord hRest.stopsAt_word
  exact lexeme?_of_ofText hBlank hLexeme fun hString => absurd hString hKind

theorem digitChar_not_control : ∀ digit < 16, 0x20 ≤ (Nat.digitChar digit).toNat := by
  decide

/-- No control character is written inside of a string. -/
theorem escape_not_control (c : Char) :
    (escape c).all (fun written => decide (0x20 ≤ written.toNat)) = true := by
  rw [escape]
  repeat' split
  · rename_i hSpecial
    rcases hSpecial with rfl | rfl <;> decide
  · rename_i hPlain
    simpa using hPlain
  iterate 5 decide
  · rename_i hControl _ _ _ _ _
    have hLow : c.toNat < 32 := Nat.lt_of_not_le hControl
    have hFirst := digitChar_not_control (c.toNat / 16) (by omega)
    have hSecond := digitChar_not_control (c.toNat % 16) (by omega)
    simp only [codeUnitEscape, List.all_cons, hFirst, hSecond, decide_true]
    decide

theorem not_control_of_mem_escape {c written : Char} (h : written ∈ escape c) :
    0x20 ≤ written.toNat :=
  of_decide_eq_true (List.all_eq_true.mp (escape_not_control c) written h)

/-- A string is written without control characters. -/
theorem not_control_of_mem_writeString {text : String} {written : Char}
    (h : written ∈ writeString text) : 0x20 ≤ written.toNat := by
  rw [writeString, List.cons_append, List.mem_cons, List.mem_append, List.mem_flatMap,
    List.mem_singleton] at h
  rcases h with rfl | ⟨c, -, hEscape⟩ | rfl
  · decide
  · exact not_control_of_mem_escape hEscape
  · decide

theorem lexeme?_spell {parts : NumberParts} (hParts : parts.WellSpelled) {rest : List Char}
    (hRest : Separated rest) :
    lexeme? (parts.spell ++ rest) = some ⟨.number, parts.spell, parts.spell, rest⟩ := by
  obtain ⟨c, tail, hSpell, hBlank, -⟩ := NumberParts.startsNumber_spell hParts
  have hLexeme := Lexeme.ofText_number hParts hSpell hRest.stopsAt_number
  have hKind : TokenKind.number ≠ .string := by decide
  rw [hSpell] at hLexeme ⊢
  exact lexeme?_of_ofText hBlank hLexeme fun hString => absurd hString hKind

/-- A number is written as numbers are spelled. -/
theorem Number.exists_parts (value : Number) :
    ∃ parts : NumberParts, parts.WellSpelled ∧ value.write = parts.spell := by
  cases value with
  | integer value => exact ⟨_, integerParts_wellSpelled value, writeInt_eq_spell value⟩
  | float value =>
      exact ⟨_, DecimalLayout.wellSpelled_finiteParts floatLayout value,
        DecimalLayout.writeFinite_eq_spell floatLayout value⟩

/-- What is written of an atom is the next token. -/
theorem lexeme?_write (value : Atom) {rest : List Char} (hRest : Separated rest) :
    ∃ lexeme, lexeme? (value.write ++ rest) = some lexeme ∧ lexeme.kind = value.kind ∧
      String.ofList lexeme.text = value.tokenText ∧ lexeme.rest = rest := by
  cases value with
  | boolean value =>
      cases value with
      | true =>
          exact ⟨_, lexeme?_word (by decide) (by decide) hRest (by decide), rfl, rfl, rfl⟩
      | false =>
          exact ⟨_, lexeme?_word (by decide) (by decide) hRest (by decide), rfl, rfl, rfl⟩
  | number value =>
      obtain ⟨parts, hParts, hWrite⟩ := value.exists_parts
      refine ⟨_, (congrArg (fun text => lexeme? (text ++ rest)) hWrite).trans
        (lexeme?_spell hParts hRest), rfl, ?_, rfl⟩
      exact congrArg String.ofList hWrite.symm
  | text value =>
      have hText : writeString value ++ rest =
          '"' :: (value.toList.flatMap escape ++ '"' :: rest) := by
        simp [writeString]
      rw [Atom.write, hText]
      exact ⟨_, lexeme?_of_ofText rfl (Lexeme.ofText_string value rest)
        (fun _ _ => not_control_of_mem_writeString), rfl, String.ofList_toList, rfl⟩

/-! ### Values -/

/-- What reading makes of an atom that was written: only a number can come back changed. -/
def Atom.reread? : Atom → Option Atom
  | .number value => (Number.ofLiteral? value.write).map .number
  | value => some value

/-- What reading makes of a value without parts that was written. -/
def reread? : Json → Option Json
  | .null => some .null
  | .atom value => value.reread?.map .atom
  | _ => none

def IsLeaf (value : Json) : Prop :=
  value = .null ∨ ∃ atom, value = .atom atom

theorem IsLeaf.null : IsLeaf .null :=
  .inl rfl

theorem IsLeaf.atom (value : Atom) : IsLeaf (.atom value) :=
  .inr ⟨value, rfl⟩

theorem lexeme?_null {rest : List Char} (hRest : Separated rest) :
    lexeme? (write .null ++ rest) =
      some ⟨.null, ['n', 'u', 'l', 'l'], ['n', 'u', 'l', 'l'], rest⟩ := by
  rw [write]
  exact lexeme?_word (by decide) (by decide) hRest (by decide)

/-- What is written of a value without parts starts with neither a mark nor a blank. -/
theorem IsLeaf.exists_lexeme {value : Json} (h : value.IsLeaf) {rest : List Char}
    (hRest : Separated rest) :
    ∃ lexeme, lexeme? (value.write ++ rest) = some lexeme ∧ lexeme.kind.isAtom = true := by
  rcases h with rfl | ⟨atom, rfl⟩
  · exact ⟨_, lexeme?_null hRest, rfl⟩
  · obtain ⟨lexeme, hLexeme, hKind, -⟩ := lexeme?_write atom hRest
    exact ⟨lexeme, hLexeme, hKind ▸ atom.isAtom_kind⟩

/-- In front of a separator, null and the atoms are read as what reading makes of them. -/
theorem readValue?_write {value : Json} (h : value.IsLeaf) (fuel depth : Nat) {rest : List Char}
    (hRest : Separated rest) :
    readValue? (fuel + 1) depth (value.write ++ rest) =
      value.reread?.map fun value => (value, rest) := by
  rcases h with rfl | ⟨atom, rfl⟩
  · rw [readValue?, lexeme?_null hRest]
    rfl
  · obtain ⟨⟨kind, text, spelling, behind⟩, hLexeme, rfl, hText, rfl⟩ := lexeme?_write atom hRest
    rw [readValue?, write, hLexeme]
    cases atom with
    | boolean value => cases value <;> rfl
    | text value =>
        change some (Json.atom (.text (String.ofList text)), behind) = _
        rw [show String.ofList text = value from hText]
        rfl
    | number value =>
        obtain rfl : text = value.write := String.ofList_inj.mp hText
        simp only [Option.bind_eq_bind, Option.bind_some, reread?, Atom.reread?, Atom.kind,
          Option.map_eq_bind, Option.bind_assoc]
        rfl

/-! ### Arrays -/

theorem after?_mark {c : Char} {kind : TokenKind} (hMark : TokenKind.ofMark? c = some kind)
    (hBlank : isBlank c = false) (hKind : kind ≠ .string) (rest : List Char) :
    after? kind (c :: rest) = some rest := by
  rw [after?, lexeme?_mark hMark hBlank hKind]
  exact if_pos rfl

theorem after?_of_ne {text : List Char} {lexeme : Lexeme} (h : lexeme? text = some lexeme)
    {kind : TokenKind} (hKind : lexeme.kind ≠ kind) : after? kind text = none := by
  rw [after?, h]
  exact if_neg hKind

theorem writeItems_cons (item : Json) {items : List Json} (h : items ≠ []) :
    writeItems (item :: items) = item.write ++ ',' :: writeItems items := by
  obtain ⟨next, rest, rfl⟩ := List.exists_cons_of_ne_nil h
  rfl

/-- Behind the first item there is a comma or the bracket. -/
theorem exists_writeItems (item : Json) (items : List Json) (rest : List Char) :
    ∃ behind, writeItems (item :: items) ++ ']' :: rest = item.write ++ behind ∧
      Separated behind := by
  by_cases hLast : items = []
  · subst hLast
    exact ⟨_, rfl, separated_mark rfl rest⟩
  · rw [writeItems_cons item hLast, List.append_assoc]
    exact ⟨_, rfl, separated_mark rfl _⟩

/-- What is written of items is not the bracket. -/
theorem after?_writeItems {items : List Json} (hSome : items ≠ [])
    (hLeaves : ∀ item ∈ items, item.IsLeaf) (rest : List Char) :
    after? .rightBracket (writeItems items ++ ']' :: rest) = none := by
  obtain ⟨item, others, rfl⟩ := List.exists_cons_of_ne_nil hSome
  obtain ⟨behind, hText, hBehind⟩ := exists_writeItems item others rest
  obtain ⟨lexeme, hLexeme, hAtom⟩ := (hLeaves item List.mem_cons_self).exists_lexeme hBehind
  rw [hText]
  apply after?_of_ne hLexeme
  rintro hKind
  rw [hKind] at hAtom
  cases hAtom

/-- An item in front of the closing bracket is read as the last one. -/
theorem readItems?_last {item : Json} (h : item.IsLeaf) (fuel depth : Nat) (rest : List Char) :
    readItems? (fuel + 2) depth (item.write ++ ']' :: rest) =
      item.reread?.map fun item => ([item], rest) := by
  have hBracket := lexeme?_mark (c := ']') rfl rfl (by decide) rest
  have hOther : TokenKind.rightBracket ≠ .comma := by decide
  have hComma : after? .comma (']' :: rest) = none := after?_of_ne hBracket hOther
  have hEnd := after?_mark (c := ']') rfl rfl (by decide) rest
  rw [readItems?, readValue?_write h _ _ (separated_mark rfl rest)]
  cases item.reread? with
  | none => rfl
  | some item => simp only [Option.map_some, Option.bind_eq_bind, Option.bind_some, hComma, hEnd]

/-- An item in front of a comma is read before the others. -/
theorem readItems?_next {item : Json} (h : item.IsLeaf) (fuel depth : Nat) (text : List Char) :
    readItems? (fuel + 2) depth (item.write ++ ',' :: text) =
      item.reread?.bind fun item =>
        (readItems? (fuel + 1) depth text).map fun read => (item :: read.1, read.2) := by
  have hComma := after?_mark (c := ',') rfl rfl (by decide) text
  rw [readItems?, readValue?_write h _ _ (separated_mark rfl text)]
  cases item.reread? with
  | none => rfl
  | some item =>
      simp only [Option.map_some, Option.bind_eq_bind, Option.bind_some, hComma]
      cases readItems? (fuel + 1) depth text <;> rfl

/-- Items are read up to the bracket. The induction is on the items: behind each but the last there
is a comma. -/
theorem readItems?_write {items : List Json} (hSome : items ≠ [])
    (hLeaves : ∀ item ∈ items, item.IsLeaf) {fuel : Nat} (hFuel : items.length < fuel)
    (depth : Nat) (rest : List Char) :
    readItems? fuel depth (writeItems items ++ ']' :: rest) =
      (items.mapM reread?).map fun items => (items, rest) := by
  induction items generalizing fuel with
  | nil => exact absurd rfl hSome
  | cons item items ih =>
      obtain ⟨hItem, hItems⟩ := List.forall_mem_cons.mp hLeaves
      rw [List.length_cons] at hFuel
      obtain ⟨less, rfl⟩ : ∃ less, fuel = less + 2 := ⟨fuel - 2, by omega⟩
      rw [List.mapM_cons]
      by_cases hLast : items = []
      · subst hLast
        rw [writeItems, readItems?_last hItem]
        cases item.reread? <;> rfl
      · rw [writeItems_cons item hLast, List.append_assoc, List.cons_append,
          readItems?_next hItem, ih hLast hItems (by omega)]
        cases item.reread? with
        | none => rfl
        | some item => cases items.mapM reread? <;> rfl

/-! ### Whole texts -/

theorem ofText?_of_valueAt? {text : List Char} {value : Option Json}
    (h : valueAt? text = value.map fun value => (value, [])) : ofText? text = value := by
  rw [ofText?, h]
  cases value <;> rfl

/-- A value without parts fills its text. -/
theorem ofText?_write_leaf {value : Json} (h : value.IsLeaf) :
    ofText? value.write = value.reread? := by
  have hRead := readValue?_write h (2 * value.write.length + 1) greatestDepth separated_nil
  rw [List.append_nil] at hRead
  exact ofText?_of_valueAt? hRead

theorem length_le_writeItems (items : List Json) :
    items.length ≤ (writeItems items).length + 1 := by
  induction items with
  | nil => exact Nat.zero_le _
  | cons item items ih =>
      by_cases hLast : items = []
      · subst hLast
        exact Nat.succ_le_succ (Nat.zero_le _)
      · rw [writeItems_cons item hLast, List.length_cons, List.length_append, List.length_cons]
        omega

/-- An array fills its text, and is read item by item. -/
theorem ofText?_write_array {items : List Json} (hLeaves : ∀ item ∈ items, item.IsLeaf) :
    ofText? (write (.array items)) = (items.mapM reread?).map .array := by
  have hText : write (.array items) = '[' :: (writeItems items ++ [']']) := rfl
  have hBracket := lexeme?_mark (c := '[') rfl rfl (by decide) (writeItems items ++ [']'])
  apply ofText?_of_valueAt?
  rw [valueAt?, hText, readValue?, hBracket]
  by_cases hNone : items = []
  · subst hNone
    have hEnd : after? .rightBracket (writeItems [] ++ [']']) = some [] :=
      after?_mark (c := ']') rfl rfl (by decide) []
    simp only [Option.bind_eq_bind, Option.bind_some, hEnd]
    rfl
  · have hFirst := after?_writeItems hNone hLeaves []
    have hFuel : items.length < 2 * ('[' :: (writeItems items ++ [']'])).length + 1 := by
      have := length_le_writeItems items
      simp only [List.length_cons, List.length_append]
      omega
    simp only [Option.bind_eq_bind, Option.bind_some, hFirst,
      readItems?_write hNone hLeaves hFuel]
    cases items.mapM reread? <;> rfl

end PinnedTree.Json
