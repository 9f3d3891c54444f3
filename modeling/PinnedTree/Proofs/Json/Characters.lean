import PinnedTree.Json.Writer
import PinnedTree.Token.Lexer

/-! The ways to spell a character inside a JSON string: as it is, by a short escape, by its code
unit, or by the pair of its code units. A string is read as the characters that it spells. -/
namespace PinnedTree

namespace Json

def IsHexDigit (value : Nat) (digit : Char) : Prop :=
  value < 16 ∧ (digit = Nat.digitChar value ∨ digit = (Nat.digitChar value).toUpper)

instance (value : Nat) (digit : Char) : Decidable (IsHexDigit value digit) :=
  inferInstanceAs (Decidable (_ ∧ _))

/-- Four hexadecimal digits for a code unit. -/
inductive SpellsUnit : Nat → List Char → Prop where
  | mk {a b c d : Nat} {first second third fourth : Char} (hFirst : IsHexDigit a first)
      (hSecond : IsHexDigit b second) (hThird : IsHexDigit c third)
      (hFourth : IsHexDigit d fourth) :
      SpellsUnit (((a * 16 + b) * 16 + c) * 16 + d) [first, second, third, fourth]

/-- The characters after a backslash that stand for one character, which is the second of the
two. -/
def shortEscapes : List (Char × Char) :=
  [('"', '"'), ('\\', '\\'), ('/', '/'), ('b', '\x08'), ('f', '\x0c'), ('n', '\n'), ('r', '\r'),
    ('t', '\t')]

/-- The spellings of a character. -/
inductive SpellsChar (c : Char) : List Char → Prop where
  | plain (hControl : 0x20 ≤ c.toNat) (hQuote : c ≠ '"') (hBackslash : c ≠ '\\') : SpellsChar c [c]
  | short {mark : Char} (hMark : (mark, c) ∈ shortEscapes) : SpellsChar c ['\\', mark]
  | unit {digits : List Char} (hUnit : SpellsUnit c.toNat digits) :
      SpellsChar c ('\\' :: 'u' :: digits)
  | pair {high low : List Char} (hWide : 0x10000 ≤ c.toNat)
      (hHigh : SpellsUnit (0xD800 + (c.toNat - 0x10000) / 0x400) high)
      (hLow : SpellsUnit (0xDC00 + (c.toNat - 0x10000) % 0x400) low) :
      SpellsChar c ('\\' :: 'u' :: (high ++ '\\' :: 'u' :: low))

inductive SpellsChars : List Char → List Char → Prop where
  | nil : SpellsChars [] []
  | cons {c : Char} {chars first rest : List Char} (hFirst : SpellsChar c first)
      (hRest : SpellsChars chars rest) : SpellsChars (c :: chars) (first ++ rest)

/-! ### What is written -/

/-- A control character is spelled by its escape. -/
theorem spells_codeUnitEscape {c : Char} (h : c.toNat < 0x20) :
    SpellsChar c (codeUnitEscape c) := by
  have hHigh : IsHexDigit (c.toNat / 16) (Nat.digitChar (c.toNat / 16)) := ⟨by omega, .inl rfl⟩
  have hLow : IsHexDigit (c.toNat % 16) (Nat.digitChar (c.toNat % 16)) := ⟨by omega, .inl rfl⟩
  have hZero : IsHexDigit 0 '0' := ⟨by decide, .inl rfl⟩
  have hUnit := SpellsUnit.mk hZero hZero hHigh hLow
  rw [show ((0 * 16 + 0) * 16 + c.toNat / 16) * 16 + c.toNat % 16 = c.toNat by omega] at hUnit
  exact .unit hUnit

/-- A character is written as one of its spellings. -/
theorem spells_escape (c : Char) : SpellsChar c (escape c) := by
  rw [escape]
  split
  · rename_i h
    rcases h with rfl | rfl <;> exact .short (by decide)
  · rename_i hSpecial
    split
    · rename_i hControl
      exact .plain hControl (fun h => hSpecial (.inl h)) (fun h => hSpecial (.inr h))
    · rename_i hControl
      repeat' split
      · subst_vars
        exact .short (by decide)
      · subst_vars
        exact .short (by decide)
      · subst_vars
        exact .short (by decide)
      · subst_vars
        exact .short (by decide)
      · subst_vars
        exact .short (by decide)
      · exact spells_codeUnitEscape (Nat.lt_of_not_le hControl)

/-- The characters of a string that is written are spelled by their escapes. -/
theorem spells_flatMap_escape (text : List Char) : SpellsChars text (text.flatMap escape) := by
  induction text with
  | nil => exact .nil
  | cons c text ih => exact .cons (spells_escape c) ih

end Json

namespace Lexeme

open Json

/-! ### What is read -/

theorem hexDigit?_digitChar : ∀ value < 16, hexDigit? (Nat.digitChar value) = some value ∧
    hexDigit? (Nat.digitChar value).toUpper = some value := by
  decide

/-- The lexer reads a hexadecimal digit as its value. -/
theorem hexDigit?_of_isHexDigit {value : Nat} {digit : Char} (h : IsHexDigit value digit) :
    hexDigit? digit = some value := by
  obtain ⟨hValue, rfl | rfl⟩ := h
  · exact (hexDigit?_digitChar value hValue).1
  · exact (hexDigit?_digitChar value hValue).2

/-- The lexer reads four hexadecimal digits as the code unit that they spell. -/
theorem codeUnit?_of_spellsUnit {unit : Nat} {digits : List Char} (h : SpellsUnit unit digits)
    (rest : List Char) : codeUnit? (digits ++ rest) = some unit := by
  obtain ⟨hFirst, hSecond, hThird, hFourth⟩ := h
  simp only [List.cons_append, List.nil_append, codeUnit?, hexDigit?_of_isHexDigit hFirst,
    hexDigit?_of_isHexDigit hSecond, hexDigit?_of_isHexDigit hThird,
    hexDigit?_of_isHexDigit hFourth, Option.bind_eq_bind, Option.bind_some]

theorem length_of_spellsUnit {unit : Nat} {digits : List Char} (h : SpellsUnit unit digits) :
    digits.length = 4 := by
  cases h
  rfl

/-- No character is a surrogate. -/
theorem surrogate_toNat (c : Char) :
    isHighSurrogate c.toNat = false ∧ isLowSurrogate c.toNat = false := by
  have hValid : c.toNat < 0xD800 ∨ 0xDFFF < c.toNat ∧ c.toNat < 0x110000 := c.valid
  constructor
  · simp only [isHighSurrogate, Bool.and_eq_false_iff, decide_eq_false_iff_not]
    omega
  · simp only [isLowSurrogate, Bool.and_eq_false_iff, decide_eq_false_iff_not]
    omega

theorem toNat_lt (c : Char) : c.toNat < 0x110000 := by
  have hValid : c.toNat < 0xD800 ∨ 0xDFFF < c.toNat ∧ c.toNat < 0x110000 := c.valid
  omega

/-- The two code units of a character beyond U+FFFF make up that character. -/
theorem pairedCharacter_eq {c : Char} (h : 0x10000 ≤ c.toNat) :
    pairedCharacter (0xD800 + (c.toNat - 0x10000) / 0x400) (0xDC00 + (c.toNat - 0x10000) % 0x400) =
      c := by
  have hCode : 0x10000 + (0xD800 + (c.toNat - 0x10000) / 0x400 - 0xD800) * 0x400 +
      (0xDC00 + (c.toNat - 0x10000) % 0x400 - 0xDC00) = c.toNat := by omega
  rw [pairedCharacter, hCode, Char.ofNat_toNat]

theorem shortEscape?_of_mem : ∀ pair ∈ shortEscapes, shortEscape? pair.1 = some pair.2 := by
  decide

/-- The escape of one code unit is read as its character. -/
theorem unescape_unit {c : Char} {digits : List Char} (h : SpellsUnit c.toNat digits)
    (rest : List Char) : unescape ('u' :: (digits ++ rest)) = .ok (c, 5) := by
  obtain ⟨hHigh, hLow⟩ := surrogate_toNat c
  have hShort : shortEscape? 'u' = none := rfl
  rw [unescape, hShort]
  simp [codeUnit?_of_spellsUnit h, hHigh, hLow, Char.ofNat_toNat]

/-- The escapes of two paired code units are read as one character. -/
theorem unescape_pair {c : Char} {high low : List Char} (hWide : 0x10000 ≤ c.toNat)
    (hHigh : SpellsUnit (0xD800 + (c.toNat - 0x10000) / 0x400) high)
    (hLow : SpellsUnit (0xDC00 + (c.toNat - 0x10000) % 0x400) low) (rest : List Char) :
    unescape ('u' :: (high ++ '\\' :: 'u' :: (low ++ rest))) = .ok (c, 11) := by
  have hBound := toNat_lt c
  have hIsHigh : isHighSurrogate (0xD800 + (c.toNat - 0x10000) / 0x400) = true := by
    simp only [isHighSurrogate, Bool.and_eq_true, decide_eq_true_eq]
    omega
  have hIsLow : isLowSurrogate (0xDC00 + (c.toNat - 0x10000) % 0x400) = true := by
    simp only [isLowSurrogate, Bool.and_eq_true, decide_eq_true_eq]
    omega
  have hShort : shortEscape? 'u' = none := rfl
  have hSecond : (high ++ '\\' :: 'u' :: (low ++ rest)).drop 4 = '\\' :: 'u' :: (low ++ rest) := by
    rw [← length_of_spellsUnit hHigh, List.drop_left]
  rw [unescape, hShort]
  simp only [ne_eq, not_true_eq_false, if_false, codeUnit?_of_spellsUnit hHigh, hIsHigh, if_true,
    hSecond, escapedUnit?, codeUnit?_of_spellsUnit hLow, hIsLow, pairedCharacter_eq hWide]

theorem stringTail_backslash {escaped : Char} (spelling rest : List Char)
    (h : unescape (spelling ++ rest) = .ok (escaped, spelling.length)) :
    stringTail ('\\' :: (spelling ++ rest)) =
      (stringTail rest).map (prepend escaped ('\\' :: spelling)) := by
  rw [stringTail, if_neg (by decide), if_pos rfl, h]
  dsimp only
  rw [List.drop_left, List.take_left]

/-- Each spelling of a character is read as this character. -/
theorem stringTail_of_spellsChar {c : Char} {spelling : List Char} (h : SpellsChar c spelling)
    (rest : List Char) :
    stringTail (spelling ++ rest) = (stringTail rest).map (prepend c spelling) := by
  cases h with
  | plain hControl hQuote hBackslash =>
      rw [List.cons_append, stringTail, if_neg hQuote, if_neg hBackslash, List.nil_append]
  | @short mark hMark =>
      refine stringTail_backslash [mark] rest ?_
      rw [List.cons_append, unescape, shortEscape?_of_mem _ hMark]
      rfl
  | @unit digits hUnit =>
      refine stringTail_backslash ('u' :: digits) rest ?_
      rw [List.cons_append, unescape_unit hUnit, List.length_cons, length_of_spellsUnit hUnit]
  | @pair high low hWide hHigh hLow =>
      refine stringTail_backslash ('u' :: (high ++ '\\' :: 'u' :: low)) rest ?_
      have hText : 'u' :: (high ++ '\\' :: 'u' :: low) ++ rest =
          'u' :: (high ++ '\\' :: 'u' :: (low ++ rest)) := by simp
      have hLength : ('u' :: (high ++ '\\' :: 'u' :: low)).length = 11 := by
        simp [length_of_spellsUnit hHigh, length_of_spellsUnit hLow]
      rw [hText, hLength, unescape_pair hWide hHigh hLow]

/-- From the spellings of some characters and a closing quote, the lexer reads these characters. -/
theorem stringTail_of_spellsChars {text spelling : List Char} (h : SpellsChars text spelling)
    (rest : List Char) :
    stringTail (spelling ++ '"' :: rest) =
      .ok { kind := .string, text, spelling := spelling ++ ['"'], rest } := by
  induction h with
  | nil =>
      rw [List.nil_append, stringTail, if_pos rfl]
      rfl
  | cons hFirst _ ih =>
      rw [List.append_assoc, stringTail_of_spellsChar hFirst, ih]
      simp [Except.map, prepend]

/-- Between quotes, the spellings of some characters are the token of a string with these
characters. -/
theorem ofText_of_spellsChars {text spelling : List Char} (h : SpellsChars text spelling)
    (rest : List Char) :
    ofText '"' (spelling ++ '"' :: rest) =
      .ok { kind := .string, text, spelling := '"' :: (spelling ++ ['"']), rest } := by
  have hMark : TokenKind.ofMark? '"' = none := rfl
  rw [ofText, hMark]
  simp [stringTail_of_spellsChars h, Except.map]

end Lexeme

end PinnedTree
