import PinnedTree.Double.Reading
import PinnedTree.Proofs.Except
import PinnedTree.Proofs.Number.Spelling
import PinnedTree.Token.Stream

/-! The number tokens of a text. What the lexer cuts off as a number is spelled by the parts of a
number, so that it can always be read as a double. -/
namespace PinnedTree

open Text

namespace Lexeme

/-- The digits at the head of a text, if there are any. -/
theorem isDigits_takeWhile {text : List Char} (h : text.takeWhile Char.isDigit ≠ []) :
    IsDigits (text.takeWhile Char.isDigit) :=
  ⟨h, fun _ hMem => List.all_eq_true.mp List.all_takeWhile _ hMem⟩

/-- Whole digits that the lexer takes do not start with a zero that leads others. -/
theorem wholeDigits_wellSpelled {text whole : List Char} (h : wholeDigits text = .ok whole)
    (hDigit : text.takeWhile Char.isDigit ≠ []) :
    IsDigits whole ∧ (whole.head? = some '0' → whole = ['0']) := by
  simp only [wholeDigits] at h
  split at h
  · cases h
  · rename_i hLeading
    cases h
    refine ⟨isDigits_takeWhile hDigit, ?_⟩
    intro hZero
    have hLength : (text.takeWhile Char.isDigit).length = 1 := by
      apply Classical.byContradiction
      exact fun hLong => hLeading ⟨hZero, hLong⟩
    obtain ⟨digit, hOnly⟩ := List.length_eq_one_iff.mp hLength
    rw [hOnly] at hZero ⊢
    rw [Option.some.inj hZero]

/-- A fraction that the lexer takes is a point with digits, or nothing. -/
theorem fractionPart_wellSpelled {text part : List Char} (h : fractionPart text = .ok part) :
    ∃ fraction : Option (List Char), part = fraction.elim [] (fun digits => '.' :: digits) ∧
      ∀ digits ∈ fraction, IsDigits digits := by
  cases text with
  | nil =>
      cases h
      exact ⟨none, rfl, nofun⟩
  | cons c rest =>
      simp only [fractionPart] at h
      split at h
      · cases h
        exact ⟨none, rfl, nofun⟩
      · rename_i hPoint
        split at h
        · cases h
        · rename_i hDigits
          cases h
          refine ⟨some (rest.takeWhile Char.isDigit), ?_, ?_⟩
          · rw [Decidable.not_not.mp hPoint]
            rfl
          · rintro digits ⟨⟩
            exact isDigits_takeWhile hDigits

theorem exponentSign_cases (text : List Char) :
    exponentSign text = [] ∨ exponentSign text = ['+'] ∨ exponentSign text = ['-'] := by
  cases text with
  | nil => exact Or.inl rfl
  | cons c rest =>
      by_cases hPlus : c = '+'
      · subst hPlus
        exact Or.inr (Or.inl rfl)
      · by_cases hMinus : c = '-'
        · subst hMinus
          exact Or.inr (Or.inr rfl)
        · simp [exponentSign, hPlus, hMinus]

/-- An exponent that the lexer takes is well spelled, or nothing. -/
theorem exponentPart_wellSpelled {text part : List Char} (h : exponentPart text = .ok part) :
    ∃ exponent : Option ExponentParts, part = exponent.elim [] ExponentParts.spell ∧
      ∀ parts ∈ exponent, parts.WellSpelled := by
  cases text with
  | nil =>
      cases h
      exact ⟨none, rfl, nofun⟩
  | cons c rest =>
      simp only [exponentPart] at h
      split at h
      · cases h
        exact ⟨none, rfl, nofun⟩
      · rename_i hMark
        split at h
        · cases h
        · rename_i hDigits
          cases h
          refine ⟨some ⟨c, exponentSign rest, _⟩, rfl, ?_⟩
          rintro parts ⟨⟩
          exact ⟨by grind, exponentSign_cases rest, isDigits_takeWhile hDigits⟩

/-- A digit comes first, perhaps behind a minus. -/
def BeginsNumber (text : List Char) : Prop :=
  ∃ (negative : Bool) (digit : Char) (others : List Char), digit.isDigit = true ∧
    text = (if negative then ['-'] else []) ++ digit :: others

/-- The lexer starts a number at a digit, perhaps behind a minus. -/
theorem startsNumber_iff {c : Char} {rest : List Char} :
    startsNumber c rest = true ↔ BeginsNumber (c :: rest) := by
  constructor
  · intro h
    by_cases hMinus : c = '-'
    · subst hMinus
      cases rest with
      | nil => cases h
      | cons digit others =>
          have hDigit : digit.isDigit = true := by simpa [startsNumber] using h
          exact ⟨true, digit, others, hDigit, rfl⟩
    · have hDigit : c.isDigit = true := by simpa [startsNumber, hMinus] using h
      exact ⟨false, c, rest, hDigit, rfl⟩
  · rintro ⟨negative, digit, others, hDigit, hText⟩
    cases negative with
    | true =>
        cases hText
        simp [startsNumber, hDigit]
    | false =>
        cases hText
        simp [startsNumber, hDigit]

/-- Behind the sign come the whole digits, then a fraction and an exponent. -/
theorem numberSpelling_eq (negative : Bool) {digit : Char} {others tail : List Char}
    (hDigit : digit.isDigit = true) (hTail : tail = digit :: others) :
    numberSpelling ((if negative then ['-'] else []) ++ tail) = do
      let whole ← wholeDigits tail
      let fraction ← fractionPart (tail.drop whole.length)
      let exponent ← exponentPart ((tail.drop whole.length).drop fraction.length)
      return (if negative then ['-'] else []) ++ (whole ++ (fraction ++ exponent)) := by
  have hSign : (((if negative then ['-'] else []) ++ tail).take 1).filter (· = '-') =
      if negative then ['-'] else [] := by
    cases negative with
    | true => rfl
    | false =>
        have hMinus : digit ≠ '-' := NumberParts.ne_of_isDigit hDigit rfl
        simp [hTail, hMinus]
  rw [numberSpelling]
  simp only [hSign, List.drop_left, List.length_append, ← List.drop_drop, List.append_assoc]

/-- A number that is cut off is spelled by the parts of a number. -/
theorem exists_parts {c : Char} {rest spelling : List Char} (hStarts : startsNumber c rest = true)
    (h : numberSpelling (c :: rest) = .ok spelling) :
    ∃ parts : NumberParts, parts.WellSpelled ∧ spelling = parts.spell := by
  obtain ⟨negative, digit, others, hDigit, hText⟩ := startsNumber_iff.mp hStarts
  rw [hText, numberSpelling_eq negative hDigit rfl] at h
  obtain ⟨whole, hWhole, hRest⟩ := exists_of_bind_eq_ok h
  obtain ⟨fractionText, hFraction, hRest⟩ := exists_of_bind_eq_ok hRest
  obtain ⟨exponentText, hExponent, hSpelling⟩ := exists_of_bind_eq_ok hRest
  cases hSpelling
  obtain ⟨hDigits, hNoLeadingZero⟩ := wholeDigits_wellSpelled hWhole (by simp [hDigit])
  obtain ⟨fraction, rfl, hFractionDigits⟩ := fractionPart_wellSpelled hFraction
  obtain ⟨exponent, rfl, hExponentParts⟩ := exponentPart_wellSpelled hExponent
  exact ⟨⟨negative, whole, fraction, exponent⟩,
    ⟨hDigits, hNoLeadingZero, hFractionDigits, hExponentParts⟩, rfl⟩

/-- The rest of a string is the rest of a string token. -/
theorem kind_stringTail {text : List Char} {lexeme : Lexeme} (h : stringTail text = .ok lexeme) :
    lexeme.kind = .string := by
  fun_induction stringTail text generalizing lexeme with
  | case1 => cases h
  | case2 rest => cases h; rfl
  | case3 => cases h
  | case4 rest escaped length hUnescaped _ ih =>
      obtain ⟨tail, hTail, rfl⟩ := exists_of_map_eq_ok h
      exact (ih hTail : tail.kind = .string)
  | case5 c rest hQuote hBackslash ih =>
      obtain ⟨tail, hTail, rfl⟩ := exists_of_map_eq_ok h
      exact (ih hTail : tail.kind = .string)

/-- No mark and no word is a number. -/
theorem kind_ne_number {c : Char} {kind : TokenKind} (h : TokenKind.ofMark? c = some kind) :
    kind ≠ .number := by
  rintro rfl
  simp only [TokenKind.ofMark?] at h
  repeat' split at h
  all_goals cases h

/-- No bare word is a number. -/
theorem ofWord_ne_number (word : List Char) : TokenKind.ofWord word ≠ .number := by
  simp only [TokenKind.ofWord]
  repeat' split
  all_goals exact nofun

/-- A number token is spelled by the parts of a number. -/
theorem number_of_ofText {c : Char} {rest : List Char} {lexeme : Lexeme}
    (h : ofText c rest = .ok lexeme) (hKind : lexeme.kind = .number) :
    ∃ parts : NumberParts, parts.WellSpelled ∧ lexeme.text = parts.spell := by
  rw [ofText] at h
  split at h
  · rename_i kind hMark
    cases h
    exact absurd hKind (kind_ne_number hMark)
  · split at h
    · obtain ⟨tail, hTail, rfl⟩ := exists_of_map_eq_ok h
      cases (kind_stringTail hTail).symm.trans hKind
    · split at h
      · rename_i hStarts
        obtain ⟨spelling, hSpelling, rfl⟩ := exists_of_map_eq_ok h
        exact exists_parts hStarts hSpelling
      · split at h
        · cases h
          exact absurd hKind (ofWord_ne_number _)
        · cases h

end Lexeme

namespace Tokens

/-- What is true of every lexeme is true of every token. -/
theorem forall_scan {P : Token → Prop}
    (h : ∀ c rest lexeme start, Lexeme.ofText c rest = .ok lexeme → P (lexeme.token start))
    (offset : Nat) (text : List Char) : ∀ token ∈ (scan offset text).front, P token := by
  induction offset, text using scan.induct with
  | case1 offset text hBlank =>
      rw [scan]
      split
      · exact nofun
      · rename_i c rest hText
        cases hBlank.symm.trans hText
  | case2 offset text c rest hBlank fault hFault =>
      rw [scan]
      split
      · exact nofun
      · rename_i first others hText
        cases hBlank.symm.trans hText
        split
        · exact nofun
        · rename_i lexeme hLexeme
          cases hFault.symm.trans hLexeme
  | case3 offset text start c rest hBlank lexeme hLexeme ih =>
      rw [scan]
      split
      · exact nofun
      · rename_i first others hText
        cases hBlank.symm.trans hText
        split
        · exact nofun
        · rename_i found hFound
          cases hLexeme.symm.trans hFound
          exact List.forall_mem_cons.mpr ⟨h c rest lexeme _ hLexeme, ih⟩

end Tokens

/-- A number token of a text is the numeral of its parts. -/
theorem Tokens.number_of_mem {text : String} {token : Token} (h : token ∈ (ofString text).front)
    (hKind : token.kind = .number) :
    ∃ parts : NumberParts, parts.WellSpelled ∧ token.text.toList = parts.spell := by
  refine forall_scan (P := fun token => token.kind = .number →
    ∃ parts : NumberParts, parts.WellSpelled ∧ token.text.toList = parts.spell) ?_ 0 text.toList
    token h hKind
  intro c rest lexeme start hLexeme hNumber
  rw [Lexeme.token, String.toList_ofList]
  exact Lexeme.number_of_ofText hLexeme hNumber

/-- Every number of a text can be read as a double. -/
theorem Tokens.exists_double {text : String} {token : Token} (h : token ∈ (ofString text).front)
    (hKind : token.kind = .number) : ∃ value, Double.read? token.text.toList = some value := by
  obtain ⟨parts, hParts, hText⟩ := number_of_mem h hKind
  refine ⟨Double.ofNumeral parts.numeral, ?_⟩
  rw [Double.read?, hText, NumberParts.read?_spell hParts]
  rfl

end PinnedTree
