import PinnedTree.Proofs.Json.Spelled
import PinnedTree.Proofs.Number.Lexing

/-! Number tokens. A text that starts with a minus or a digit is cut behind the longest number that
it starts with. If the text begins a part of a number and does not go on with it, no number is cut
off at all, and the error says which part that is. -/
namespace PinnedTree

open Text

namespace Lexeme

/-! ### Numbers, and what is none -/

def IsNumber (text : List Char) : Prop :=
  ∃ parts : NumberParts, parts.WellSpelled ∧ text = parts.spell

/-- The longest number with which a text starts. -/
structure LongestNumber (text spelling : List Char) : Prop where
  number : IsNumber spelling
  head : spelling <+: text
  longest : ∀ other, IsNumber other → other <+: text → other <+: spelling

/-- The digits of an exponent come next, perhaps behind a sign. -/
def BeginsExponent (text : List Char) : Prop :=
  ∃ sign digit rest, (sign = [] ∨ sign = ['+'] ∨ sign = ['-']) ∧ Char.isDigit digit = true ∧
    text = sign ++ digit :: rest

/-- A part of a number begins and is not spelled to its end. -/
inductive Malformed : List Char → ParseFault → Prop where
  /-- A minus without a digit. -/
  | minus {rest : List Char} (hNone : StopsAt Char.isDigit rest) :
      Malformed ('-' :: rest) (.unexpectedCharacter '-')
  /-- A zero in front of another digit. -/
  | zero (negative : Bool) {digit : Char} {rest : List Char} (hDigit : digit.isDigit = true) :
      Malformed ((if negative then ['-'] else []) ++ '0' :: digit :: rest) .leadingZero
  /-- A point behind the whole digits, and no digit behind the point. -/
  | fraction {parts : NumberParts} {rest : List Char} (hParts : parts.WellSpelled)
      (hFraction : parts.fraction = none) (hExponent : parts.exponent = none)
      (hNone : StopsAt Char.isDigit rest) : Malformed (parts.spell ++ '.' :: rest) .missingFraction
  /-- The mark of an exponent behind the whole digits or a fraction, and no digits behind the
  mark. -/
  | exponent {parts : NumberParts} {mark : Char} {rest : List Char} (hParts : parts.WellSpelled)
      (hExponent : parts.exponent = none) (hMark : mark = 'e' ∨ mark = 'E')
      (hNone : ¬ BeginsExponent rest) : Malformed (parts.spell ++ mark :: rest) .missingExponent

/-! ### Part by part -/

/-- The lexer reads a number part by part: the whole digits, the fraction and the exponent. -/
theorem numberSpelling_whole {parts : NumberParts} (hParts : parts.WellSpelled)
    (rest : List Char) :
    numberSpelling (parts.signText ++ (parts.whole ++ rest)) = do
      let whole ← wholeDigits (parts.whole ++ rest)
      let fraction ← fractionPart ((parts.whole ++ rest).drop whole.length)
      let exponent ← exponentPart (((parts.whole ++ rest).drop whole.length).drop fraction.length)
      return parts.signText ++ (whole ++ (fraction ++ exponent)) := by
  obtain ⟨digit, others, hWhole, hDigit⟩ := NumberParts.whole_eq_cons hParts
  have hTail : parts.whole ++ rest = digit :: (others ++ rest) := by rw [hWhole, List.cons_append]
  exact numberSpelling_eq parts.negative hDigit hTail

/-- Behind whole digits that end, the fraction is next. -/
theorem numberSpelling_fraction {parts : NumberParts} (hParts : parts.WellSpelled)
    {rest : List Char} (hRest : StopsAt Char.isDigit rest) :
    numberSpelling (parts.signText ++ (parts.whole ++ rest)) = do
      let fraction ← fractionPart rest
      let exponent ← exponentPart (rest.drop fraction.length)
      return parts.signText ++ (parts.whole ++ (fraction ++ exponent)) := by
  rw [numberSpelling_whole hParts, NumberParts.wholeDigits_append hParts hRest]
  simp only [bind, Except.bind, List.drop_left]

/-- Behind a fraction that ends, the exponent is next. -/
theorem numberSpelling_exponent {parts : NumberParts} (hParts : parts.WellSpelled)
    {rest : List Char} (hDigit : StopsAt Char.isDigit rest)
    (hPoint : StopsAt (fun c => decide (c = '.')) rest) :
    numberSpelling (parts.signText ++ (parts.whole ++ (parts.fractionText ++ rest))) = do
      let exponent ← exponentPart rest
      return parts.signText ++ (parts.whole ++ (parts.fractionText ++ exponent)) := by
  have hStops : StopsAt Char.isDigit (parts.fractionText ++ rest) := by
    cases hFraction : parts.fraction with
    | none => simpa [NumberParts.fractionText, hFraction] using hDigit
    | some digits =>
        rw [NumberParts.fractionText, hFraction]
        exact stopsAt_cons rfl _
  rw [numberSpelling_fraction hParts hStops,
    NumberParts.fractionPart_fractionText hParts hDigit hPoint]
  simp only [bind, Except.bind, List.drop_left]

/-! ### What is cut off is the longest -/

theorem stopsAt_mark {mark : Char} (h : mark = 'e' ∨ mark = 'E') (rest : List Char) :
    StopsAt Char.isDigit (mark :: rest) ∧ StopsAt (fun c => decide (c = '.')) (mark :: rest) := by
  rcases h with rfl | rfl
  · exact ⟨stopsAt_cons rfl _, stopsAt_cons rfl _⟩
  · exact ⟨stopsAt_cons rfl _, stopsAt_cons rfl _⟩

/-- Whatever number a text starts with, the number that is cut off goes at least as far: its last
part is read together with all digits behind it, and the parts before that are read to their
ends. -/
theorem spell_isPrefix {parts : NumberParts} (hParts : parts.WellSpelled)
    {more spelling : List Char} (h : numberSpelling (parts.spell ++ more) = .ok spelling) :
    parts.spell <+: spelling := by
  simp only [NumberParts.spell, List.append_assoc] at h ⊢
  cases hExponent : parts.exponent with
  | some exponent =>
      have hSpelled := hParts.exponent exponent hExponent
      obtain ⟨hDigit, hPoint⟩ : StopsAt Char.isDigit (exponent.spell ++ more) ∧
          StopsAt (fun c => decide (c = '.')) (exponent.spell ++ more) :=
        stopsAt_mark hSpelled.mark _
      have hText : parts.exponentText = exponent.spell := by
        rw [NumberParts.exponentText, hExponent, Option.elim_some]
      rw [hText] at h ⊢
      rw [numberSpelling_exponent hParts hDigit hPoint,
        NumberParts.exponentPart_spell hSpelled] at h
      cases h
      exact ⟨more.takeWhile Char.isDigit, by simp only [List.append_assoc]⟩
  | none =>
      have hNoExponent : parts.exponentText = [] := by rw [NumberParts.exponentText, hExponent]; rfl
      rw [hNoExponent] at h ⊢
      cases hFraction : parts.fraction with
      | some digits =>
          have hText : parts.fractionText = '.' :: digits := by
            rw [NumberParts.fractionText, hFraction, Option.elim_some]
          rw [hText] at h ⊢
          rw [List.nil_append, List.cons_append,
            numberSpelling_fraction hParts (stopsAt_cons rfl _),
            NumberParts.fractionPart_point (hParts.fraction digits hFraction)] at h
          obtain ⟨_, ⟨⟩, hRest⟩ := exists_of_bind_eq_ok h
          obtain ⟨exponent, -, hSpelling⟩ := exists_of_bind_eq_ok hRest
          cases hSpelling
          exact ⟨more.takeWhile Char.isDigit ++ exponent, by simp⟩
      | none =>
          have hText : parts.fractionText = [] := by rw [NumberParts.fractionText, hFraction]; rfl
          rw [hText] at h ⊢
          rw [List.nil_append, List.nil_append, numberSpelling_whole hParts] at h
          obtain ⟨whole, hWhole, hRest⟩ := exists_of_bind_eq_ok h
          obtain ⟨fraction, -, hRest⟩ := exists_of_bind_eq_ok hRest
          obtain ⟨exponent, -, hSpelling⟩ := exists_of_bind_eq_ok hRest
          cases hSpelling
          rw [wholeDigits_eq hWhole, List.takeWhile_append_of_pos hParts.whole.2]
          exact ⟨more.takeWhile Char.isDigit ++ (fraction ++ exponent), by simp⟩

/-- What the lexer takes as a number is the longest number at the start of the text. -/
theorem longest_of_numberSpelling {c : Char} {rest spelling : List Char}
    (hStarts : startsNumber c rest = true) (h : numberSpelling (c :: rest) = .ok spelling) :
    LongestNumber (c :: rest) spelling where
  number := exists_parts hStarts h
  head := (numberSpelling_isPrefix hStarts h).1
  longest := by
    rintro other ⟨parts, hParts, rfl⟩ ⟨more, hText⟩
    rw [← hText] at h
    exact spell_isPrefix hParts h

/-! ### What is refused -/

theorem stopsAt_of_takeWhile {p : Char → Bool} {text : List Char} (h : text.takeWhile p = []) :
    StopsAt p text := by
  cases text with
  | nil => exact stopsAt_nil p
  | cons c rest =>
      apply stopsAt_cons
      cases hFirst : p c with
      | false => rfl
      | true => simp [hFirst] at h

/-- The digits of an exponent are looked for behind its sign. -/
theorem not_beginsExponent_iff {text : List Char} :
    ¬ BeginsExponent text ↔
      (text.drop (exponentSign text).length).takeWhile Char.isDigit = [] := by
  constructor
  · intro h
    obtain ⟨tail, hText⟩ := exponentSign_isPrefix text
    have hTail := congrArg (List.drop (exponentSign text).length) hText
    rw [List.drop_left] at hTail
    rw [← hTail]
    apply takeWhile_of_stopsAt
    intro digit hFirst
    cases hDigit : digit.isDigit with
    | false => rfl
    | true =>
        obtain ⟨others, rfl⟩ := List.head?_eq_some_iff.mp hFirst
        exact absurd ⟨_, digit, others, exponentSign_cases text, hDigit, hText.symm⟩ h
  · rintro h ⟨sign, digit, rest, hSign, hDigit, rfl⟩
    have hParts : ExponentParts.WellSpelled ⟨'e', sign, [digit]⟩ :=
      ⟨.inl rfl, hSign, by simp, by simpa using hDigit⟩
    have hFound : exponentSign (sign ++ digit :: rest) = sign :=
      NumberParts.exponentSign_append hParts rest
    rw [hFound, List.drop_left] at h
    simp [hDigit] at h

theorem exponentPart_mark {mark : Char} (hMark : mark = 'e' ∨ mark = 'E') {rest : List Char} :
    exponentPart (mark :: rest) = .error .missingExponent ↔ ¬ BeginsExponent rest := by
  have hNotOther : ¬(mark ≠ 'e' ∧ mark ≠ 'E') := fun hOther => hMark.elim hOther.1 hOther.2
  rw [not_beginsExponent_iff, exponentPart, if_neg hNotOther]
  simp

/-- A number of whole digits alone, or with a fraction behind them, goes on with what follows. -/
theorem spell_whole {parts : NumberParts} (hFraction : parts.fraction = none)
    (hExponent : parts.exponent = none) (rest : List Char) :
    parts.spell ++ rest = parts.signText ++ (parts.whole ++ rest) := by
  simp [NumberParts.spell, NumberParts.fractionText, NumberParts.exponentText, hFraction, hExponent]

theorem spell_fraction {parts : NumberParts} (hExponent : parts.exponent = none)
    (rest : List Char) :
    parts.spell ++ rest = parts.signText ++ (parts.whole ++ (parts.fractionText ++ rest)) := by
  simp [NumberParts.spell, NumberParts.exponentText, hExponent]

theorem beginsNumber_spell {parts : NumberParts} (hParts : parts.WellSpelled) (rest : List Char) :
    BeginsNumber (parts.spell ++ rest) := by
  obtain ⟨digit, others, hWhole, hDigit⟩ := NumberParts.whole_eq_cons hParts
  refine ⟨parts.negative, digit, others ++ (parts.fractionText ++ parts.exponentText) ++ rest,
    hDigit, ?_⟩
  simp [NumberParts.spell, NumberParts.signText, hWhole]

/-- A part of a number that is not spelled to its end is refused, unless it is a minus alone. -/
theorem numberSpelling_of_malformed {text : List Char} {fault : ParseFault}
    (h : Malformed text fault) :
    (∃ rest, text = '-' :: rest ∧ StopsAt Char.isDigit rest ∧ fault = .unexpectedCharacter '-') ∨
      BeginsNumber text ∧ numberSpelling text = .error fault := by
  cases h with
  | minus hNone => exact .inl ⟨_, rfl, hNone, rfl⟩
  | @zero negative digit rest hDigit =>
      have hWhole : wholeDigits ('0' :: digit :: rest) = .error .leadingZero := by
        simp [wholeDigits, hDigit]
      refine .inr ⟨⟨negative, '0', _, rfl, rfl⟩, ?_⟩
      rw [numberSpelling_eq negative (show '0'.isDigit = true from rfl) rfl, hWhole]
      rfl
  | @fraction parts rest hParts hFraction hExponent hNone =>
      have hPart : fractionPart ('.' :: rest) = .error .missingFraction := by
        simp [fractionPart, takeWhile_of_stopsAt hNone]
      refine .inr ⟨beginsNumber_spell hParts _, ?_⟩
      rw [spell_whole hFraction hExponent, numberSpelling_fraction hParts (stopsAt_cons rfl _),
        hPart]
      rfl
  | @exponent parts mark rest hParts hExponent hMark hNone =>
      obtain ⟨hDigit, hPoint⟩ := stopsAt_mark hMark rest
      refine .inr ⟨beginsNumber_spell hParts _, ?_⟩
      rw [spell_fraction hExponent, numberSpelling_exponent hParts hDigit hPoint,
        (exponentPart_mark hMark).mpr hNone]
      rfl

/-- Whole digits are refused only for a zero in front of a digit. -/
theorem zero_of_wholeDigits {digit : Char} {others : List Char} {fault : ParseFault}
    (hDigit : digit.isDigit = true) (h : wholeDigits (digit :: others) = .error fault) :
    fault = .leadingZero ∧ digit = '0' ∧
      ∃ second rest, second.isDigit = true ∧ others = second :: rest := by
  simp only [wholeDigits, List.takeWhile_cons, hDigit, if_true, List.head?_cons,
    Option.some.injEq, List.length_cons] at h
  split at h
  · rename_i hZero
    obtain ⟨hFirst, hLong⟩ := hZero
    cases h
    cases others with
    | nil => exact absurd rfl hLong
    | cons second rest =>
        refine ⟨rfl, hFirst, second, rest, ?_, rfl⟩
        cases hSecond : second.isDigit with
        | true => rfl
        | false => simp [hSecond] at hLong
  · cases h

/-- A fraction is refused only for a point without a digit. -/
theorem point_of_fractionPart {text : List Char} {fault : ParseFault}
    (h : fractionPart text = .error fault) :
    fault = .missingFraction ∧ ∃ rest, text = '.' :: rest ∧ StopsAt Char.isDigit rest := by
  cases text with
  | nil => cases h
  | cons c rest =>
      simp only [fractionPart] at h
      split at h
      · cases h
      · rename_i hPoint
        split at h
        · rename_i hNone
          cases h
          exact ⟨rfl, rest, by rw [Decidable.not_not.mp hPoint], stopsAt_of_takeWhile hNone⟩
        · cases h

/-- An exponent is refused only for a mark without an exponent. -/
theorem mark_of_exponentPart {text : List Char} {fault : ParseFault}
    (h : exponentPart text = .error fault) : fault = .missingExponent ∧ ∃ mark rest,
      text = mark :: rest ∧ (mark = 'e' ∨ mark = 'E') ∧ ¬ BeginsExponent rest := by
  cases text with
  | nil => cases h
  | cons mark rest =>
      simp only [exponentPart] at h
      split at h
      · cases h
      · rename_i hMark
        split at h
        · rename_i hNone
          cases h
          exact ⟨rfl, mark, rest, rfl, by grind, not_beginsExponent_iff.mpr hNone⟩
        · cases h

/-- A point that is refused spoils the whole digits before it, and the mark of an exponent spoils
the number before it. -/
theorem Malformed.of_fractionPart {parts : NumberParts} (hParts : parts.WellSpelled)
    (hFraction : parts.fraction = none) (hExponent : parts.exponent = none) {tail : List Char}
    {fault : ParseFault} (h : fractionPart tail = .error fault) :
    Malformed (parts.spell ++ tail) fault := by
  obtain ⟨rfl, rest, rfl, hNone⟩ := point_of_fractionPart h
  exact .fraction hParts hFraction hExponent hNone

/-- Where the lexer refuses an exponent, a part of a number begins and is not spelled to its end. -/
theorem Malformed.of_exponentPart {parts : NumberParts} (hParts : parts.WellSpelled)
    (hExponent : parts.exponent = none) {tail : List Char} {fault : ParseFault}
    (h : exponentPart tail = .error fault) : Malformed (parts.spell ++ tail) fault := by
  obtain ⟨rfl, mark, rest, rfl, hMark, hNone⟩ := mark_of_exponentPart h
  exact .exponent hParts hExponent hMark hNone

theorem exists_behind_whole {text whole : List Char} (h : wholeDigits text = .ok whole) :
    ∃ tail, text = whole ++ tail ∧ StopsAt Char.isDigit tail := by
  refine ⟨text.dropWhile Char.isDigit, ?_, ?_⟩
  · rw [wholeDigits_eq h, List.takeWhile_append_dropWhile]
  · intro c hFirst
    have hStop := List.head?_dropWhile_not Char.isDigit text
    rwa [Option.mem_def.mp hFirst] at hStop

/-- What is refused is a part of a number that is not spelled to its end. The parts before it are
those of a number. -/
theorem malformed_of_error {c : Char} {rest : List Char} {fault : ParseFault}
    (hStarts : startsNumber c rest = true) (h : numberSpelling (c :: rest) = .error fault) :
    Malformed (c :: rest) fault := by
  obtain ⟨negative, digit, others, hDigit, hText⟩ := startsNumber_iff.mp hStarts
  rw [hText] at h ⊢
  cases hWhole : wholeDigits (digit :: others) with
  | error found =>
      rw [numberSpelling_eq negative hDigit rfl, hWhole] at h
      cases h
      obtain ⟨rfl, rfl, second, behind, hSecond, rfl⟩ := zero_of_wholeDigits hDigit hWhole
      exact .zero negative hSecond
  | ok whole =>
      obtain ⟨hDigits, hNoLeadingZero⟩ := wholeDigits_wellSpelled hWhole (by simp [hDigit])
      obtain ⟨tail, hTail, hStops⟩ := exists_behind_whole hWhole
      have hWholeParts : NumberParts.WellSpelled ⟨negative, whole, none, none⟩ :=
        ⟨hDigits, hNoLeadingZero, by simp, by simp⟩
      rw [hTail] at h ⊢
      rw [← NumberParts.signText.eq_def ⟨negative, whole, none, none⟩] at h ⊢
      rw [numberSpelling_fraction hWholeParts hStops] at h
      cases hFraction : fractionPart tail with
      | error found =>
          rw [hFraction] at h
          cases h
          rw [← spell_whole rfl rfl]
          exact .of_fractionPart hWholeParts rfl rfl hFraction
      | ok part =>
          obtain ⟨fraction, rfl, hFractionDigits⟩ := fractionPart_wellSpelled hFraction
          obtain ⟨behind, rfl⟩ := fractionPart_isPrefix hFraction
          have hParts : NumberParts.WellSpelled ⟨negative, whole, fraction, none⟩ :=
            ⟨hDigits, hNoLeadingZero, hFractionDigits, by simp⟩
          rw [hFraction] at h
          simp only [bind, Except.bind, List.drop_left] at h
          cases hExponent : exponentPart behind with
          | ok exponent =>
              rw [hExponent] at h
              cases h
          | error found =>
              rw [hExponent] at h
              cases h
              have hMalformed := Malformed.of_exponentPart hParts rfl hExponent
              rwa [spell_fraction rfl] at hMalformed

/-! ### Tokens -/

/-- A token that starts with a minus or a digit is a number, or an error. -/
theorem ofText_of_first {c : Char} (hFirst : c = '-' ∨ c.isDigit = true) (rest : List Char) :
    ofText c rest =
      if startsNumber c rest then
        (numberSpelling (c :: rest)).map fun spelling =>
          { kind := .number, text := spelling, spelling, rest := (c :: rest).drop spelling.length }
      else .error (.unexpectedCharacter '-') := by
  have hMark : TokenKind.ofMark? c = none := by
    rcases hFirst with rfl | hDigit
    · rfl
    · exact NumberParts.ofMark?_of_isDigit hDigit
  have hQuote : c ≠ '"' := by
    rintro rfl
    rcases hFirst with hMinus | hDigit
    · cases hMinus
    · cases hDigit
  rw [ofText, hMark]
  simp only [hQuote, if_false]
  split
  · rfl
  · rename_i hStarts
    obtain rfl : c = '-' := by
      rcases hFirst with hMinus | hDigit
      · exact hMinus
      · simp [startsNumber, hDigit] at hStarts
    rw [if_neg (show ¬ isWordCharacter '-' = true by decide)]

theorem isBlank_of_first {c : Char} (hFirst : c = '-' ∨ c.isDigit = true) : isBlank c = false := by
  rcases hFirst with rfl | hDigit
  · rfl
  · cases hBlank : isBlank c with
    | false => rfl
    | true =>
        simp only [isBlank, Bool.or_eq_true, decide_eq_true_eq] at hBlank
        rcases hBlank with ((rfl | rfl) | rfl) | rfl <;> cases hDigit

/-- A number that is not spelled to its end is refused. -/
theorem ofText_of_malformed {c : Char} {rest : List Char} {fault : ParseFault}
    (hFirst : c = '-' ∨ c.isDigit = true) (h : Malformed (c :: rest) fault) :
    ofText c rest = .error fault := by
  rw [ofText_of_first hFirst]
  rcases numberSpelling_of_malformed h with ⟨_, hText, hNone, rfl⟩ | ⟨hBegins, hError⟩
  · obtain ⟨rfl, rfl⟩ := List.cons.inj hText
    apply if_neg
    cases rest with
    | nil => exact nofun
    | cons digit others => simp [startsNumber, hNone digit rfl]
  · rw [if_pos (startsNumber_iff.mpr hBegins), hError]
    rfl

/-- If nothing is wrong with a number, the longest one is cut off. -/
theorem ofText_of_longest {c : Char} {rest : List Char} (hFirst : c = '-' ∨ c.isDigit = true)
    (h : ∀ fault, ¬ Malformed (c :: rest) fault) :
    ∃ spelling behind, LongestNumber (c :: rest) spelling ∧ c :: rest = spelling ++ behind ∧
      ofText c rest = .ok { kind := .number, text := spelling, spelling, rest := behind } := by
  have hStarts : startsNumber c rest = true := by
    rcases hFirst with rfl | hDigit
    · cases rest with
      | nil => exact absurd (.minus (stopsAt_nil _)) (h _)
      | cons digit others =>
          cases hDigit : digit.isDigit with
          | true => simp [startsNumber, hDigit]
          | false => exact absurd (.minus (stopsAt_cons hDigit others)) (h _)
    · simp [startsNumber, hDigit]
  cases hRead : numberSpelling (c :: rest) with
  | error fault => exact absurd (malformed_of_error hStarts hRead) (h fault)
  | ok spelling =>
      have hLongest := longest_of_numberSpelling hStarts hRead
      obtain ⟨behind, hText⟩ := hLongest.head
      refine ⟨spelling, behind, hLongest, hText.symm, ?_⟩
      rw [ofText_of_first hFirst, if_pos hStarts, hRead, ← hText, Except.map, List.drop_left]

end Lexeme

/-- A text that starts with a minus or a digit is cut behind the longest number that it starts with.
If it begins a part of a number without going on with it, this is an error at the first byte of the
number, and no shorter number is cut off. -/
theorem number_tokens_longest {blanks : List Char} (hBlanks : Document.AreBlanks blanks) {c : Char}
    (hFirst : c = '-' ∨ c.isDigit = true) (offset : Nat) (rest : List Char) :
    let outcome := nextToken offset (blanks ++ c :: rest)
    let start := offset + byteLength blanks
    ((¬ ∃ fault, Lexeme.Malformed (c :: rest) fault) → ∃ spelling behind,
      Lexeme.LongestNumber (c :: rest) spelling ∧ c :: rest = spelling ++ behind ∧
        outcome = .ok ⟨⟨.number, String.ofList spelling, start⟩, start + byteLength spelling,
          behind⟩) ∧
    (∀ fault, Lexeme.Malformed (c :: rest) fault → outcome = .error ⟨start, fault⟩) ∧
    (ParseFault.unexpectedCharacter '-').message = "unexpected character '-'" ∧
    ParseFault.leadingZero.message = "invalid number: leading zero" ∧
    ParseFault.missingFraction.message = "invalid number: expected digits after decimal point" ∧
    ParseFault.missingExponent.message = "invalid number: expected digits in exponent" := by
  intro outcome start
  have hOutcome : outcome = nextToken offset (blanks ++ c :: rest) := rfl
  rw [Tokens.nextToken_blanks_cons hBlanks (Lexeme.isBlank_of_first hFirst)] at hOutcome
  refine ⟨?_, ?_, by decide, rfl, rfl, rfl⟩
  · intro h
    obtain ⟨spelling, behind, hLongest, hText, hRead⟩ :=
      Lexeme.ofText_of_longest hFirst (not_exists.mp h)
    refine ⟨spelling, behind, hLongest, hText, ?_⟩
    rw [hOutcome, hRead]
    rfl
  · intro fault h
    rw [hOutcome, Lexeme.ofText_of_malformed hFirst h]

/-- A point behind a fraction is left where it is. A zero in front of a digit is not cut off
alone. -/
theorem number_tokens_longest_sample :
    Document.AreBlanks [' '] ∧
      Lexeme.LongestNumber ['-', '1', '.', '5', '.'] ['-', '1', '.', '5'] ∧
      nextToken 3 ([' '] ++ '-' :: ['1', '.', '5', '.']) =
        .ok ⟨⟨.number, "-1.5", 4⟩, 8, ['.']⟩ ∧
      nextToken 3 ([' '] ++ '-' :: ['0', '1']) = .error ⟨4, .leadingZero⟩ := by
  have hBlanks : Document.AreBlanks [' '] := by decide
  have hRead : nextToken 3 ([' '] ++ '-' :: ['1', '.', '5', '.']) =
      .ok ⟨⟨.number, "-1.5", 4⟩, 8, ['.']⟩ := rfl
  obtain ⟨hLongest, hMalformed, -⟩ :=
    number_tokens_longest hBlanks (.inl rfl) 3 ['1', '.', '5', '.']
  have hSound : ¬ ∃ fault, Lexeme.Malformed ['-', '1', '.', '5', '.'] fault := by
    rintro ⟨fault, hFault⟩
    cases hRead.symm.trans (hMalformed fault hFault)
  obtain ⟨spelling, behind, hNumber, hText, hToken⟩ := hLongest hSound
  have hStep := Except.ok.inj (hRead.symm.trans hToken)
  have hBehind : behind = ['.'] := (congrArg TokenStep.rest hStep).symm
  have hSpelling : spelling = ['-', '1', '.', '5'] := by
    rw [hBehind] at hText
    have hSame : ['-', '1', '.', '5'] ++ ['.'] = spelling ++ ['.'] := hText
    exact (List.append_cancel_right hSame).symm
  refine ⟨hBlanks, hSpelling ▸ hNumber, hRead, ?_⟩
  exact (number_tokens_longest hBlanks (.inl rfl) 3 ['0', '1']).2.1 _ (.zero true rfl)

end PinnedTree
