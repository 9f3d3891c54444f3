import PinnedTree.Proofs.Json.Spelled

/-! String tokens. Inside of quotes every character but a quote and a backslash may stand as it is,
and the escapes are those of JSON. A text that goes on in any other way is refused at its opening
quote, and the error says what is wrong with the first thing that does not belong to a spelling. -/
namespace PinnedTree

open Json Text

namespace Lexeme

/-! ### What stands inside of quotes -/

/-- The spellings of a character. Unlike in JSON, a control character may stand as it is. -/
inductive QuotesChar (c : Char) : List Char → Prop where
  | plain (hQuote : c ≠ '"') (hBackslash : c ≠ '\\') : QuotesChar c [c]
  | escape {mark : List Char} (hEscape : SpellsChar c ('\\' :: mark)) : QuotesChar c ('\\' :: mark)

inductive QuotesChars : List Char → List Char → Prop where
  | nil : QuotesChars [] []
  | cons {c : Char} {chars first rest : List Char} (hFirst : QuotesChar c first)
      (hRest : QuotesChars chars rest) : QuotesChars (c :: chars) (first ++ rest)

/-- The code units that are the first of a pair. -/
def BeginsPair (unit : Nat) : Prop :=
  0xD800 ≤ unit ∧ unit < 0xDC00

/-- The code units that are the second of a pair. -/
def EndsPair (unit : Nat) : Prop :=
  0xDC00 ≤ unit ∧ unit < 0xE000

/-- No escape of a code unit comes next. -/
def NoUnitNext (text : List Char) : Prop :=
  ∀ unit digits rest, SpellsUnit unit digits → text ≠ '\\' :: 'u' :: (digits ++ rest)

/-- What comes next inside of quotes is neither the closing quote nor a spelling of a character, and
this is wrong with it. -/
inductive Spoils : List Char → ParseFault → Prop where
  /-- The text ends. -/
  | ending : Spoils [] .unterminatedString
  /-- The first code unit of a pair, and no escape of a code unit behind it. -/
  | unpaired {unit : Nat} {digits rest : List Char} (hUnit : SpellsUnit unit digits)
      (hBegins : BeginsPair unit) (hNone : NoUnitNext rest) :
      Spoils ('\\' :: 'u' :: (digits ++ rest)) .unpairedSurrogate
  /-- The first code unit of a pair, and another one behind it that is not the second of a pair. -/
  | mismatched {unit other : Nat} {digits more rest : List Char} (hUnit : SpellsUnit unit digits)
      (hBegins : BeginsPair unit) (hOther : SpellsUnit other more) (hEnds : ¬ EndsPair other) :
      Spoils ('\\' :: 'u' :: (digits ++ '\\' :: 'u' :: (more ++ rest))) .invalidEscape
  /-- The second code unit of a pair without the first. -/
  | lone {unit : Nat} {digits rest : List Char} (hUnit : SpellsUnit unit digits)
      (hEnds : EndsPair unit) : Spoils ('\\' :: 'u' :: (digits ++ rest)) .invalidEscape
  /-- Less than four hexadecimal digits. -/
  | digits {rest : List Char} (hNone : NoUnitNext ('\\' :: 'u' :: rest)) :
      Spoils ('\\' :: 'u' :: rest) .invalidEscape
  /-- A character that is no escape. -/
  | mark {mark : Char} {rest : List Char} (hUnit : mark ≠ 'u')
      (hShort : ∀ c, (mark, c) ∉ shortEscapes) : Spoils ('\\' :: mark :: rest) .invalidEscape
  /-- A backslash at the end of the text. -/
  | backslash : Spoils ['\\'] .invalidEscape

/-! ### Code units -/

theorem isHexDigit_ofNat : ∀ code < 103, ∀ value ∈ hexDigit? (Char.ofNat code),
    IsHexDigit value (Char.ofNat code) := by
  decide

theorem isHexDigit_of_hexDigit? {c : Char} {value : Nat} (h : hexDigit? c = some value) :
    IsHexDigit value c := by
  have hBound : c.toNat < 103 := by
    simp only [hexDigit?, Char.le_def, UInt32.le_iff_toNat_le] at h
    have hChar : c.toNat = c.val.toNat := rfl
    split at h
    · rename_i hDigit
      exact hChar ▸ Nat.lt_of_le_of_lt hDigit.2 (by decide)
    · split at h
      · rename_i hLower
        exact hChar ▸ Nat.lt_of_le_of_lt hLower.2 (by decide)
      · split at h
        · rename_i hUpper
          exact hChar ▸ Nat.lt_of_le_of_lt hUpper.2 (by decide)
        · cases h
  have hDigit := isHexDigit_ofNat c.toNat hBound value
  rw [Char.ofNat_toNat] at hDigit
  exact hDigit h

/-- A code unit that the lexer reads is spelled by four digits. -/
theorem exists_digits {text : List Char} {unit : Nat} (h : codeUnit? text = some unit) :
    ∃ digits rest, SpellsUnit unit digits ∧ text = digits ++ rest := by
  match text with
  | first :: second :: third :: fourth :: rest =>
      simp only [codeUnit?, Option.bind_eq_bind, Option.bind_eq_some_iff] at h
      obtain ⟨a, hFirst, b, hSecond, c, hThird, d, hFourth, hUnit⟩ := h
      cases hUnit
      exact ⟨[first, second, third, fourth], rest,
        .mk (isHexDigit_of_hexDigit? hFirst) (isHexDigit_of_hexDigit? hSecond)
          (isHexDigit_of_hexDigit? hThird) (isHexDigit_of_hexDigit? hFourth), rfl⟩
  | [] | [_] | [_, _] | [_, _, _] => cases h

theorem exists_escape {text : List Char} {unit : Nat} (h : escapedUnit? text = some unit) :
    ∃ digits rest, SpellsUnit unit digits ∧ text = '\\' :: 'u' :: (digits ++ rest) := by
  rw [escapedUnit?.eq_def] at h
  split at h
  · obtain ⟨digits, rest, hDigits, rfl⟩ := exists_digits h
    exact ⟨digits, rest, hDigits, rfl⟩
  · cases h

/-- An escape of a code unit comes next if and only if one can be read. -/
theorem noUnitNext_iff {text : List Char} : NoUnitNext text ↔ escapedUnit? text = none := by
  constructor
  · intro h
    cases hUnit : escapedUnit? text with
    | none => rfl
    | some unit =>
        obtain ⟨digits, rest, hDigits, hText⟩ := exists_escape hUnit
        exact absurd hText (h unit digits rest hDigits)
  · rintro h unit digits rest hDigits rfl
    rw [escapedUnit?, codeUnit?_of_spellsUnit hDigits] at h
    cases h

theorem toNat_ofNat_of_isValidChar {code : Nat} (h : code.isValidChar) :
    (Char.ofNat code).toNat = code := by
  rw [Char.ofNat, dif_pos h]
  rfl

theorem unit_lt {unit : Nat} {digits : List Char} (h : SpellsUnit unit digits) :
    unit < 0x10000 := by
  obtain ⟨hFirst, hSecond, hThird, hFourth⟩ := h
  have hFirst := hFirst.1
  have hSecond := hSecond.1
  have hThird := hThird.1
  have hFourth := hFourth.1
  omega

theorem isHighSurrogate_iff {unit : Nat} : isHighSurrogate unit = true ↔ BeginsPair unit := by
  simp only [isHighSurrogate, BeginsPair, Bool.and_eq_true, decide_eq_true_eq]

theorem isLowSurrogate_iff {unit : Nat} : isLowSurrogate unit = true ↔ EndsPair unit := by
  simp only [isLowSurrogate, EndsPair, Bool.and_eq_true, decide_eq_true_eq]

/-- A code unit that belongs to no pair is the code of a character. -/
theorem spellsChar_unit {unit : Nat} {digits : List Char} (h : SpellsUnit unit digits)
    (hBegins : ¬ BeginsPair unit) (hEnds : ¬ EndsPair unit) :
    SpellsChar (Char.ofNat unit) ('\\' :: 'u' :: digits) := by
  have hBound := unit_lt h
  have hValid : unit.isValidChar := by
    unfold BeginsPair at hBegins
    unfold EndsPair at hEnds
    unfold Nat.isValidChar
    omega
  apply SpellsChar.unit
  rwa [toNat_ofNat_of_isValidChar hValid]

/-- The code of the character that two paired code units stand for. -/
theorem toNat_pairedCharacter {high low : Nat} (hBegins : BeginsPair high) (hEnds : EndsPair low) :
    (pairedCharacter high low).toNat = 0x10000 + (high - 0xD800) * 0x400 + (low - 0xDC00) := by
  obtain ⟨hHigh, hHighEnd⟩ := hBegins
  obtain ⟨hLow, hLowEnd⟩ := hEnds
  have hValid : (0x10000 + (high - 0xD800) * 0x400 + (low - 0xDC00)).isValidChar := by
    unfold Nat.isValidChar
    omega
  rw [pairedCharacter, toNat_ofNat_of_isValidChar hValid]

/-- The two code units of a pair are one character. -/
theorem spellsChar_pair {high low : Nat} {digits more : List Char}
    (hUnit : SpellsUnit high digits) (hBegins : BeginsPair high) (hOther : SpellsUnit low more)
    (hEnds : EndsPair low) :
    SpellsChar (pairedCharacter high low)
      ('\\' :: 'u' :: (digits ++ '\\' :: 'u' :: more)) := by
  have hCode := toNat_pairedCharacter hBegins hEnds
  obtain ⟨hHigh, hHighEnd⟩ := hBegins
  obtain ⟨hLow, hLowEnd⟩ := hEnds
  apply SpellsChar.pair
  · omega
  · rwa [show 0xD800 + ((pairedCharacter high low).toNat - 0x10000) / 0x400 = high by omega]
  · rwa [show 0xDC00 + ((pairedCharacter high low).toNat - 0x10000) % 0x400 = low by omega]

theorem mem_of_shortEscape? {mark c : Char} (h : shortEscape? mark = some c) :
    (mark, c) ∈ shortEscapes := by
  simp only [shortEscape?] at h
  repeat' split at h
  · rename_i hSame
    cases h
    rcases hSame with rfl | rfl | rfl <;> decide
  all_goals
    first
    | cases h; subst_vars; decide
    | cases h

/-! ### Escapes -/

/-- What is read behind a backslash. -/
inductive Unescapes (text : List Char) : Except ParseFault (Char × Nat) → Prop where
  | char {c : Char} {mark rest : List Char} (hText : text = mark ++ rest)
      (hSpells : SpellsChar c ('\\' :: mark)) : Unescapes text (.ok (c, mark.length))
  | fault {fault : ParseFault} (hSpoils : Spoils ('\\' :: text) fault) :
      Unescapes text (.error fault)

/-- What is read behind a backslash and a `u` is as described. -/
theorem unescapes_unit (rest : List Char) : Unescapes ('u' :: rest) (unescape ('u' :: rest)) := by
  have hShort : shortEscape? 'u' = none := rfl
  rw [unescape, hShort]
  simp only [ne_eq, not_true_eq_false, if_false]
  cases hUnit : codeUnit? rest with
  | none => exact .fault (.digits (noUnitNext_iff.mpr hUnit))
  | some unit =>
      obtain ⟨digits, behind, hDigits, rfl⟩ := exists_digits hUnit
      have hLength := length_of_spellsUnit hDigits
      have hBehind : (digits ++ behind).drop 4 = behind := by rw [← hLength, List.drop_left]
      dsimp only
      rw [hBehind]
      by_cases hBegins : BeginsPair unit
      · rw [if_pos (isHighSurrogate_iff.mpr hBegins)]
        cases hOther : escapedUnit? behind with
        | none => exact .fault (.unpaired hDigits hBegins (noUnitNext_iff.mpr hOther))
        | some low =>
            obtain ⟨more, last, hMore, rfl⟩ := exists_escape hOther
            dsimp only
            by_cases hEnds : EndsPair low
            · rw [if_pos (isLowSurrogate_iff.mpr hEnds)]
              have hSpells := spellsChar_pair hDigits hBegins hMore hEnds
              have hText : 'u' :: (digits ++ '\\' :: 'u' :: (more ++ last)) =
                  'u' :: (digits ++ '\\' :: 'u' :: more) ++ last := by simp
              have h := Unescapes.char hText hSpells
              simpa [hLength, length_of_spellsUnit hMore] using h
            · rw [if_neg (mt isLowSurrogate_iff.mp hEnds)]
              exact .fault (.mismatched hDigits hBegins hMore hEnds)
      · rw [if_neg (mt isHighSurrogate_iff.mp hBegins)]
        by_cases hEnds : EndsPair unit
        · rw [if_pos (isLowSurrogate_iff.mpr hEnds)]
          exact .fault (.lone hDigits hEnds)
        · rw [if_neg (mt isLowSurrogate_iff.mp hEnds)]
          have hSpells := spellsChar_unit hDigits hBegins hEnds
          have hText : 'u' :: (digits ++ behind) = 'u' :: digits ++ behind := rfl
          have h := Unescapes.char hText hSpells
          rwa [List.length_cons, hLength] at h

/-- Behind a backslash, a character is read with one of its escapes, or the string is spoiled. -/
theorem unescapes (text : List Char) : Unescapes text (unescape text) := by
  cases text with
  | nil => exact .fault .backslash
  | cons mark rest =>
      by_cases hUnit : mark = 'u'
      · subst hUnit
        exact unescapes_unit rest
      · rw [unescape]
        cases hShort : shortEscape? mark with
        | some c =>
            have hSpells := SpellsChar.short (mem_of_shortEscape? hShort)
            have hText : mark :: rest = [mark] ++ rest := rfl
            exact .char hText hSpells
        | none =>
            simp only [hUnit, ne_eq, not_false_eq_true, if_true]
            apply Unescapes.fault
            apply Spoils.mark hUnit
            intro c hMem
            cases hShort.symm.trans (shortEscape?_of_mem _ hMem)

/-! ### Up to the closing quote -/

/-- What is read behind an opening quote. -/
inductive Closes (text : List Char) : Except ParseFault Lexeme → Prop where
  | string {chars spelling rest : List Char} (hText : text = spelling ++ '"' :: rest)
      (hSpells : QuotesChars chars spelling) :
      Closes text (.ok { kind := .string, text := chars, spelling := spelling ++ ['"'], rest })
  | fault {chars front bad : List Char} {fault : ParseFault} (hText : text = front ++ bad)
      (hSpells : QuotesChars chars front) (hSpoils : Spoils bad fault) : Closes text (.error fault)

/-- What closes a string still does behind one more character. -/
theorem Closes.prepend {c : Char} {first rest : List Char} {result : Except ParseFault Lexeme}
    (h : Closes rest result) (hFirst : QuotesChar c first) :
    Closes (first ++ rest) (result.map (prepend c first)) := by
  cases h with
  | @string chars spelling behind hText hSpells =>
      have hBoth : first ++ rest = first ++ spelling ++ '"' :: behind := by
        rw [hText, List.append_assoc]
      have hClosed := Closes.string hBoth (hSpells.cons hFirst)
      simpa [Except.map, Lexeme.prepend] using hClosed
  | fault hText hSpells hSpoils =>
      exact .fault (by rw [hText, List.append_assoc]) (hSpells.cons hFirst) hSpoils

/-- What is read behind an opening quote is as described. The induction goes along the reading: each
character that is taken is put before what is read behind it. -/
theorem closes (text : List Char) : Closes text (stringTail text) := by
  fun_induction stringTail text with
  | case1 => exact .fault rfl .nil .ending
  | case2 rest => exact .string rfl .nil
  | case3 rest fault hFault =>
      have hUnescapes := unescapes rest
      rw [hFault] at hUnescapes
      cases hUnescapes with
      | fault hSpoils => exact .fault rfl .nil hSpoils
  | case4 rest escaped length hEscaped _ ih =>
      have hUnescapes := unescapes rest
      rw [hEscaped] at hUnescapes
      generalize hRest : rest = text at hUnescapes
      cases hUnescapes with
      | @char c mark behind hText hSpells =>
          subst hText hRest
          rw [List.drop_left] at ih
          rw [List.take_left, List.drop_left]
          exact ih.prepend (.escape hSpells)
  | case5 c rest hQuote hBackslash ih => exact ih.prepend (.plain hQuote hBackslash)

/-! ### Nothing else is read -/

/-- A spoiled escape is refused with its fault. -/
theorem unescape_of_spoils {text : List Char} {fault : ParseFault}
    (h : Spoils ('\\' :: text) fault) : unescape text = .error fault := by
  have hShort : shortEscape? 'u' = none := rfl
  cases h with
  | @unpaired unit digits rest hUnit hBegins hNone =>
      have hHigh := isHighSurrogate_iff.mpr hBegins
      have hRest : (digits ++ rest).drop 4 = rest := by
        rw [← length_of_spellsUnit hUnit, List.drop_left]
      simp [unescape, hShort, codeUnit?_of_spellsUnit hUnit, hHigh, hRest, noUnitNext_iff.mp hNone]
  | @mismatched unit other digits more rest hUnit hBegins hOther hEnds =>
      have hHigh := isHighSurrogate_iff.mpr hBegins
      have hLow := mt isLowSurrogate_iff.mp hEnds
      have hRest : (digits ++ '\\' :: 'u' :: (more ++ rest)).drop 4 =
          '\\' :: 'u' :: (more ++ rest) := by
        rw [← length_of_spellsUnit hUnit, List.drop_left]
      simp [unescape, hShort, codeUnit?_of_spellsUnit hUnit, hHigh, hRest, escapedUnit?,
        codeUnit?_of_spellsUnit hOther, hLow]
  | @lone unit digits rest hUnit hEnds =>
      have hLow := isLowSurrogate_iff.mpr hEnds
      have hHigh : isHighSurrogate unit ≠ true := by
        intro hHigh
        obtain ⟨hStart, -⟩ := hEnds
        obtain ⟨-, hEnd⟩ := isHighSurrogate_iff.mp hHigh
        omega
      simp [unescape, hShort, codeUnit?_of_spellsUnit hUnit, hHigh, hLow]
  | @digits rest hNone =>
      have hUnit : codeUnit? rest = none := noUnitNext_iff.mp hNone
      simp [unescape, hShort, hUnit]
  | @mark mark rest hUnit hNone =>
      have hMark : shortEscape? mark = none := by
        cases hFound : shortEscape? mark with
        | none => rfl
        | some c => exact absurd (mem_of_shortEscape? hFound) (hNone c)
      simp [unescape, hMark, hUnit]
  | backslash => rfl

/-- A spoiled string is refused with its fault. -/
theorem stringTail_of_spoils {text : List Char} {fault : ParseFault} (h : Spoils text fault) :
    stringTail text = .error fault := by
  match text with
  | [] =>
      cases h
      rw [stringTail]
  | c :: rest =>
      have hBackslash : c = '\\' := by cases h <;> rfl
      subst hBackslash
      rw [stringTail, if_neg (by decide), if_pos rfl, unescape_of_spoils h]

/-- The spelling of a character is read as the character. -/
theorem stringTail_of_quotesChar {c : Char} {spelling : List Char} (h : QuotesChar c spelling)
    (rest : List Char) :
    stringTail (spelling ++ rest) = (stringTail rest).map (prepend c spelling) := by
  cases h with
  | plain hQuote hBackslash =>
      rw [List.cons_append, stringTail, if_neg hQuote, if_neg hBackslash, List.nil_append]
  | escape hEscape => exact stringTail_of_spellsChar hEscape rest

/-- Characters that are spelled out come before what is read behind them. -/
theorem stringTail_append {chars front : List Char} (h : QuotesChars chars front)
    (rest : List Char) :
    stringTail (front ++ rest) = (stringTail rest).map fun tail =>
      { tail with text := chars ++ tail.text, spelling := front ++ tail.spelling } := by
  induction h with
  | nil => cases hRest : stringTail rest <;> simp [hRest, Except.map]
  | cons hFirst _ ih =>
      rw [List.append_assoc, stringTail_of_quotesChar hFirst, ih]
      cases stringTail rest <;> simp [Except.map, prepend]

/-- The lexer reads behind an opening quote just what the rules say. -/
theorem closes_iff {text : List Char} {result : Except ParseFault Lexeme} :
    Closes text result ↔ stringTail text = result := by
  constructor
  · intro h
    cases h with
    | string hText hSpells =>
        rw [hText, stringTail_append hSpells, stringTail, if_pos rfl]
        simp [Except.map]
    | fault hText hSpells hSpoils =>
        rw [hText, stringTail_append hSpells, stringTail_of_spoils hSpoils]
        rfl
  · rintro rfl
    exact closes text

end Lexeme

theorem Lexeme.ofText_quote (rest : List Char) :
    ofText '"' rest =
      (stringTail rest).map fun tail => { tail with spelling := '"' :: tail.spelling } := by
  have hMark : TokenKind.ofMark? '"' = none := rfl
  rw [ofText, hMark]
  rfl

/-- Behind some blanks, a quote is read together with what closes behind it. -/
theorem nextToken_quote {blanks rest : List Char} {result : Except ParseFault Lexeme}
    (hBlanks : Document.AreBlanks blanks) (h : Lexeme.Closes rest result) (offset : Nat) :
    nextToken offset (blanks ++ '"' :: rest) =
      match result with
      | .error fault => .error ⟨offset + byteLength blanks, fault⟩
      | .ok tail =>
        .ok ⟨tail.token (offset + byteLength blanks),
          offset + byteLength blanks + byteLength ('"' :: tail.spelling), tail.rest⟩ := by
  rw [Tokens.nextToken_blanks_cons hBlanks rfl, Lexeme.ofText_quote, Lexeme.closes_iff.mp h]
  cases result <;> rfl

/-- A quote starts a string token if and only if spellings of characters and a closing quote come
behind it. The token stands for these characters and ends behind the closing quote. If not, there is
one error at the opening quote, for what comes next behind the spellings that can be read. -/
theorem string_tokens_exact {blanks : List Char} (hBlanks : Document.AreBlanks blanks)
    (offset : Nat) (rest : List Char) :
    let outcome := nextToken offset (blanks ++ '"' :: rest)
    let start := offset + byteLength blanks
    (∀ step, outcome = .ok step ↔ ∃ (text : String) (spelling : List Char),
      Lexeme.QuotesChars text.toList spelling ∧ rest = spelling ++ '"' :: step.rest ∧
        step.token = ⟨.string, text, start⟩ ∧
        step.offset = start + byteLength ('"' :: (spelling ++ ['"']))) ∧
    (∀ error, outcome = .error error ↔ error.position = start ∧ ∃ chars front bad,
      Lexeme.QuotesChars chars front ∧ rest = front ++ bad ∧ Lexeme.Spoils bad error.fault) ∧
    ParseFault.unpairedSurrogate.message = "unpaired surrogate in unicode escape" ∧
    ParseFault.invalidEscape.message = "invalid escape sequence" ∧
    ParseFault.unterminatedString.message = "unterminated string" := by
  intro outcome start
  refine ⟨?_, ?_, rfl, rfl, rfl⟩
  · intro step
    constructor
    · intro h
      have hCloses := Lexeme.closes rest
      generalize Lexeme.stringTail rest = result at hCloses
      rw [show outcome = _ from nextToken_quote hBlanks hCloses offset] at h
      cases hCloses with
      | @string chars spelling behind hText hSpells =>
          cases h
          refine ⟨String.ofList chars, spelling, ?_, hText, rfl, rfl⟩
          rwa [String.toList_ofList]
      | fault => cases h
    · rintro ⟨text, spelling, hSpells, hRest, hToken, hOffset⟩
      obtain ⟨token, offset, behind⟩ := step
      subst hToken hOffset
      rw [show outcome = _ from nextToken_quote hBlanks (.string hRest hSpells) _]
      simp [Lexeme.token, start]
  · intro error
    constructor
    · intro h
      have hCloses := Lexeme.closes rest
      generalize Lexeme.stringTail rest = result at hCloses
      rw [show outcome = _ from nextToken_quote hBlanks hCloses offset] at h
      cases hCloses with
      | string => cases h
      | @fault chars front bad _ hText hSpells hSpoils =>
          cases h
          exact ⟨rfl, chars, front, bad, hSpells, hText, hSpoils⟩
    · rintro ⟨hPosition, chars, front, bad, hSpells, hRest, hSpoils⟩
      obtain ⟨position, fault⟩ := error
      subst hPosition
      exact nextToken_quote hBlanks (.fault hRest hSpells hSpoils) offset

/-- A control character and a pair of code units are read behind a blank. A first code unit without
the second is an error at the quote, although the closing quote comes behind it. -/
theorem string_tokens_exact_sample :
    Document.AreBlanks [' '] ∧
      nextToken 3 ([' '] ++ '"' ::
          ['\x01', '\\', 'u', 'd', '8', '3', 'D', '\\', 'u', 'D', 'E', '0', '0', '"', 'x']) =
        .ok ⟨⟨.string, "\x01😀", 4⟩, 19, ['x']⟩ ∧
      nextToken 3 ([' '] ++ '"' :: ['a', '\\', 'u', 'd', '8', '3', 'D', '"']) =
        .error ⟨4, .unpairedSurrogate⟩ := by
  have hBlanks : Document.AreBlanks [' '] := by decide
  have hHigh : SpellsUnit 0xD83D ['d', '8', '3', 'D'] :=
    @SpellsUnit.mk 13 8 3 13 _ _ _ _ (by decide) (by decide) (by decide) (by decide)
  have hLow : SpellsUnit 0xDE00 ['D', 'E', '0', '0'] :=
    @SpellsUnit.mk 13 14 0 0 _ _ _ _ (by decide) (by decide) (by decide) (by decide)
  refine ⟨hBlanks, ?_, ?_⟩
  · apply ((string_tokens_exact hBlanks 3 _).1 _).mpr
    have hControl : Lexeme.QuotesChar '\x01' ['\x01'] := .plain (by decide) (by decide)
    have hPair : SpellsChar '😀' ('\\' :: _) := .pair (by decide) hHigh hLow
    exact ⟨"\x01😀", _, .cons hControl (.cons (.escape hPair) .nil), rfl, rfl, rfl⟩
  · apply ((string_tokens_exact hBlanks 3 _).2.1 _).mpr
    have hPlain : Lexeme.QuotesChar 'a' ['a'] := .plain (by decide) (by decide)
    have hNone : Lexeme.NoUnitNext ['"'] := Lexeme.noUnitNext_iff.mpr rfl
    exact ⟨rfl, ['a'], _, _, .cons hPlain .nil, rfl, .unpaired hHigh ⟨by decide, by decide⟩ hNone⟩

end PinnedTree
