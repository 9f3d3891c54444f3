import PinnedTree.Token.Lexer

/-! JSON numbers by their parts. A number that is spelled by its parts is one lexeme, whatever
follows it, as long as that does not go on with the number; and it is read as the numeral of these
parts. -/
namespace PinnedTree

namespace Text

/-- A text does not go on with a character of the class. -/
def StopsAt (p : Char → Bool) (rest : List Char) : Prop :=
  ∀ c ∈ rest.head?, p c = false

theorem stopsAt_nil (p : Char → Bool) : StopsAt p [] := by
  intro c h
  cases h

theorem stopsAt_cons {p : Char → Bool} {c : Char} (h : p c = false) (rest : List Char) :
    StopsAt p (c :: rest) := by
  intro first hFirst
  cases hFirst
  exact h

/-- A run of a class is taken up to where the text stops being of the class. -/
theorem takeWhile_append {p : Char → Bool} {run rest : List Char} (hRun : ∀ c ∈ run, p c = true)
    (hRest : StopsAt p rest) : (run ++ rest).takeWhile p = run := by
  rw [List.takeWhile_append_of_pos hRun]
  cases rest with
  | nil => simp
  | cons c rest => simp [hRest c rfl]

/-- Behind a run of a class stands what the text goes on with. -/
theorem dropWhile_append {p : Char → Bool} {run rest : List Char} (hRun : ∀ c ∈ run, p c = true)
    (hRest : StopsAt p rest) : (run ++ rest).dropWhile p = rest := by
  rw [List.dropWhile_append_of_pos hRun]
  cases rest with
  | nil => rfl
  | cons c rest => simp [hRest c rfl]

theorem takeWhile_of_stopsAt {p : Char → Bool} {rest : List Char} (h : StopsAt p rest) :
    rest.takeWhile p = [] := by
  have hRun : ∀ c ∈ ([] : List Char), p c = true := nofun
  exact takeWhile_append hRun h

def IsDigits (text : List Char) : Prop :=
  text ≠ [] ∧ ∀ c ∈ text, c.isDigit = true

instance (text : List Char) : Decidable (IsDigits text) :=
  decidable_of_iff (text ≠ [] ∧ text.all Char.isDigit = true) (by rw [IsDigits, List.all_eq_true])

theorem natural?_of_isDigits {text : List Char} (h : IsDigits text) :
    natural? text = some (digitsValue text) := by
  rw [natural?, if_pos ⟨h.1, List.all_eq_true.mpr h.2⟩]

end Text

open Text

/-- The exponent of a number as it is spelled. -/
structure ExponentParts where
  mark : Char
  sign : List Char
  digits : List Char

namespace ExponentParts

structure WellSpelled (parts : ExponentParts) : Prop where
  mark : parts.mark = 'e' ∨ parts.mark = 'E'
  sign : parts.sign = [] ∨ parts.sign = ['+'] ∨ parts.sign = ['-']
  digits : IsDigits parts.digits

def spell (parts : ExponentParts) : List Char :=
  parts.mark :: (parts.sign ++ parts.digits)

def value (parts : ExponentParts) : Int :=
  if parts.sign = ['-'] then -(digitsValue parts.digits : Int) else digitsValue parts.digits

end ExponentParts

/-- A number as it is spelled: perhaps a minus, whole digits, and perhaps a fraction and an
exponent. -/
structure NumberParts where
  negative : Bool
  whole : List Char
  fraction : Option (List Char)
  exponent : Option ExponentParts

namespace NumberParts

/-- There are digits wherever digits are due, and a zero does not lead other whole digits. -/
structure WellSpelled (parts : NumberParts) : Prop where
  whole : IsDigits parts.whole
  noLeadingZero : parts.whole.head? = some '0' → parts.whole = ['0']
  fraction : ∀ digits ∈ parts.fraction, IsDigits digits
  exponent : ∀ exponent ∈ parts.exponent, exponent.WellSpelled

def signText (parts : NumberParts) : List Char :=
  if parts.negative then ['-'] else []

def fractionText (parts : NumberParts) : List Char :=
  parts.fraction.elim [] fun digits => '.' :: digits

def exponentText (parts : NumberParts) : List Char :=
  parts.exponent.elim [] ExponentParts.spell

def spell (parts : NumberParts) : List Char :=
  parts.signText ++ (parts.whole ++ (parts.fractionText ++ parts.exponentText))

def numeral (parts : NumberParts) : Numeral where
  negative := parts.negative
  whole := parts.whole
  fraction := parts.fraction
  exponent := parts.exponent.map ExponentParts.value

def continues (c : Char) : Bool :=
  c.isDigit || c = '.' || c = 'e' || c = 'E'

variable {parts : NumberParts} {rest : List Char}

theorem stopsAt_isDigit (h : StopsAt continues rest) : StopsAt Char.isDigit rest := by
  intro c hc
  have hStop := h c hc
  simp only [continues, Bool.or_eq_false_iff] at hStop
  exact hStop.1.1.1

/-- What stands behind a fraction does not start with a digit. -/
theorem exponentText_stops (hParts : parts.WellSpelled) (hRest : StopsAt continues rest) :
    StopsAt Char.isDigit (parts.exponentText ++ rest) := by
  cases hExponent : parts.exponent with
  | none => simpa [exponentText, hExponent] using stopsAt_isDigit hRest
  | some exponent =>
      rw [exponentText, hExponent]
      refine stopsAt_cons ?_ _
      rcases (hParts.exponent exponent hExponent).mark with h | h <;> rw [h] <;> rfl

/-- What stands behind the whole digits does not start with a digit. -/
theorem fractionText_stops (hParts : parts.WellSpelled) (hRest : StopsAt continues rest) :
    StopsAt Char.isDigit (parts.fractionText ++ (parts.exponentText ++ rest)) := by
  cases hFraction : parts.fraction with
  | none => simpa [fractionText, hFraction] using exponentText_stops hParts hRest
  | some digits =>
      rw [fractionText, hFraction]
      exact stopsAt_cons rfl _

theorem whole_eq_cons (hParts : parts.WellSpelled) :
    ∃ digit others, parts.whole = digit :: others ∧ digit.isDigit = true := by
  cases hWhole : parts.whole with
  | nil => exact absurd hWhole hParts.whole.1
  | cons digit others =>
      exact ⟨digit, others, rfl, hParts.whole.2 digit (hWhole ▸ List.mem_cons_self)⟩

theorem ne_of_isDigit {c other : Char} (h : c.isDigit = true) (hOther : other.isDigit = false) :
    c ≠ other := by
  rintro rfl
  rw [h] at hOther
  cases hOther

/-! ### As a lexeme -/

/-- The lexer takes the whole digits of a number. -/
theorem wholeDigits_append (hParts : parts.WellSpelled) (hRest : StopsAt Char.isDigit rest) :
    Lexeme.wholeDigits (parts.whole ++ rest) = .ok parts.whole := by
  rw [Lexeme.wholeDigits, takeWhile_append hParts.whole.2 hRest]
  refine if_neg fun h => h.2 ?_
  rw [hParts.noLeadingZero h.1]
  rfl

theorem exponentSign_append {exponent : ExponentParts} (h : exponent.WellSpelled)
    (rest : List Char) :
    Lexeme.exponentSign (exponent.sign ++ (exponent.digits ++ rest)) = exponent.sign := by
  rcases h.sign with hSign | hSign | hSign
  · obtain ⟨digit, others, hDigits⟩ := List.exists_cons_of_ne_nil h.digits.1
    have hDigit := h.digits.2 digit (hDigits ▸ List.mem_cons_self)
    have hPlus : digit ≠ '+' := ne_of_isDigit hDigit rfl
    have hMinus : digit ≠ '-' := ne_of_isDigit hDigit rfl
    simp [hSign, hDigits, Lexeme.exponentSign, hPlus, hMinus]
  · rw [hSign]
    rfl
  · rw [hSign]
    rfl

/-- An exponent is cut off together with all digits behind it. -/
theorem exponentPart_spell {exponent : ExponentParts} (h : exponent.WellSpelled)
    (rest : List Char) :
    Lexeme.exponentPart (exponent.spell ++ rest) =
      .ok (exponent.spell ++ rest.takeWhile Char.isDigit) := by
  have hMark : ¬(exponent.mark ≠ 'e' ∧ exponent.mark ≠ 'E') := fun hOther =>
    h.mark.elim hOther.1 hOther.2
  have hDigits : (exponent.digits ++ rest).takeWhile Char.isDigit =
      exponent.digits ++ rest.takeWhile Char.isDigit :=
    List.takeWhile_append_of_pos h.digits.2
  have hSome : exponent.digits ++ rest.takeWhile Char.isDigit ≠ [] :=
    List.append_ne_nil_of_left_ne_nil h.digits.1 _
  rw [ExponentParts.spell, List.cons_append, List.append_assoc, Lexeme.exponentPart, if_neg hMark]
  simp only [exponentSign_append h, List.drop_left, hDigits, hSome, if_false]
  simp

theorem exponentPart_of_stopsAt (h : StopsAt continues rest) :
    Lexeme.exponentPart rest = .ok [] := by
  cases rest with
  | nil => rfl
  | cons c rest =>
      have hStop := h c rfl
      simp only [continues, Bool.or_eq_false_iff, decide_eq_false_iff_not] at hStop
      exact if_pos ⟨hStop.1.2, hStop.2⟩

/-- The lexer takes the exponent of a number. -/
theorem exponentPart_append (hParts : parts.WellSpelled) (hRest : StopsAt continues rest) :
    Lexeme.exponentPart (parts.exponentText ++ rest) = .ok parts.exponentText := by
  cases hExponent : parts.exponent with
  | none =>
      rw [exponentText, hExponent, Option.elim_none, List.nil_append]
      exact exponentPart_of_stopsAt hRest
  | some exponent =>
      rw [exponentText, hExponent, Option.elim_some,
        exponentPart_spell (hParts.exponent exponent hExponent),
        takeWhile_of_stopsAt (stopsAt_isDigit hRest), List.append_nil]

/-- A fraction is cut off together with all digits behind it. -/
theorem fractionPart_point {digits : List Char} (h : IsDigits digits) (rest : List Char) :
    Lexeme.fractionPart ('.' :: (digits ++ rest)) =
      .ok ('.' :: (digits ++ rest.takeWhile Char.isDigit)) := by
  have hDigits : (digits ++ rest).takeWhile Char.isDigit =
      digits ++ rest.takeWhile Char.isDigit :=
    List.takeWhile_append_of_pos h.2
  have hSome : digits ++ rest.takeWhile Char.isDigit ≠ [] :=
    List.append_ne_nil_of_left_ne_nil h.1 _
  rw [Lexeme.fractionPart, if_neg (by simp)]
  simp only [hDigits, hSome, if_false]

theorem fractionPart_of_stopsAt (h : StopsAt (fun c => decide (c = '.')) rest) :
    Lexeme.fractionPart rest = .ok [] := by
  cases rest with
  | nil => rfl
  | cons c rest => exact if_pos (of_decide_eq_false (h c rfl))

/-- A fraction ends where neither a digit nor, without a fraction, a point follows. -/
theorem fractionPart_fractionText (hParts : parts.WellSpelled) (hDigit : StopsAt Char.isDigit rest)
    (hPoint : StopsAt (fun c => decide (c = '.')) rest) :
    Lexeme.fractionPart (parts.fractionText ++ rest) = .ok parts.fractionText := by
  cases hFraction : parts.fraction with
  | none =>
      rw [fractionText, hFraction, Option.elim_none, List.nil_append]
      exact fractionPart_of_stopsAt hPoint
  | some digits =>
      rw [fractionText, hFraction, Option.elim_some, List.cons_append,
        fractionPart_point (hParts.fraction digits hFraction), takeWhile_of_stopsAt hDigit,
        List.append_nil]

theorem exponentText_stops_point (hParts : parts.WellSpelled) (hRest : StopsAt continues rest) :
    StopsAt (fun c => decide (c = '.')) (parts.exponentText ++ rest) := by
  cases hExponent : parts.exponent with
  | none =>
      rw [exponentText, hExponent]
      intro c hc
      have hStop := hRest c hc
      simp only [continues, Bool.or_eq_false_iff] at hStop
      exact hStop.1.1.2
  | some exponent =>
      rw [exponentText, hExponent]
      apply stopsAt_cons
      rcases (hParts.exponent exponent hExponent).mark with h | h <;> rw [h] <;> rfl

/-- The lexer takes the fraction of a number. -/
theorem fractionPart_append (hParts : parts.WellSpelled) (hRest : StopsAt continues rest) :
    Lexeme.fractionPart (parts.fractionText ++ (parts.exponentText ++ rest)) =
      .ok parts.fractionText :=
  fractionPart_fractionText hParts (exponentText_stops hParts hRest)
    (exponentText_stops_point hParts hRest)

theorem signText_append (hParts : parts.WellSpelled) (rest : List Char) :
    ((parts.signText ++ (parts.whole ++ rest)).take 1).filter (· = '-') = parts.signText := by
  obtain ⟨digit, others, hWhole, hDigit⟩ := whole_eq_cons hParts
  have hMinus : digit ≠ '-' := ne_of_isDigit hDigit rfl
  cases hNegative : parts.negative with
  | false => simp [signText, hNegative, hWhole, hMinus]
  | true => simp [signText, hNegative]

/-- What follows a number does not change how it is cut off. -/
theorem numberSpelling_spell (hParts : parts.WellSpelled) (hRest : StopsAt continues rest) :
    Lexeme.numberSpelling (parts.spell ++ rest) = .ok parts.spell := by
  have hText : parts.spell ++ rest = parts.signText ++
      (parts.whole ++ (parts.fractionText ++ (parts.exponentText ++ rest))) := by
    simp only [spell, List.append_assoc]
  have hWhole : (parts.signText ++ parts.whole).length =
      parts.signText.length + parts.whole.length := List.length_append
  have hFraction : (parts.signText ++ parts.whole ++ parts.fractionText).length =
      parts.signText.length + (parts.whole.length + parts.fractionText.length) := by
    rw [List.length_append, hWhole, Nat.add_assoc]
  rw [Lexeme.numberSpelling, hText]
  simp only [signText_append hParts, List.drop_left,
    wholeDigits_append hParts (fractionText_stops hParts hRest), bind, Except.bind, hWhole,
    ← List.drop_drop, fractionPart_append hParts hRest, hFraction,
    exponentPart_append hParts hRest]
  simp only [spell, List.append_assoc]
  rfl

theorem ofMark?_of_isDigit {c : Char} (h : c.isDigit = true) : TokenKind.ofMark? c = none := by
  have hMark : ∀ mark : Char, mark.isDigit = false → c ≠ mark :=
    fun mark hOther => ne_of_isDigit h hOther
  simp [TokenKind.ofMark?, hMark '{' rfl, hMark '}' rfl, hMark '[' rfl, hMark ']' rfl,
    hMark ',' rfl, hMark ':' rfl]

/-- A number starts with a minus and a digit, or with a digit. -/
theorem startsNumber_spell (hParts : parts.WellSpelled) :
    ∃ c tail, parts.spell = c :: tail ∧ Lexeme.isBlank c = false ∧ TokenKind.ofMark? c = none ∧
      c ≠ '"' ∧ ∀ rest, Lexeme.startsNumber c (tail ++ rest) = true := by
  obtain ⟨digit, others, hWhole, hDigit⟩ := whole_eq_cons hParts
  cases hNegative : parts.negative with
  | true =>
      refine ⟨'-', _, by rw [spell, signText, hNegative]; rfl, rfl, rfl, by decide, fun rest => ?_⟩
      simp [Lexeme.startsNumber, hWhole, hDigit]
  | false =>
      refine ⟨digit, _, by rw [spell, signText, hNegative, hWhole]; rfl, ?_,
        ofMark?_of_isDigit hDigit, ne_of_isDigit hDigit rfl, fun rest => ?_⟩
      · have hBlank : ∀ blank : Char, blank.isDigit = false → digit ≠ blank :=
          fun blank hOther => ne_of_isDigit hDigit hOther
        simp [Lexeme.isBlank, hBlank ' ' rfl, hBlank '\t' rfl, hBlank '\n' rfl, hBlank '\r' rfl]
      · simp [Lexeme.startsNumber, hDigit]

/-! ### As a numeral -/

/-- The sign and the digits of an exponent are read as its value. -/
theorem integer?_exponent {exponent : ExponentParts} (h : exponent.WellSpelled) :
    integer? (exponent.sign ++ exponent.digits) = some exponent.value := by
  rcases h.sign with hSign | hSign | hSign
  · obtain ⟨digit, others, hDigits⟩ := List.exists_cons_of_ne_nil h.digits.1
    have hDigit := h.digits.2 digit (hDigits ▸ List.mem_cons_self)
    have hSplit : splitSign exponent.digits = (false, exponent.digits) := by
      rw [hDigits, splitSign, if_neg (ne_of_isDigit hDigit rfl),
        if_neg (ne_of_isDigit hDigit rfl)]
    simp [integer?, hSign, hSplit, natural?_of_isDigits h.digits, ExponentParts.value]
  · simp [integer?, hSign, splitSign, natural?_of_isDigits h.digits, ExponentParts.value]
  · simp [integer?, hSign, splitSign, natural?_of_isDigits h.digits, ExponentParts.value]

/-- A number is split behind its sign. -/
theorem splitSign_spell (hParts : parts.WellSpelled) :
    splitSign parts.spell =
      (parts.negative, parts.whole ++ (parts.fractionText ++ parts.exponentText)) := by
  cases hNegative : parts.negative with
  | true => simp [spell, signText, hNegative, splitSign]
  | false =>
      obtain ⟨digit, others, hWhole, hDigit⟩ := whole_eq_cons hParts
      rw [spell, signText, hNegative, hWhole, if_neg (by decide), List.nil_append,
        List.cons_append, splitSign, if_neg (ne_of_isDigit hDigit rfl),
        if_neg (ne_of_isDigit hDigit rfl)]

/-- A number without its sign is split around its point. -/
theorem splitPoint_spell (hParts : parts.WellSpelled) :
    Numeral.splitPoint (parts.whole ++ (parts.fractionText ++ parts.exponentText)) =
      (parts.whole, parts.fraction, parts.exponentText) := by
  have hStops := fractionText_stops hParts (stopsAt_nil _)
  rw [List.append_nil] at hStops
  rw [Numeral.splitPoint, takeWhile_append hParts.whole.2 hStops,
    dropWhile_append hParts.whole.2 hStops]
  cases hFraction : parts.fraction with
  | some digits =>
      have hDigits := (hParts.fraction digits hFraction).2
      have hExponent := exponentText_stops hParts (stopsAt_nil _)
      rw [List.append_nil] at hExponent
      simp [fractionText, hFraction, takeWhile_append hDigits hExponent,
        dropWhile_append hDigits hExponent]
  | none =>
      rw [fractionText, hFraction, Option.elim_none, List.nil_append]
      cases hExponent : parts.exponent with
      | none => simp [exponentText, hExponent]
      | some exponent =>
          have hMark : exponent.mark ≠ '.' := by
            rcases (hParts.exponent exponent hExponent).mark with h | h <;> rw [h] <;> decide
          simp [exponentText, hExponent, ExponentParts.spell, hMark]

/-- A number is read as the numeral of its parts. -/
theorem read?_spell (hParts : parts.WellSpelled) :
    Numeral.read? parts.spell = some parts.numeral := by
  rw [Numeral.read?, splitSign_spell hParts]
  simp only [splitPoint_spell hParts, hParts.whole.1, false_and, if_false]
  cases hExponent : parts.exponent with
  | none => simp [exponentText, hExponent, numeral]
  | some exponent =>
      have hSpelled := hParts.exponent exponent hExponent
      simp only [exponentText, hExponent, Option.elim_some, ExponentParts.spell,
        hSpelled.mark, if_true, integer?_exponent hSpelled, Option.map_some]
      rw [numeral, hExponent, Option.map_some]

end NumberParts

end PinnedTree
