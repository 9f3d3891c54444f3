import PinnedTree.Token.Lexer

/-!
A lexeme cuts a text in two: its spelling, which is never empty, and the rest.
-/

namespace PinnedTree.Lexeme

/-- A prefix, and then a prefix of what follows it. -/
theorem isPrefix_append {text first second : List Char} (hFirst : first <+: text)
    (hSecond : second <+: text.drop first.length) : first ++ second <+: text := by
  obtain ⟨rest, rfl⟩ := hFirst
  rw [List.drop_left] at hSecond
  exact (List.prefix_append_right_inj first).2 hSecond

theorem stringTail_spelling {text : List Char} {lexeme : Lexeme}
    (hRead : stringTail text = .ok lexeme) :
    lexeme.spelling ++ lexeme.rest = text ∧ lexeme.spelling ≠ [] := by
  fun_induction stringTail text generalizing lexeme with
  | case1 => simp at hRead
  | case2 rest =>
    cases hRead
    simp
  | case3 => simp at hRead
  | case4 rest escaped length hUnescape _ ih =>
    cases hTail : stringTail (rest.drop length) with
    | error fault => simp [hTail, Except.map] at hRead
    | ok inner =>
      simp only [hTail, Except.map, Except.ok.injEq] at hRead
      subst hRead
      simp [prepend, ih hTail]
  | case5 c rest hQuote hBackslash ih =>
    cases hTail : stringTail rest with
    | error fault => simp [hTail, Except.map] at hRead
    | ok inner =>
      simp only [hTail, Except.map, Except.ok.injEq] at hRead
      subst hRead
      simp [prepend, ih hTail]

theorem wholeDigits_eq {text digits : List Char} (hRead : wholeDigits text = .ok digits) :
    digits = text.takeWhile Char.isDigit := by
  simp only [wholeDigits] at hRead
  split at hRead
  · simp at hRead
  · exact (Except.ok.inj hRead).symm

theorem fractionPart_isPrefix {text part : List Char} (hRead : fractionPart text = .ok part) :
    part <+: text := by
  cases text with
  | nil => simp_all [fractionPart]
  | cons c rest =>
    simp only [fractionPart] at hRead
    split at hRead
    · simp_all
    · split at hRead
      · simp at hRead
      · cases hRead
        exact List.cons_prefix_cons.2 ⟨rfl, List.takeWhile_prefix _⟩

theorem exponentSign_isPrefix (text : List Char) : exponentSign text <+: text := by
  cases text with
  | nil => simp [exponentSign]
  | cons c rest =>
    simp only [exponentSign, List.take_succ_cons, List.take_zero, List.filter_cons]
    split <;> simp

theorem exponentPart_isPrefix {text part : List Char} (hRead : exponentPart text = .ok part) :
    part <+: text := by
  cases text with
  | nil => simp_all [exponentPart]
  | cons c rest =>
    simp only [exponentPart] at hRead
    split at hRead
    · simp_all
    · split at hRead
      · simp at hRead
      · cases hRead
        refine List.cons_prefix_cons.2 ⟨rfl, isPrefix_append (exponentSign_isPrefix rest) ?_⟩
        exact List.takeWhile_prefix _

theorem minusSign_isPrefix (text : List Char) : (text.take 1).filter (· = '-') <+: text := by
  cases text with
  | nil => simp
  | cons c rest =>
    simp only [List.take_succ_cons, List.take_zero, List.filter_cons]
    split <;> simp

/-- A number is spelled by the characters at the start of the text, at least one of them. -/
theorem numberSpelling_isPrefix {c : Char} {rest spelling : List Char}
    (hStart : startsNumber c rest = true) (hRead : numberSpelling (c :: rest) = .ok spelling) :
    spelling <+: c :: rest ∧ spelling ≠ [] := by
  simp only [numberSpelling, bind, Except.bind] at hRead
  split at hRead
  · simp at hRead
  rename_i whole hReadWhole
  split at hRead
  · simp at hRead
  rename_i fraction hFraction
  split at hRead
  · simp at hRead
  rename_i exponent hExponent
  cases hRead
  have hWhole := wholeDigits_eq hReadWhole
  constructor
  · refine isPrefix_append (isPrefix_append (isPrefix_append (minusSign_isPrefix _) ?_) ?_) ?_
    · rw [hWhole]
      exact List.takeWhile_prefix _
    · exact fractionPart_isPrefix hFraction
    · exact exponentPart_isPrefix hExponent
  · intro hEmpty
    simp only [List.append_eq_nil_iff] at hEmpty
    obtain ⟨⟨⟨hSign, hDigits⟩, -⟩, -⟩ := hEmpty
    subst hDigits
    by_cases hMinus : c = '-'
    · simp [hMinus] at hSign
    · have hDigit : c.isDigit = true := by simpa [startsNumber, hMinus] using hStart
      simp [hMinus, hDigit] at hWhole

/-- A token's spelling and the rest make up the text, and the spelling is not empty. -/
theorem ofText_spelling {c : Char} {rest : List Char} {lexeme : Lexeme}
    (hRead : ofText c rest = .ok lexeme) :
    lexeme.spelling ++ lexeme.rest = c :: rest ∧ lexeme.spelling ≠ [] := by
  unfold ofText at hRead
  split at hRead
  · cases hRead
    simp
  split at hRead
  · cases hTail : stringTail rest with
    | error fault => simp [hTail, Except.map] at hRead
    | ok inner =>
      simp only [hTail, Except.map, Except.ok.injEq] at hRead
      subst hRead
      simp [stringTail_spelling hTail]
  split at hRead
  · rename_i hStart
    cases hNumber : numberSpelling (c :: rest) with
    | error fault => simp [hNumber, Except.map] at hRead
    | ok spelling =>
      simp only [hNumber, Except.map, Except.ok.injEq] at hRead
      subst hRead
      obtain ⟨⟨tail, hSplit⟩, hSome⟩ := numberSpelling_isPrefix hStart hNumber
      refine ⟨?_, hSome⟩
      simp [← hSplit]
  split at hRead
  · rename_i hWord
    cases hRead
    refine ⟨List.takeWhile_append_dropWhile, ?_⟩
    simp [hWord]
  · simp at hRead

/-- A token leaves less text than there was. -/
theorem ofText_rest_lt {c : Char} {rest : List Char} {lexeme : Lexeme}
    (hRead : ofText c rest = .ok lexeme) : lexeme.rest.length < rest.length + 1 := by
  obtain ⟨hText, hSome⟩ := ofText_spelling hRead
  have hLengths := congrArg List.length hText
  have hPos := List.length_pos_iff.2 hSome
  simp only [List.length_append, List.length_cons] at hLengths
  omega

end PinnedTree.Lexeme
