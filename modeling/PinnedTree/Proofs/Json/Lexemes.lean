import PinnedTree.Proofs.Json.Characters
import PinnedTree.Proofs.Number.Float
import PinnedTree.Token.Stream

/-! The lexemes of compact JSON text. Every atom is written so that it is cut off as one lexeme: a
string is unescaped to its own characters, and a word or a number ends where a blank or a mark
follows. -/
namespace PinnedTree

open Text

namespace Lexeme

/-- The text ends, or goes on with a blank or a mark, so that no word or number goes on. -/
def Separated (rest : List Char) : Prop :=
  ∀ c ∈ rest.head?, isBlank c = true ∨ (TokenKind.ofMark? c).isSome = true

theorem separated_nil : Separated [] := by
  intro c h
  cases h

theorem separated_mark {c : Char} {kind : TokenKind} (h : TokenKind.ofMark? c = some kind)
    (rest : List Char) : Separated (c :: rest) := by
  intro first hFirst
  cases hFirst
  exact Or.inr (by rw [h]; rfl)

/-- The characters that separate are the blanks and the marks. -/
theorem separator_cases {c : Char} (h : isBlank c = true ∨ (TokenKind.ofMark? c).isSome = true) :
    c ∈ [' ', '\t', '\n', '\r', '{', '}', '[', ']', ',', ':'] := by
  rcases h with h | h
  · simp only [isBlank, Bool.or_eq_true, decide_eq_true_eq] at h
    rcases h with ((rfl | rfl) | rfl) | rfl <;> decide
  · simp only [TokenKind.ofMark?] at h
    repeat' split at h
    all_goals first | (subst_vars; decide) | cases h

theorem Separated.stopsAt {p : Char → Bool} {rest : List Char} (h : Separated rest)
    (hStop : [' ', '\t', '\n', '\r', '{', '}', '[', ']', ',', ':'].any p = false) :
    StopsAt p rest := by
  intro c hc
  have hNone := List.any_eq_false.mp hStop c (separator_cases (h c hc))
  exact eq_false_of_ne_true hNone

/-- A number does not go on behind a separator. -/
theorem Separated.stopsAt_number {rest : List Char} (h : Separated rest) :
    StopsAt NumberParts.continues rest :=
  h.stopsAt (by decide)

/-- A word does not go on behind a separator. -/
theorem Separated.stopsAt_word {rest : List Char} (h : Separated rest) :
    StopsAt isWordCharacter rest :=
  h.stopsAt (by decide)

/-- The lexer reads a string that is written as its characters. -/
theorem ofText_string (text : String) (rest : List Char) :
    ofText '"' (text.toList.flatMap Json.escape ++ '"' :: rest) =
      .ok { kind := .string, text := text.toList, spelling := Json.writeString text, rest } :=
  ofText_of_spellsChars (Json.spells_flatMap_escape text.toList) rest

/-- The lexer reads a number up to its end. -/
theorem ofText_number {parts : NumberParts} {c : Char} {tail rest : List Char}
    (hParts : parts.WellSpelled) (hSpell : parts.spell = c :: tail)
    (hRest : StopsAt NumberParts.continues rest) :
    ofText c (tail ++ rest) =
      .ok { kind := .number, text := parts.spell, spelling := parts.spell, rest } := by
  obtain ⟨first, others, hFirst, -, hMark, hQuote, hStarts⟩ := NumberParts.startsNumber_spell hParts
  rw [hSpell] at hFirst
  cases hFirst
  have hSpelling := NumberParts.numberSpelling_spell hParts hRest
  rw [hSpell, List.cons_append] at hSpelling
  rw [ofText, hMark]
  simp only [hQuote, if_false, hStarts rest, if_true, hSpelling, Except.map, hSpell]
  rw [← List.cons_append, List.drop_left]

/-- The lexer reads a bare word up to its end. -/
theorem ofText_word {c : Char} {tail rest : List Char} (hMark : TokenKind.ofMark? c = none)
    (hQuote : c ≠ '"') (hDigit : c.isDigit = false) (hMinus : c ≠ '-')
    (hWord : (c :: tail).all isWordCharacter = true)
    (hRest : StopsAt isWordCharacter rest) :
    ofText c (tail ++ rest) =
      .ok { kind := TokenKind.ofWord (c :: tail), text := c :: tail, spelling := c :: tail,
            rest } := by
  have hStarts : startsNumber c (tail ++ rest) = false := by simp [startsNumber, hDigit, hMinus]
  have hWord := List.all_eq_true.mp hWord
  rw [ofText, hMark]
  simp only [hQuote, if_false, hStarts, hWord c List.mem_cons_self, if_true, Bool.false_eq_true]
  rw [← List.cons_append, takeWhile_append hWord hRest, dropWhile_append hWord hRest]

end Lexeme

end PinnedTree
