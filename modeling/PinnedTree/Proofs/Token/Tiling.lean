import PinnedTree.Proofs.Number.Longest
import PinnedTree.Proofs.Token.Reached
import PinnedTree.Proofs.Token.Strings

/-! A text is its tokens and the blanks between them. One reading cuts some blanks and a token off
the text, or finds behind the blanks that nothing is left or that a token is misspelled. From the
start of the text on, each reading goes on where the one before it has ended. -/
namespace PinnedTree

open Text
open Document (AreBlanks)

/-! ### Places in a text -/

theorem utf8ByteSize_ofList (chars : List Char) :
    (String.ofList chars).utf8ByteSize = byteLength chars := by
  induction chars with
  | nil => rfl
  | cons c chars ih =>
      have hCons : String.ofList (c :: chars) = String.singleton c ++ String.ofList chars := by
        rw [String.singleton_eq_ofList, ← String.ofList_append]
        rfl
      rw [hCons, String.utf8ByteSize_append, String.utf8ByteSize_singleton, ih, byteLength_cons]

theorem byteLength_toList (text : String) : byteLength text.toList = text.utf8ByteSize := by
  rw [← utf8ByteSize_ofList, String.ofList_toList]

theorem byteLength_pos {chars : List Char} (h : chars ≠ []) : 0 < byteLength chars := by
  cases chars with
  | nil => exact absurd rfl h
  | cons c chars =>
      have hPos := c.utf8Size_pos
      rw [byteLength_cons]
      omega

/-- A byte of a text, or its end, at which a character can start. -/
structure OnBoundary (text : String) (position : Nat) : Prop where
  le : position ≤ text.utf8ByteSize
  valid : (String.Pos.Raw.mk position).IsValid text

/-- The text falls into two at such a place. -/
theorem onBoundary_iff {text : String} {position : Nat} :
    OnBoundary text position ↔
      ∃ front back, text.toList = front ++ back ∧ position = byteLength front := by
  constructor
  · intro h
    obtain ⟨front, back, hText, hPosition⟩ := String.Pos.Raw.isValid_iff_exists_append.mp h.valid
    refine ⟨front.toList, back.toList, by rw [hText, String.toList_append], ?_⟩
    rw [byteLength_toList]
    exact congrArg String.Pos.Raw.byteIdx hPosition
  · rintro ⟨front, back, hText, rfl⟩
    have hValid : (String.Pos.Raw.mk (byteLength front)).IsValid text := by
      apply String.Pos.Raw.isValid_iff_exists_append.mpr
      refine ⟨String.ofList front, String.ofList back, ?_, ?_⟩
      · rw [← String.ofList_append, ← hText, String.ofList_toList]
      · rw [← utf8ByteSize_ofList]
        rfl
    exact ⟨hValid.le_utf8ByteSize, hValid⟩

/-- The end of a text is on a boundary. -/
theorem onBoundary_utf8ByteSize (text : String) : OnBoundary text text.utf8ByteSize :=
  onBoundary_iff.mpr ⟨text.toList, [], (List.append_nil _).symm, (byteLength_toList text).symm⟩

/-! ### Misspelled tokens -/

namespace Lexeme

/-- What is wrong with a string is a fault of spelling. -/
theorem Spoils.isLexical {text : List Char} {fault : ParseFault} (h : Spoils text fault) :
    fault.isLexical = true := by
  cases h <;> rfl

/-- What is wrong with a number is a fault of spelling. -/
theorem Malformed.isLexical {text : List Char} {fault : ParseFault} (h : Malformed text fault) :
    fault.isLexical = true := by
  cases h <;> rfl

/-- What is wrong at the start of a token is wrong with the token. -/
theorem isLexical_of_ofText {c : Char} {rest : List Char} {fault : ParseFault}
    (h : ofText c rest = .error fault) : fault.isLexical = true := by
  rw [ofText] at h
  split at h
  · cases h
  · split at h
    · have hCloses := closes rest
      cases hTail : stringTail rest with
      | ok tail =>
          rw [hTail] at h
          cases h
      | error found =>
          rw [hTail] at h hCloses
          cases h
          cases hCloses with
          | fault _ _ hSpoils => exact hSpoils.isLexical
    · split at h
      · rename_i hStarts
        cases hNumber : numberSpelling (c :: rest) with
        | ok spelling =>
            rw [hNumber] at h
            cases h
        | error found =>
            rw [hNumber] at h
            cases h
            exact (malformed_of_error hStarts hNumber).isLexical
      · split at h
        · cases h
        · cases h
          rfl

/-- Only a string is spelled by other characters than those that it stands for. -/
theorem text_eq_spelling {c : Char} {rest : List Char} {lexeme : Lexeme}
    (h : ofText c rest = .ok lexeme) (hKind : lexeme.kind ≠ .string) :
    lexeme.text = lexeme.spelling := by
  rw [ofText] at h
  split at h
  · cases h
    rfl
  · split at h
    · obtain ⟨tail, hTail, rfl⟩ := exists_of_map_eq_ok h
      exact absurd (kind_stringTail hTail) hKind
    · split at h
      · obtain ⟨spelling, -, rfl⟩ := exists_of_map_eq_ok h
        rfl
      · split at h
        · cases h
          rfl
        · cases h

/-- Every text starts with some blanks, and with no more of them behind these. -/
theorem exists_blanks (text : List Char) :
    ∃ blanks, AreBlanks blanks ∧ text = blanks ++ text.dropWhile isBlank ∧
      (∀ offset, tokenStart offset text = offset + byteLength blanks) ∧
      ∀ c rest, text.dropWhile isBlank = c :: rest → isBlank c = false := by
  refine ⟨text.takeWhile isBlank, ?_, List.takeWhile_append_dropWhile.symm, fun _ => rfl, ?_⟩
  · intro c hc
    have hBlank := List.all_eq_true.mp List.all_takeWhile c hc
    simpa [isBlank, or_assoc] using hBlank
  · intro c rest hRest
    have hFirst := List.head?_dropWhile_not isBlank text
    rwa [hRest] at hFirst

end Lexeme

/-! ### Pieces of a text -/

/-- A token of a text, with the blanks before it and the characters that spell it. -/
structure Piece where
  blanks : List Char
  token : Token
  spelling : List Char

namespace Piece

def text (piece : Piece) : List Char :=
  piece.blanks ++ piece.spelling

/-- The token starts behind the blanks, of which the first is the byte `offset`. It is spelled by at
least one character, and all but strings are spelled by their text. -/
structure StartsAt (piece : Piece) (offset : Nat) : Prop where
  blanks : AreBlanks piece.blanks
  spelled : piece.spelling ≠ []
  written : piece.token.kind ≠ .string → piece.token.text.toList = piece.spelling
  start : piece.token.start = offset + byteLength piece.blanks
  kind : piece.token.kind ≠ .ending

/-- A token starts before its piece ends. -/
theorem StartsAt.start_lt {piece : Piece} {offset : Nat} (h : piece.StartsAt offset) :
    piece.token.start < offset + byteLength piece.text := by
  have hPos := byteLength_pos h.spelled
  rw [h.start, text, byteLength_append]
  omega

end Piece

/-- A text that starts at the byte `offset` is read piece by piece. Each piece is cut off what the
ones before it have left, until there are only blanks left or a token is misspelled. -/
inductive Tiled : (offset : Nat) → (text : List Char) → List Piece → Except ParseError Nat → Prop
    where
  | ending {offset position : Nat} {blanks : List Char} (hBlanks : AreBlanks blanks)
      (hPosition : position = offset + byteLength blanks)
      (hNext : nextToken offset blanks = .ok ⟨.endingAt position, position, []⟩) :
      Tiled offset blanks [] (.ok position)
  | misspelled {offset : Nat} {blanks rest : List Char} {c : Char} {error : ParseError}
      (hBlanks : AreBlanks blanks) (hBlank : Lexeme.isBlank c = false)
      (hPosition : error.position = offset + byteLength blanks)
      (hLexical : error.fault.isLexical = true)
      (hNext : nextToken offset (blanks ++ c :: rest) = .error error) :
      Tiled offset (blanks ++ c :: rest) [] (.error error)
  | token {offset : Nat} {piece : Piece} {rest : List Char} {pieces : List Piece}
      {ending : Except ParseError Nat} (hPiece : piece.StartsAt offset)
      (hNext : nextToken offset (piece.text ++ rest) =
        .ok ⟨piece.token, offset + byteLength piece.text, rest⟩)
      (hRest : Tiled (offset + byteLength piece.text) rest pieces ending) :
      Tiled offset (piece.text ++ rest) (piece :: pieces) ending

/-- A token that can be spelled is cut off as one piece. -/
theorem exists_piece (offset : Nat) {text rest : List Char} {c : Char} {lexeme : Lexeme}
    (hText : text.dropWhile Lexeme.isBlank = c :: rest)
    (hLexeme : Lexeme.ofText c rest = .ok lexeme) :
    ∃ piece : Piece, piece.StartsAt offset ∧ text = piece.text ++ lexeme.rest ∧
      nextToken offset text = .ok ⟨piece.token, offset + byteLength piece.text, lexeme.rest⟩ ∧
      tokenStart offset text + byteLength lexeme.spelling = offset + byteLength piece.text := by
  obtain ⟨blanks, hBlanks, hSplit, hStart, hFirst⟩ := Lexeme.exists_blanks text
  obtain ⟨hSpelling, hSpelled⟩ := Lexeme.ofText_spelling hLexeme
  let piece : Piece := ⟨blanks, lexeme.token (offset + byteLength blanks), lexeme.spelling⟩
  have hBehind : offset + byteLength piece.text =
      offset + byteLength blanks + byteLength lexeme.spelling := by
    rw [Piece.text, byteLength_append, Nat.add_assoc]
  refine ⟨piece, ⟨hBlanks, hSpelled, ?_, rfl, Lexeme.kind_ne_ending hLexeme⟩, ?_, ?_, ?_⟩
  · intro hKind
    exact String.toList_ofList.trans (Lexeme.text_eq_spelling hLexeme hKind)
  · rw [Piece.text, List.append_assoc, hSpelling, ← hText]
    exact hSplit
  · rw [hText] at hSplit
    rw [hSplit, Tokens.nextToken_blanks_cons hBlanks (hFirst c rest hText), hLexeme, hBehind]
  · rw [hStart, hBehind]

/-- A text is tiled by the tokens that are found in it. The induction goes along the scan, and each
token that it finds is the piece before those of the rest. -/
theorem tiled_scan (offset : Nat) (text : List Char) :
    ∃ pieces, Tiled offset text pieces (Tokens.scan offset text).ending ∧
      pieces.map Piece.token = (Tokens.scan offset text).front := by
  induction offset, text using Tokens.scan.induct with
  | case1 offset text hText =>
      obtain ⟨blanks, hBlanks, hSplit, -, -⟩ := Lexeme.exists_blanks text
      rw [hText, List.append_nil] at hSplit
      subst hSplit
      have hNext := Tokens.nextToken_blanks hBlanks offset []
      rw [List.append_nil] at hNext
      rw [Tokens.scan_eq, hNext]
      exact ⟨[], .ending hBlanks rfl hNext, rfl⟩
  | case2 offset text c rest hText fault hFault =>
      obtain ⟨blanks, hBlanks, hSplit, -, hFirst⟩ := Lexeme.exists_blanks text
      have hBlank := hFirst c rest hText
      rw [hText] at hSplit
      subst hSplit
      have hNext := Tokens.nextToken_blanks_cons hBlanks hBlank offset rest
      rw [hFault] at hNext
      rw [Tokens.scan_eq, hNext]
      have hLexical := Lexeme.isLexical_of_ofText hFault
      exact ⟨[], .misspelled hBlanks hBlank rfl hLexical hNext, rfl⟩
  | case3 offset text start c rest hText lexeme hLexeme ih =>
      obtain ⟨piece, hPiece, hSplit, hNext, hBehind⟩ := exists_piece offset hText hLexeme
      obtain ⟨pieces, hTiled, hTokens⟩ := ih
      simp only [start, hBehind] at hTiled hTokens
      rw [Tokens.scan_eq, hNext]
      simp only [hPiece.kind, if_false, Tokens.cons]
      rw [hSplit] at hNext ⊢
      exact ⟨piece :: pieces, .token hPiece hNext hTiled, congrArg (piece.token :: ·) hTokens⟩

namespace Tiled

variable {offset : Nat} {text : List Char} {pieces : List Piece} {ending : Except ParseError Nat}

/-- Nothing is left out between the pieces, and when all tokens are spelled, only blanks are left
behind them. -/
theorem exists_last (h : Tiled offset text pieces ending) :
    ∃ last, text = pieces.flatMap Piece.text ++ last ∧
      ∀ position, ending = .ok position →
        AreBlanks last ∧ position = offset + byteLength text := by
  induction h with
  | @ending offset position blanks hBlanks hPosition hNext =>
      refine ⟨blanks, rfl, ?_⟩
      rintro _ ⟨⟩
      exact ⟨hBlanks, hPosition⟩
  | @misspelled _ blanks rest c => exact ⟨blanks ++ c :: rest, rfl, nofun⟩
  | @token offset piece rest pieces ending hPiece hNext hRest ih =>
      obtain ⟨last, hText, hLast⟩ := ih
      refine ⟨last, by rw [hText, List.flatMap_cons, List.append_assoc], fun position hEnding => ?_⟩
      obtain ⟨hBlanks, hPosition⟩ := hLast position hEnding
      exact ⟨hBlanks, by rw [hPosition, byteLength_append, Nat.add_assoc]⟩

/-- No token of a text starts before the text. -/
theorem le_start (h : Tiled offset text pieces ending) :
    ∀ token ∈ pieces.map Piece.token, offset ≤ token.start := by
  induction h with
  | ending => exact nofun
  | misspelled => exact nofun
  | token hPiece hNext hRest ih =>
      rw [List.map_cons, List.forall_mem_cons]
      constructor
      · exact hPiece.start ▸ Nat.le_add_right _ _
      · exact fun token hToken => Nat.le_trans (Nat.le_add_right _ _) (ih token hToken)

/-- Every token starts behind those before it. -/
theorem pairwise (h : Tiled offset text pieces ending) :
    (pieces.map Piece.token).Pairwise fun token behind => token.start < behind.start := by
  induction h with
  | ending => exact .nil
  | misspelled => exact .nil
  | token hPiece hNext hRest ih =>
      apply List.pairwise_cons.mpr
      refine ⟨fun token hToken => ?_, ih⟩
      exact Nat.lt_of_lt_of_le hPiece.start_lt (hRest.le_start token hToken)

/-- A token that is not a string can be found in the text as it is. -/
theorem exists_written (h : Tiled offset text pieces ending) {token : Token}
    (hToken : token ∈ pieces.map Piece.token) (hKind : token.kind ≠ .string) :
    ∃ front back, text = front ++ (token.text.toList ++ back) ∧
      token.start = offset + byteLength front := by
  induction h with
  | ending => cases hToken
  | misspelled => cases hToken
  | @token offset piece rest pieces ending hPiece hNext hRest ih =>
      rcases List.mem_cons.mp hToken with rfl | hBehind
      · refine ⟨piece.blanks, rest, ?_, hPiece.start⟩
        rw [hPiece.written hKind, Piece.text, List.append_assoc]
      · obtain ⟨front, back, hText, hStart⟩ := ih hBehind
        refine ⟨piece.text ++ front, back, by rw [hText, List.append_assoc], ?_⟩
        rw [hStart, byteLength_append, Nat.add_assoc]

/-- Tokens and errors stand where one character of the text ends and the next one starts. -/
theorem onBoundary {whole : String} (h : Tiled offset text pieces ending) {front : List Char}
    (hWhole : whole.toList = front ++ text) (hOffset : offset = byteLength front) :
    (∀ token ∈ pieces.map Piece.token, OnBoundary whole token.start) ∧
      ∀ error, ending = .error error → OnBoundary whole error.position := by
  induction h generalizing front with
  | ending => exact ⟨nofun, nofun⟩
  | @misspelled offset blanks rest c error hBlanks hBlank hPosition hLexical hNext =>
      refine ⟨nofun, ?_⟩
      rintro _ ⟨⟩
      apply onBoundary_iff.mpr
      refine ⟨front ++ blanks, c :: rest, by rw [hWhole, List.append_assoc], ?_⟩
      rw [hPosition, hOffset, byteLength_append]
  | @token offset piece rest pieces ending hPiece hNext hRest ih =>
      have hBehind : whole.toList = (front ++ piece.text) ++ rest := by
        rw [hWhole, List.append_assoc]
      obtain ⟨hTokens, hError⟩ := ih hBehind (by rw [hOffset, byteLength_append])
      refine ⟨List.forall_mem_cons.mpr ⟨?_, hTokens⟩, hError⟩
      apply onBoundary_iff.mpr
      refine ⟨front ++ piece.blanks, piece.spelling ++ rest, ?_, ?_⟩
      · rw [hWhole, Piece.text, List.append_assoc, List.append_assoc]
      · rw [hPiece.start, hOffset, byteLength_append]

end Tiled

end PinnedTree
