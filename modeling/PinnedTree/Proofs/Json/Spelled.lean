import PinnedTree.Proofs.Json.Document
import PinnedTree.Proofs.Json.Tokens
import PinnedTree.Tree.Listing

/-! Every text of a document is cut into the words of the document. A word or a number ends where
its text does, because a blank, a mark or the end follows; inside of quotes only a quote that is not
escaped ends the string. -/
namespace PinnedTree

open Text Document

/-! ### Blanks -/

namespace Lexeme

theorem isBlank_of_areBlanks {blanks : List Char} (h : AreBlanks blanks) :
    ∀ c ∈ blanks, isBlank c = true := by
  have hBlank : [' ', '\t', '\n', '\r'].all isBlank = true := by decide
  exact fun c hc => List.all_eq_true.mp hBlank c (h c hc)

theorem Separated.blanks {blanks rest : List Char} (h : AreBlanks blanks)
    (hRest : Separated rest) : Separated (blanks ++ rest) := by
  cases blanks with
  | nil => exact hRest
  | cons c blanks =>
      rintro first ⟨⟩
      exact .inl (isBlank_of_areBlanks h c List.mem_cons_self)

end Lexeme

namespace Tokens

/-- Blanks before a token only move its place. -/
theorem nextToken_blanks {blanks : List Char} (h : AreBlanks blanks) (offset : Nat)
    (rest : List Char) :
    nextToken offset (blanks ++ rest) = nextToken (offset + byteLength blanks) rest := by
  have hBlank := Lexeme.isBlank_of_areBlanks h
  have hStart : tokenStart offset (blanks ++ rest) =
      tokenStart (offset + byteLength blanks) rest := by
    rw [tokenStart, List.takeWhile_append_of_pos hBlank, byteLength_append, ← Nat.add_assoc]
    rfl
  rw [nextToken, hStart, List.dropWhile_append_of_pos hBlank]
  rfl

/-- Behind blanks, a token starts at the first character that is none. -/
theorem nextToken_blanks_cons {blanks : List Char} (h : AreBlanks blanks) {c : Char}
    (hBlank : Lexeme.isBlank c = false) (offset : Nat) (rest : List Char) :
    nextToken offset (blanks ++ c :: rest) =
      match Lexeme.ofText c rest with
      | .error fault => .error ⟨offset + byteLength blanks, fault⟩
      | .ok lexeme =>
        .ok ⟨lexeme.token (offset + byteLength blanks),
          offset + byteLength blanks + byteLength lexeme.spelling, lexeme.rest⟩ := by
  have hStart (start : Nat) : tokenStart start (c :: rest) = start := by
    simp [tokenStart, hBlank]
  rw [nextToken_blanks h, nextToken, hStart, List.dropWhile_cons, hBlank]
  rfl

/-- Blanks in front of a text only move its tokens. -/
theorem scan_blanks {blanks : List Char} (h : AreBlanks blanks) (offset : Nat)
    (rest : List Char) : scan offset (blanks ++ rest) = scan (offset + byteLength blanks) rest := by
  rw [scan_eq, nextToken_blanks h, ← scan_eq]

/-- Before this rest, the text is cut into these words. -/
def Cuts (text : List Char) (words : List Word) (rest : List Char) : Prop :=
  ∀ offset, ∃ front : List Token, front.map Token.word = words ∧
    scan offset (text ++ rest) = after front (scan (offset + byteLength text) rest)

/-- Texts one behind the other are cut into the words of both. -/
theorem Cuts.append {left right rest : List Char} {words more : List Word}
    (hLeft : Cuts left words (right ++ rest)) (hRight : Cuts right more rest) :
    Cuts (left ++ right) (words ++ more) rest := by
  intro offset
  obtain ⟨front, hWords, hScan⟩ := hLeft offset
  obtain ⟨behind, hMore, hRest⟩ := hRight (offset + byteLength left)
  refine ⟨front ++ behind, by rw [List.map_append, hWords, hMore], ?_⟩
  rw [List.append_assoc, hScan, hRest, after_append, byteLength_append, Nat.add_assoc]

theorem cuts_blanks {blanks : List Char} (h : AreBlanks blanks) (rest : List Char) :
    Cuts blanks [] rest :=
  fun offset => ⟨[], rfl, scan_blanks h offset rest⟩

/-- A text that is one token is cut into its word. -/
theorem cuts_word {text rest : List Char} {word : Word}
    (h : ∀ offset, scan offset (text ++ rest) =
      cons ⟨word.1, word.2, offset⟩ (scan (offset + byteLength text) rest)) :
    Cuts text [word] rest :=
  fun offset => ⟨[⟨word.1, word.2, offset⟩], rfl, h offset⟩

theorem cuts_mark {c : Char} {kind : TokenKind} (h : TokenKind.ofMark? c = some kind)
    (hBlank : Lexeme.isBlank c = false) (rest : List Char) :
    Cuts [c] [(kind, String.ofList [c])] rest :=
  cuts_word fun offset => scan_mark kind h hBlank offset rest

/-- A text between two marks is cut into its words between those of the marks. -/
theorem Cuts.brackets {left right : Char} {opening closing : TokenKind} {text rest : List Char}
    {words : List Word} (h : Cuts text words (right :: rest))
    (hLeft : TokenKind.ofMark? left = some opening) (hLeftBlank : Lexeme.isBlank left = false)
    (hRight : TokenKind.ofMark? right = some closing) (hRightBlank : Lexeme.isBlank right = false) :
    Cuts (left :: (text ++ [right]))
      ((opening, String.ofList [left]) :: (words ++ [(closing, String.ofList [right])])) rest :=
  (cuts_mark hLeft hLeftBlank _).append (h.append (cuts_mark hRight hRightBlank rest))

/-- The spelling of a string is cut into one word. -/
theorem cuts_string {text : String} {spelling : List Char} (h : SpellsString text spelling)
    (rest : List Char) : Cuts spelling [(.string, text)] rest := by
  obtain ⟨hChars⟩ := h
  refine cuts_word fun offset => ?_
  have hScan := scan_of_ofText offset rfl (Lexeme.ofText_of_spellsChars hChars rest)
  rw [Lexeme.token, String.ofList_toList] at hScan
  rw [List.cons_append, List.append_assoc]
  exact hScan

end Tokens

namespace Document

open Tokens

mutual

/-- A spelling of a document is cut into its words. The induction goes along the spelling. What
follows a spelling only has to end its last word; the blanks and marks of the spelling do that for
the words before. -/
theorem Spells.cuts : ∀ {document : Document} {text : List Char}, Spells document text →
    ∀ {rest : List Char}, Lexeme.Separated rest → Cuts text document.words rest
  | _, _, .null, _, hRest => cuts_word fun offset => Json.scan_null offset hRest
  | _, _, .true, _, hRest =>
      cuts_word fun offset => Json.scan_atom (.boolean Bool.true) offset hRest
  | _, _, .false, _, hRest =>
      cuts_word fun offset => Json.scan_atom (.boolean Bool.false) offset hRest
  | _, _, .number hLiteral, _, hRest =>
      cuts_word fun offset => Json.scan_number hLiteral offset hRest
  | _, _, .string hString, rest, _ => cuts_string hString rest
  | _, _, .emptyArray hBlanks, _, _ => (cuts_blanks hBlanks _).brackets rfl rfl rfl rfl
  | _, _, .array hItems, _, _ =>
      (hItems.cuts (Lexeme.separated_mark rfl _)).brackets rfl rfl rfl rfl
  | _, _, .emptyObject hBlanks, _, _ => (cuts_blanks hBlanks _).brackets rfl rfl rfl rfl
  | _, _, .object hMembers, _, _ =>
      (hMembers.cuts (Lexeme.separated_mark rfl _)).brackets rfl rfl rfl rfl

/-- A document with blanks around it is cut into its words. -/
theorem SpellsPadded.cuts : ∀ {document : Document} {text : List Char},
    SpellsPadded document text →
    ∀ {rest : List Char}, Lexeme.Separated rest → Cuts text document.words rest
  | _, _, .mk hBefore hSpells hBehind, rest, hRest => by
      have hCuts := hSpells.cuts (hRest.blanks hBehind)
      have hAll := (cuts_blanks hBefore _).append (hCuts.append (cuts_blanks hBehind rest))
      rwa [List.append_nil, List.nil_append] at hAll

/-- A member is cut into its name, a colon and the words of its value. -/
theorem SpellsMember.cuts : ∀ {name : String} {value : Document} {text : List Char},
    SpellsMember name value text → ∀ {rest : List Char}, Lexeme.Separated rest →
    Cuts text ((.string, name) :: (.colon, ":") :: value.words) rest
  | _, _, _, .mk hBefore hName hBehind hValue, rest, hRest => by
      have hColon := (cuts_mark (c := ':') rfl rfl _).append (hValue.cuts hRest)
      have hAll := (cuts_blanks hBefore _).append ((cuts_string hName _).append
        ((cuts_blanks hBehind _).append hColon))
      exact hAll

/-- Items are cut into their words, with commas between them. -/
theorem SpellsItems.cuts : ∀ {items : List Document} {text : List Char},
    SpellsItems items text → ∀ {rest : List Char}, Lexeme.Separated rest →
    Cuts text (itemWords items) rest
  | _, _, .one hItem, rest, hRest => hItem.cuts hRest
  | _, _, .cons hItem hItems, rest, hRest => by
      rw [itemWords_cons _ hItems.ne_nil]
      exact (hItem.cuts (Lexeme.separated_mark rfl _)).append
        ((cuts_mark (c := ',') rfl rfl _).append (hItems.cuts hRest))

/-- Members are cut into their words, with commas between them. -/
theorem SpellsMembers.cuts : ∀ {members : List (String × Document)} {text : List Char},
    SpellsMembers members text → ∀ {rest : List Char}, Lexeme.Separated rest →
    Cuts text (memberWords members) rest
  | _, _, .one hMember, rest, hRest => hMember.cuts hRest
  | _, _, .cons hMember hMembers, rest, hRest => by
      rw [memberWords_cons _ _ hMembers.ne_nil]
      exact (hMember.cuts (Lexeme.separated_mark rfl _)).append
        ((cuts_mark (c := ',') rfl rfl _).append (hMembers.cuts hRest))

end

/-- What reading makes of a text of the document: its words and then the end. All words are skipped
at once, and the end is left. -/
structure ReadsBack (document : Document) (text : String) : Prop where
  words : (Tokens.ofString text).front.map Token.word = document.words
  ending : (Tokens.ofString text).ending = .ok (byteLength text.toList)
  skipped : (Reader.ofString text).skipValue.1 = .ok ()
  last : (Reader.ofString text).skipValue.2.last = (document.words.getLast?.map Prod.snd).getD ""
  behind : (Reader.ofString text).skipValue.2.peek.1 = .ok .ending

end Document

/-- Every text of a document is cut into the words of the document and no more, and a reader skips
it as one value. The text of a listing is one of the texts of a document, whatever the window, the
filter and the depth. -/
theorem document_read_back :
    (∀ {document : Document} {text : String}, document.IsText text → document.ReadsBack text) ∧
      ∀ (max : Option Nat) (filter : Option NameFilter) (depth offset : Nat) (node : Tree),
        (Document.ofJson (node.render max filter depth offset)).IsText
          (node.render max filter depth offset).text := by
  refine ⟨?_, fun max filter depth offset node => isText_text _⟩
  intro document text h
  obtain ⟨front, hWords, hScan⟩ := SpellsPadded.cuts h Lexeme.separated_nil 0
  rw [List.append_nil, Tokens.scan_nil, Nat.zero_add] at hScan
  have hTokens : Tokens.ofString text = ⟨front, .ok (byteLength text.toList)⟩ := by
    rw [Tokens.ofString, hScan, Tokens.after, List.append_nil]
  have hFront : (Tokens.ofString text).front = front := congrArg Tokens.front hTokens
  have hValue := isValue_words document
  rw [← hWords, List.map_map, ← hFront] at hValue
  obtain ⟨hSkipped, hLast, hBehind⟩ :=
    Reader.skipValue_ofString hValue (congrArg Tokens.ending hTokens)
  refine ⟨by rw [hFront, hWords], by rw [hTokens], hSkipped, ?_, hBehind⟩
  rw [hLast, hFront, ← hWords, List.getLast?_map, Option.map_map]
  rfl

def Document.sample : Document :=
  .array [.string "é😀/", .number ⟨true, ['1'], some ['5', '0'], some ⟨'E', ['+'], ['3']⟩⟩,
    .object [("a", .boolean true)]]

def Document.sampleText : String :=
  " [\"\\u00E9\\uD83d\\ude00\\/\" ,\t-1.50E+3 ,\x7b \"a\" :true\x7d\n] "

/-- A document with escapes, a number with all parts and nesting is read back from its text. -/
theorem document_read_back_sample : Document.sample.ReadsBack Document.sampleText := by
  have hUnit : Json.SpellsChar 'é' ['\\', 'u', '0', '0', 'E', '9'] :=
    .unit (@Json.SpellsUnit.mk 0 0 14 9 _ _ _ _ (by decide) (by decide) (by decide) (by decide))
  have hHigh : Json.SpellsUnit 0xD83D ['D', '8', '3', 'd'] :=
    @Json.SpellsUnit.mk 13 8 3 13 _ _ _ _ (by decide) (by decide) (by decide) (by decide)
  have hLow : Json.SpellsUnit 0xDE00 ['d', 'e', '0', '0'] :=
    @Json.SpellsUnit.mk 13 14 0 0 _ _ _ _ (by decide) (by decide) (by decide) (by decide)
  have hPair : Json.SpellsChar '😀'
      ['\\', 'u', 'D', '8', '3', 'd', '\\', 'u', 'd', 'e', '0', '0'] :=
    @Json.SpellsChar.pair '😀' _ _ (by decide) hHigh hLow
  have hShort : Json.SpellsChar '/' ['\\', '/'] := .short (by decide)
  have hString : SpellsPadded (.string "é😀/") _ :=
    .mk areBlanks_nil (.string (.mk (.cons hUnit (.cons hPair (.cons hShort .nil)))))
      (show AreBlanks [' '] by decide)
  have hLiteral : NumberParts.WellSpelled
      ⟨true, ['1'], some ['5', '0'], some ⟨'E', ['+'], ['3']⟩⟩ := by
    refine ⟨show IsDigits ['1'] by decide, by decide, ?_, ?_⟩
    · rintro _ ⟨⟩
      exact show IsDigits ['5', '0'] by decide
    · rintro _ ⟨⟩
      exact ⟨.inr rfl, .inr (.inl rfl), show IsDigits ['3'] by decide⟩
  have hNumber : SpellsPadded (.number _) _ :=
    .mk (show AreBlanks ['\t'] by decide) (.number hLiteral) (show AreBlanks [' '] by decide)
  have hPlain : Json.SpellsChar 'a' ['a'] := .plain (by decide) (by decide) (by decide)
  have hName : SpellsString "a" _ := .mk (.cons hPlain .nil)
  have hMember : SpellsMember "a" (.boolean true) _ :=
    .mk (show AreBlanks [' '] by decide) hName (show AreBlanks [' '] by decide) Spells.true.padded
  have hObject : SpellsPadded (.object [("a", .boolean true)]) _ :=
    .mk areBlanks_nil (.object (.one hMember)) (show AreBlanks ['\n'] by decide)
  have hText : Document.sample.IsText Document.sampleText :=
    .mk (show AreBlanks [' '] by decide)
      (.array (.cons hString (.cons hNumber (.one hObject)))) (show AreBlanks [' '] by decide)
  exact document_read_back.1 hText

end PinnedTree
