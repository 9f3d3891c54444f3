import PinnedTree.Proofs.Json.Lexemes

/-! The tokens of compact JSON text. Scanning the text of a value gives exactly the tokens of the
value, each at the byte where its spelling starts, and goes on with what follows the text. -/
namespace PinnedTree

open Text

namespace Tokens

def after (front : List Token) (tokens : Tokens) : Tokens :=
  { tokens with front := front ++ tokens.front }

theorem after_cons (token : Token) (front : List Token) (tokens : Tokens) :
    after (token :: front) tokens = cons token (after front tokens) := rfl

theorem after_append (left right : List Token) (tokens : Tokens) :
    after (left ++ right) tokens = after left (after right tokens) := by
  rw [after, after, after, List.append_assoc]

theorem scan_nil (offset : Nat) : scan offset [] = ⟨[], .ok offset⟩ := by
  rw [scan]
  rfl

/-- One lexeme is one token, and scanning goes on behind its spelling. -/
theorem scan_of_ofText {c : Char} {tail : List Char} {lexeme : Lexeme} (offset : Nat)
    (hBlank : Lexeme.isBlank c = false) (h : Lexeme.ofText c tail = .ok lexeme) :
    scan offset (c :: tail) = cons (lexeme.token offset)
      (scan (offset + byteLength lexeme.spelling) lexeme.rest) := by
  have hStart : tokenStart offset (c :: tail) = offset := by
    simp [tokenStart, hBlank]
  rw [scan]
  split
  · rename_i hEmpty
    simp [hBlank] at hEmpty
  · rename_i first rest hText
    rw [List.dropWhile_cons, hBlank] at hText
    cases hText
    split
    · rename_i fault hFault
      rw [h] at hFault
      cases hFault
    · rename_i found hFound
      rw [h] at hFound
      cases hFound
      rw [hStart]

theorem scan_mark {c : Char} (kind : TokenKind) (h : TokenKind.ofMark? c = some kind)
    (hBlank : Lexeme.isBlank c = false) (offset : Nat) (rest : List Char) :
    scan offset (c :: rest) =
      cons ⟨kind, String.ofList [c], offset⟩ (scan (offset + byteLength [c]) rest) := by
  have hLexeme : Lexeme.ofText c rest = .ok ⟨kind, [c], [c], rest⟩ := by
    rw [Lexeme.ofText, h]
  exact scan_of_ofText offset hBlank hLexeme

end Tokens

namespace Json

def Atom.kind : Atom → TokenKind
  | .boolean true => .true
  | .boolean false => .false
  | .number _ => .number
  | .text _ => .string

theorem Atom.kind_ne_mark (value : Atom) :
    value.kind ≠ .leftBrace ∧ value.kind ≠ .leftBracket ∧ value.kind ≠ .rightBracket := by
  cases value with
  | boolean value => cases value <;> exact ⟨nofun, nofun, nofun⟩
  | number value => exact ⟨nofun, nofun, nofun⟩
  | text value => exact ⟨nofun, nofun, nofun⟩

theorem Atom.isAtom_kind (value : Atom) : value.kind.isAtom = true := by
  cases value with
  | boolean value => cases value <;> rfl
  | number value => rfl
  | text value => rfl

/-- A string token has the characters of the string, every other token has those it is spelled
by. -/
def Atom.tokenText : Atom → String
  | .text value => value
  | value => String.ofList value.write

def Atom.token (value : Atom) (start : Nat) : Token :=
  ⟨value.kind, value.tokenText, start⟩

theorem Atom.kind_token (value : Atom) (start : Nat) : (value.token start).kind = value.kind := rfl

mutual

/-- The tokens of the compact text of a value that starts at the byte `offset`. -/
def tokens (offset : Nat) : Json → List Token
  | .null => [⟨.null, "null", offset⟩]
  | .atom value => [value.token offset]
  | .array items =>
    ⟨.leftBracket, "[", offset⟩ :: itemTokens (offset + 1) items ++
      [⟨.rightBracket, "]", offset + 1 + byteLength (writeItems items)⟩]
  | .object members =>
    ⟨.leftBrace, "\x7b", offset⟩ :: memberTokens (offset + 1) members ++
      [⟨.rightBrace, "\x7d", offset + 1 + byteLength (writeMembers members)⟩]

def itemTokens (offset : Nat) : List Json → List Token
  | [] => []
  | [item] => tokens offset item
  | item :: next :: rest =>
    tokens offset item ++ ⟨.comma, ",", offset + byteLength item.write⟩ ::
      itemTokens (offset + byteLength item.write + 1) (next :: rest)

def memberTokens (offset : Nat) : List (String × Json) → List Token
  | [] => []
  | [(name, value)] =>
    ⟨.string, name, offset⟩ :: ⟨.colon, ":", offset + byteLength (writeString name)⟩ ::
      tokens (offset + byteLength (writeString name) + 1) value
  | (name, value) :: next :: rest =>
    ⟨.string, name, offset⟩ :: ⟨.colon, ":", offset + byteLength (writeString name)⟩ ::
      tokens (offset + byteLength (writeString name) + 1) value ++
      ⟨.comma, ",", offset + byteLength (writeString name) + 1 + byteLength value.write⟩ ::
      memberTokens (offset + byteLength (writeString name) + 1 + byteLength value.write + 1)
        (next :: rest)

end

/-- The items of an array of atoms start with the token of the first one. -/
theorem exists_itemTokens (offset : Nat) (first : Atom) (rest : List Atom) :
    ∃ more, itemTokens offset ((first :: rest).map Json.atom) = first.token offset :: more := by
  cases rest with
  | nil => exact ⟨[], rfl⟩
  | cons second rest => exact ⟨_, rfl⟩

/-- The members of an object start with the first name. -/
theorem exists_memberTokens (offset : Nat) (member : String × Json)
    (rest : List (String × Json)) :
    ∃ more, memberTokens offset (member :: rest) = ⟨.string, member.1, offset⟩ :: more := by
  cases rest with
  | nil => exact ⟨_, rfl⟩
  | cons next rest => exact ⟨_, rfl⟩

theorem memberTokens_cons (offset : Nat) (member next : String × Json)
    (rest : List (String × Json)) :
    memberTokens offset (member :: next :: rest) = memberTokens offset [member] ++
      ⟨.comma, ",", offset + byteLength (writeString member.1) + 1 + byteLength member.2.write⟩ ::
        memberTokens
          (offset + byteLength (writeString member.1) + 1 + byteLength member.2.write + 1)
          (next :: rest) := by
  simp only [memberTokens, List.cons_append]

/-- A string that is written is one token. -/
theorem scan_string (name : String) (offset : Nat) (rest : List Char) :
    Tokens.scan offset (writeString name ++ rest) = Tokens.cons ⟨.string, name, offset⟩
      (Tokens.scan (offset + byteLength (writeString name)) rest) := by
  have hText : writeString name ++ rest =
      '"' :: (name.toList.flatMap escape ++ '"' :: rest) := by
    simp [writeString]
  rw [hText, Tokens.scan_of_ofText offset rfl (Lexeme.ofText_string name rest), Lexeme.token,
    String.ofList_toList]

/-- A number is one token in front of a separator. -/
theorem scan_number {parts : NumberParts} (h : parts.WellSpelled) (offset : Nat)
    {rest : List Char} (hRest : Lexeme.Separated rest) :
    Tokens.scan offset (parts.spell ++ rest) =
      Tokens.cons ⟨.number, String.ofList parts.spell, offset⟩
        (Tokens.scan (offset + byteLength parts.spell) rest) := by
  obtain ⟨c, tail, hSpell, hBlank, -⟩ := NumberParts.startsNumber_spell h
  have hLexeme := Lexeme.ofText_number h hSpell hRest.stopsAt_number
  have hScan := Tokens.scan_of_ofText offset hBlank hLexeme
  rw [← List.cons_append, ← hSpell] at hScan
  exact hScan

/-- An atom that is written is one token in front of a separator. -/
theorem scan_atom (value : Atom) (offset : Nat) {rest : List Char}
    (hRest : Lexeme.Separated rest) :
    Tokens.scan offset (value.write ++ rest) = Tokens.cons (value.token offset)
      (Tokens.scan (offset + byteLength value.write) rest) := by
  cases value with
  | boolean value =>
      cases value with
      | true =>
          exact Tokens.scan_of_ofText offset rfl (Lexeme.ofText_word rfl (by decide) rfl
            (by decide) rfl hRest.stopsAt_word)
      | false =>
          exact Tokens.scan_of_ofText offset rfl (Lexeme.ofText_word rfl (by decide) rfl
            (by decide) rfl hRest.stopsAt_word)
  | number value =>
      cases value with
      | integer value =>
          simp only [Atom.write, Number.write, Atom.token, Atom.kind, Atom.tokenText]
          rw [writeInt_eq_spell]
          exact scan_number (integerParts_wellSpelled value) offset hRest
      | float value =>
          simp only [Atom.write, Number.write, Atom.token, Atom.kind, Atom.tokenText]
          rw [DecimalLayout.writeFinite_eq_spell]
          exact scan_number (DecimalLayout.wellSpelled_finiteParts _ value) offset hRest
  | text value => exact scan_string value offset rest

theorem scan_null (offset : Nat) {rest : List Char} (hRest : Lexeme.Separated rest) :
    Tokens.scan offset ('n' :: 'u' :: 'l' :: 'l' :: rest) =
      Tokens.cons ⟨.null, "null", offset⟩
        (Tokens.scan (offset + byteLength ['n', 'u', 'l', 'l']) rest) := by
  have hLexeme := Lexeme.ofText_word (c := 'n') rfl (by decide) rfl (by decide)
    (show ['n', 'u', 'l', 'l'].all Lexeme.isWordCharacter = true from rfl) hRest.stopsAt_word
  exact Tokens.scan_of_ofText offset rfl hLexeme

mutual

/-- A value that is written has its tokens. The induction goes along the value and needs no more of
what follows than that it does not go on with the last word or number; inside a value that is a
comma or a closing mark. -/
theorem scan_write : ∀ (value : Json) (offset : Nat) {rest : List Char}, Lexeme.Separated rest →
    Tokens.scan offset (value.write ++ rest) = Tokens.after (tokens offset value)
      (Tokens.scan (offset + byteLength value.write) rest)
  | .null, offset, rest, hRest => by
      simp only [write, tokens]
      exact scan_null offset hRest
  | .atom value, offset, rest, hRest => by
      simp only [write, tokens]
      exact scan_atom value offset hRest
  | .array items, offset, rest, _ => by
      have hItems := scan_items items (offset + 1) (Lexeme.separated_mark (c := ']') rfl rest)
      have hText : (Json.array items).write ++ rest = '[' :: (writeItems items ++ ']' :: rest) := by
        simp [write]
      have hEnd : offset + byteLength (Json.array items).write =
          offset + 1 + byteLength (writeItems items) + byteLength [']'] := by
        rw [write, byteLength_append, byteLength_cons, show '['.utf8Size = 1 from rfl]
        omega
      rw [hText, hEnd, Tokens.scan_mark .leftBracket rfl rfl,
        show offset + byteLength ['['] = offset + 1 from rfl, hItems,
        Tokens.scan_mark .rightBracket rfl rfl, tokens, List.cons_append,
        Tokens.after_cons, Tokens.after_append]
      rfl
  | .object members, offset, rest, _ => by
      have hMembers := scan_members members (offset + 1)
        (Lexeme.separated_mark (c := '}') rfl rest)
      have hText : (Json.object members).write ++ rest =
          '{' :: (writeMembers members ++ '}' :: rest) := by
        simp [write]
      have hEnd : offset + byteLength (Json.object members).write =
          offset + 1 + byteLength (writeMembers members) + byteLength ['}'] := by
        rw [write, byteLength_append, byteLength_cons, show '{'.utf8Size = 1 from rfl]
        omega
      rw [hText, hEnd, Tokens.scan_mark .leftBrace rfl rfl,
        show offset + byteLength ['{'] = offset + 1 from rfl, hMembers,
        Tokens.scan_mark .rightBrace rfl rfl, tokens, List.cons_append,
        Tokens.after_cons, Tokens.after_append]
      rfl

/-- The items of an array that is written have the tokens of the items. -/
theorem scan_items : ∀ (items : List Json) (offset : Nat) {rest : List Char},
    Lexeme.Separated rest → Tokens.scan offset (writeItems items ++ rest) =
      Tokens.after (itemTokens offset items)
        (Tokens.scan (offset + byteLength (writeItems items)) rest)
  | [], offset, rest, _ => by
      simp only [writeItems, itemTokens]
      rfl
  | [item], offset, rest, hRest => by
      simp only [writeItems, itemTokens]
      exact scan_write item offset hRest
  | item :: next :: items, offset, rest, hRest => by
      have hItem := scan_write item offset
        (Lexeme.separated_mark (c := ',') rfl (writeItems (next :: items) ++ rest))
      have hItems := scan_items (next :: items) (offset + byteLength item.write + 1) hRest
      have hEnd : offset + byteLength (item.write ++ ',' :: writeItems (next :: items)) =
          offset + byteLength item.write + 1 + byteLength (writeItems (next :: items)) := by
        rw [byteLength_append, byteLength_cons, show ','.utf8Size = 1 from rfl]
        omega
      rw [writeItems, hEnd, List.append_assoc, List.cons_append, hItem,
        Tokens.scan_mark .comma rfl rfl,
        show ∀ start, start + byteLength [','] = start + 1 from fun _ => rfl, hItems,
        itemTokens, Tokens.after_append, Tokens.after_cons]

/-- The members of an object that is written have the tokens of the members. -/
theorem scan_members : ∀ (members : List (String × Json)) (offset : Nat) {rest : List Char},
    Lexeme.Separated rest → Tokens.scan offset (writeMembers members ++ rest) =
      Tokens.after (memberTokens offset members)
        (Tokens.scan (offset + byteLength (writeMembers members)) rest)
  | [], offset, rest, _ => by
      simp only [writeMembers, memberTokens]
      rfl
  | [(name, value)], offset, rest, hRest => by
      have hValue := scan_write value (offset + byteLength (writeString name) + 1) hRest
      have hEnd : offset + byteLength (writeString name ++ ':' :: value.write) =
          offset + byteLength (writeString name) + 1 + byteLength value.write := by
        rw [byteLength_append, byteLength_cons, show ':'.utf8Size = 1 from rfl]
        omega
      rw [writeMembers, hEnd, List.append_assoc, List.cons_append, scan_string,
        Tokens.scan_mark .colon rfl rfl,
        show ∀ start, start + byteLength [':'] = start + 1 from fun _ => rfl, hValue,
        memberTokens, Tokens.after_cons, Tokens.after_cons]
  | (name, value) :: next :: members, offset, rest, hRest => by
      have hValue := scan_write value (offset + byteLength (writeString name) + 1)
        (Lexeme.separated_mark (c := ',') rfl (writeMembers (next :: members) ++ rest))
      have hMembers := scan_members (next :: members)
        (offset + byteLength (writeString name) + 1 + byteLength value.write + 1) hRest
      have hText : writeMembers ((name, value) :: next :: members) ++ rest = writeString name ++
          ':' :: (value.write ++ ',' :: (writeMembers (next :: members) ++ rest)) := by
        simp [writeMembers]
      have hEnd : offset + byteLength (writeMembers ((name, value) :: next :: members)) =
          offset + byteLength (writeString name) + 1 + byteLength value.write + 1 +
            byteLength (writeMembers (next :: members)) := by
        rw [writeMembers, byteLength_append, byteLength_append, byteLength_cons, byteLength_cons,
          show ':'.utf8Size = 1 from rfl, show ','.utf8Size = 1 from rfl]
        omega
      rw [hText, hEnd, scan_string, Tokens.scan_mark .colon rfl rfl,
        show ∀ start, start + byteLength [':'] = start + 1 from fun _ => rfl, hValue,
        Tokens.scan_mark .comma rfl rfl,
        show ∀ start, start + byteLength [','] = start + 1 from fun _ => rfl, hMembers,
        memberTokens, List.cons_append, List.cons_append, Tokens.after_cons, Tokens.after_cons,
        Tokens.after_append, Tokens.after_cons]

end

/-- The compact text of a value has the tokens of the value and no more. -/
theorem ofString_text (value : Json) :
    Tokens.ofString value.text = ⟨tokens 0 value, .ok (byteLength value.write)⟩ := by
  have hScan := scan_write value 0 Lexeme.separated_nil
  rw [List.append_nil, Tokens.scan_nil, Nat.zero_add] at hScan
  rw [Tokens.ofString, text, String.toList_ofList, hScan, Tokens.after, List.append_nil]

end Json

end PinnedTree
