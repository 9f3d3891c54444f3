import PinnedTree.Proofs.Json.Lexemes
import PinnedTree.Proofs.Token.Values

/-! JSON documents: values together with the literals of their numbers. A document has many texts,
which differ in blanks and in how characters are spelled, and all of them have the same words. -/
namespace PinnedTree

/-- A JSON value with the literals of its numbers. -/
inductive Document where
  | null
  | boolean (value : Bool)
  | number (literal : NumberParts)
  | string (text : String)
  | array (items : List Document)
  | object (members : List (String × Document))

/-- A token without its place in a text. -/
abbrev Word := TokenKind × String

def Token.word (token : Token) : Word :=
  (token.kind, token.text)

namespace Document

mutual

/-- The tokens of a document: a string has its content, a number its literal. -/
def words : Document → List Word
  | .null => [(.null, "null")]
  | .boolean true => [(.true, "true")]
  | .boolean false => [(.false, "false")]
  | .number literal => [(.number, String.ofList literal.spell)]
  | .string text => [(.string, text)]
  | .array items => (.leftBracket, "[") :: (itemWords items ++ [(.rightBracket, "]")])
  | .object members => (.leftBrace, "\x7b") :: (memberWords members ++ [(.rightBrace, "\x7d")])

def itemWords : List Document → List Word
  | [] => []
  | [item] => item.words
  | item :: next :: rest => item.words ++ (.comma, ",") :: itemWords (next :: rest)

def memberWords : List (String × Document) → List Word
  | [] => []
  | [(name, value)] => (.string, name) :: (.colon, ":") :: value.words
  | (name, value) :: next :: rest =>
    (.string, name) :: (.colon, ":") :: (value.words ++ (.comma, ",") :: memberWords (next :: rest))

end

theorem itemWords_cons (item : Document) {items : List Document} (h : items ≠ []) :
    itemWords (item :: items) = item.words ++ (.comma, ",") :: itemWords items := by
  cases items with
  | nil => exact absurd rfl h
  | cons next rest => rw [itemWords]

theorem memberWords_cons (name : String) (value : Document) {members : List (String × Document)}
    (h : members ≠ []) :
    memberWords ((name, value) :: members) =
      (.string, name) :: (.colon, ":") ::
        (value.words ++ (.comma, ",") :: memberWords members) := by
  cases members with
  | nil => exact absurd rfl h
  | cons next rest => rw [memberWords]

mutual

/-- The tokens of a document are those of one value. -/
theorem isValue_words : ∀ document : Document, IsValue (document.words.map Prod.fst)
  | .null => .atom rfl
  | .boolean true => .atom rfl
  | .boolean false => .atom rfl
  | .number _ => .atom rfl
  | .string _ => .atom rfl
  | .array items => by
      by_cases h : items = []
      · rw [h]
        exact .emptyArray
      · have hItems := areItems_words items h
        simp only [words, List.map_cons, List.map_append, List.map_nil]
        exact .array hItems
  | .object members => by
      by_cases h : members = []
      · rw [h]
        exact .emptyObject
      · have hMembers := areMembers_words members h
        simp only [words, List.map_cons, List.map_append, List.map_nil]
        exact .object hMembers

theorem areItems_words : ∀ items : List Document, items ≠ [] →
    AreItems ((itemWords items).map Prod.fst)
  | [], h => absurd rfl h
  | [item], _ => .one (isValue_words item)
  | item :: next :: items, _ => by
      have hItem := isValue_words item
      have hItems := areItems_words (next :: items) (List.cons_ne_nil next items)
      simp only [itemWords, List.map_append, List.map_cons]
      exact .cons hItem hItems

theorem areMembers_words : ∀ members : List (String × Document), members ≠ [] →
    AreMembers ((memberWords members).map Prod.fst)
  | [], h => absurd rfl h
  | [(_, value)], _ => .one (isValue_words value)
  | (_, value) :: next :: members, _ => by
      have hValue := isValue_words value
      have hMembers := areMembers_words (next :: members) (List.cons_ne_nil next members)
      simp only [memberWords, List.map_append, List.map_cons]
      exact .cons hValue hMembers

end

/-! ### Texts -/

def AreBlanks (text : List Char) : Prop :=
  ∀ c ∈ text, c ∈ [' ', '\t', '\n', '\r']

instance (text : List Char) : Decidable (AreBlanks text) :=
  List.decidableBAll (· ∈ [' ', '\t', '\n', '\r']) text

/-- The spellings of a string: characters in quotes. -/
inductive SpellsString : String → List Char → Prop where
  | mk {text : String} {spelling : List Char} (hChars : Json.SpellsChars text.toList spelling) :
      SpellsString text ('"' :: (spelling ++ ['"']))

mutual

/-- The spellings of a document, from its first to its last character. -/
inductive Spells : Document → List Char → Prop where
  | null : Spells .null ['n', 'u', 'l', 'l']
  | true : Spells (.boolean Bool.true) ['t', 'r', 'u', 'e']
  | false : Spells (.boolean Bool.false) ['f', 'a', 'l', 's', 'e']
  | number {literal : NumberParts} (hLiteral : literal.WellSpelled) :
      Spells (.number literal) literal.spell
  | string {text : String} {spelling : List Char} (hString : SpellsString text spelling) :
      Spells (.string text) spelling
  | emptyArray {blanks : List Char} (hBlanks : AreBlanks blanks) :
      Spells (.array []) ('[' :: (blanks ++ [']']))
  | array {items : List Document} {spelling : List Char} (hItems : SpellsItems items spelling) :
      Spells (.array items) ('[' :: (spelling ++ [']']))
  | emptyObject {blanks : List Char} (hBlanks : AreBlanks blanks) :
      Spells (.object []) ('{' :: (blanks ++ ['}']))
  | object {members : List (String × Document)} {spelling : List Char}
      (hMembers : SpellsMembers members spelling) :
      Spells (.object members) ('{' :: (spelling ++ ['}']))

inductive SpellsPadded : Document → List Char → Prop where
  | mk {document : Document} {before spelling behind : List Char} (hBefore : AreBlanks before)
      (hSpells : Spells document spelling) (hBehind : AreBlanks behind) :
      SpellsPadded document (before ++ (spelling ++ behind))

/-- A name, a colon and a value, with blanks around each of them. -/
inductive SpellsMember : String → Document → List Char → Prop where
  | mk {name : String} {value : Document} {before spelling behind text : List Char}
      (hBefore : AreBlanks before) (hName : SpellsString name spelling) (hBehind : AreBlanks behind)
      (hValue : SpellsPadded value text) :
      SpellsMember name value (before ++ (spelling ++ (behind ++ ':' :: text)))

/-- One or more documents with commas between them. -/
inductive SpellsItems : List Document → List Char → Prop where
  | one {item : Document} {text : List Char} (hItem : SpellsPadded item text) :
      SpellsItems [item] text
  | cons {item : Document} {items : List Document} {text rest : List Char}
      (hItem : SpellsPadded item text) (hItems : SpellsItems items rest) :
      SpellsItems (item :: items) (text ++ ',' :: rest)

/-- One or more members with commas between them. -/
inductive SpellsMembers : List (String × Document) → List Char → Prop where
  | one {name : String} {value : Document} {text : List Char}
      (hMember : SpellsMember name value text) : SpellsMembers [(name, value)] text
  | cons {name : String} {value : Document} {members : List (String × Document)}
      {text rest : List Char} (hMember : SpellsMember name value text)
      (hMembers : SpellsMembers members rest) :
      SpellsMembers ((name, value) :: members) (text ++ ',' :: rest)

end

/-- The whole text is one of the document, with blanks around it. -/
def IsText (document : Document) (text : String) : Prop :=
  SpellsPadded document text.toList

theorem SpellsItems.ne_nil {items : List Document} {text : List Char}
    (h : SpellsItems items text) : items ≠ [] := by
  cases h <;> exact List.cons_ne_nil _ _

theorem SpellsMembers.ne_nil {members : List (String × Document)} {text : List Char}
    (h : SpellsMembers members text) : members ≠ [] := by
  cases h <;> exact List.cons_ne_nil _ _

/-! ### Compact text -/

def literal : Json.Number → NumberParts
  | .integer value => Json.integerParts value
  | .float value => DecimalLayout.finiteParts Json.floatLayout value

def ofAtom : Json.Atom → Document
  | .boolean value => .boolean value
  | .number value => .number (literal value)
  | .text value => .string value

mutual

def ofJson : Json → Document
  | .null => .null
  | .atom value => ofAtom value
  | .array items => .array (ofItems items)
  | .object members => .object (ofMembers members)

def ofItems : List Json → List Document
  | [] => []
  | item :: items => ofJson item :: ofItems items

def ofMembers : List (String × Json) → List (String × Document)
  | [] => []
  | (name, value) :: members => (name, ofJson value) :: ofMembers members

end

theorem areBlanks_nil : AreBlanks [] := nofun

/-- A document may stand without blanks around it. -/
theorem Spells.padded {document : Document} {text : List Char} (h : Spells document text) :
    SpellsPadded document text := by
  have hPadded := SpellsPadded.mk areBlanks_nil h areBlanks_nil
  rwa [List.append_nil, List.nil_append] at hPadded

/-- A string that is written is spelled. -/
theorem spells_writeString (text : String) : SpellsString text (Json.writeString text) :=
  .mk (Json.spells_flatMap_escape text.toList)

theorem SpellsPadded.member {name : String} {value : Document} {text : List Char}
    (h : SpellsPadded value text) :
    SpellsMember name value (Json.writeString name ++ ':' :: text) :=
  .mk areBlanks_nil (spells_writeString name) areBlanks_nil h

/-- An atom that is written is spelled. -/
theorem spells_atom (value : Json.Atom) : Spells (ofAtom value) value.write := by
  cases value with
  | boolean value => cases value <;> constructor
  | number value =>
      cases value with
      | integer value =>
          rw [Json.Atom.write, Json.Number.write, Json.writeInt_eq_spell]
          exact .number (Json.integerParts_wellSpelled value)
      | float value =>
          rw [Json.Atom.write, Json.Number.write, DecimalLayout.writeFinite_eq_spell]
          exact .number (DecimalLayout.wellSpelled_finiteParts _ value)
  | text value => exact .string (spells_writeString value)

mutual

/-- The compact text of a value is one of the spellings of its document. -/
theorem spells_write : ∀ value : Json, Spells (ofJson value) value.write
  | .null => .null
  | .atom value => spells_atom value
  | .array items => by
      by_cases h : items = []
      · rw [h]
        exact .emptyArray areBlanks_nil
      · exact .array (spells_writeItems items h)
  | .object members => by
      by_cases h : members = []
      · rw [h]
        exact .emptyObject areBlanks_nil
      · exact .object (spells_writeMembers members h)

/-- The items of an array that is written are spelled, without blanks between them. -/
theorem spells_writeItems : ∀ items : List Json, items ≠ [] →
    SpellsItems (ofItems items) (Json.writeItems items)
  | [], h => absurd rfl h
  | [item], _ => .one (spells_write item).padded
  | item :: next :: items, _ =>
      .cons (spells_write item).padded
        (spells_writeItems (next :: items) (List.cons_ne_nil next items))

/-- The members of an object that is written are spelled, without blanks between them. -/
theorem spells_writeMembers : ∀ members : List (String × Json), members ≠ [] →
    SpellsMembers (ofMembers members) (Json.writeMembers members)
  | [], h => absurd rfl h
  | [(_, value)], _ => .one (spells_write value).padded.member
  | (_, value) :: next :: members, _ =>
      .cons (spells_write value).padded.member
        (spells_writeMembers (next :: members) (List.cons_ne_nil next members))

end

/-- The compact text of a value is a text of its document. -/
theorem isText_text (value : Json) : IsText (ofJson value) value.text := by
  rw [IsText, Json.text, String.toList_ofList]
  exact (spells_write value).padded

end Document

end PinnedTree
