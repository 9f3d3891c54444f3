import PinnedTree.Proofs.Json.Spelled
import PinnedTree.Proofs.Text.Joined

/-! A text is the text of one value only. Values are compared word by word: the words of a value
tell where it ends, because brackets close what they open and a comma or a bracket stands behind
each item, and a number is read back from its literal. -/
namespace PinnedTree

namespace Json

/-! ### Numbers and atoms -/

/-- An integer has none of the marks of a double, and each of them is read back from its literal. -/
theorem Number.write_injective : Function.Injective Number.write := by
  intro left right h
  cases left with
  | integer value =>
      cases right with
      | integer other =>
          have hRead : Text.integer? (writeInt value) = Text.integer? (writeInt other) :=
            congrArg Text.integer? h
          rw [integer?_writeInt, integer?_writeInt] at hRead
          exact congrArg integer (Option.some.inj hRead)
      | float other =>
          have hMark := writeInt_not_fractional value
          rw [show writeInt value = floatLayout.writeFinite other from h,
            DecimalLayout.writeFinite_fractional] at hMark
          cases hMark
  | float value =>
      cases right with
      | integer other =>
          have hMark := writeInt_not_fractional other
          rw [← show floatLayout.writeFinite value = writeInt other from h,
            DecimalLayout.writeFinite_fractional] at hMark
          cases hMark
      | float other =>
          have hLayout : floatLayout.greatestPoint ≤ 16 := by decide
          have hRead : Double.read? (floatLayout.writeFinite value) =
              Double.read? (floatLayout.writeFinite other) :=
            congrArg Double.read? h
          rw [DecimalLayout.read?_writeFinite hLayout,
            DecimalLayout.read?_writeFinite hLayout] at hRead
          exact congrArg float (Double.finite.inj (Option.some.inj hRead))

/-- An atom is told by its kind and by the text of its token. -/
theorem Atom.eq_of_token {left right : Atom} (hKind : left.kind = right.kind)
    (hText : left.tokenText = right.tokenText) : left = right := by
  cases left with
  | boolean value =>
      cases right with
      | boolean other =>
          exact match value, other, hKind with
            | true, true, _ => rfl
            | false, false, _ => rfl
      | number other => cases value <;> cases hKind
      | text other => cases value <;> cases hKind
  | number value =>
      cases right with
      | boolean other => cases other <;> cases hKind
      | number other =>
          have hWrite : value.write = other.write := String.ofList_inj.mp hText
          exact congrArg number (Number.write_injective hWrite)
      | text other => cases hKind
  | text value =>
      cases right with
      | boolean other => cases other <;> cases hKind
      | number other => cases hKind
      | text other => exact congrArg text hText

theorem Atom.kind_ne_null (value : Atom) : value.kind ≠ .null := by
  cases value with
  | boolean value => cases value <;> exact nofun
  | number value => exact nofun
  | text value => exact nofun

end Json

namespace Document

open Text

/-- An atom is one word. -/
theorem words_ofAtom (value : Json.Atom) :
    (ofAtom value).words = [(value.kind, value.tokenText)] := by
  cases value with
  | boolean value => cases value <;> rfl
  | text value => rfl
  | number value =>
      cases value with
      | integer value =>
          exact congrArg (fun text => [(TokenKind.number, String.ofList text)])
            (Json.writeInt_eq_spell value).symm
      | float value =>
          exact congrArg (fun text => [(TokenKind.number, String.ofList text)])
            (DecimalLayout.writeFinite_eq_spell Json.floatLayout value).symm

/-! ### Values -/

def wordsOfMember (member : String × Json) : List Word :=
  (.string, member.1) :: (.colon, ":") :: (ofJson member.2).words

def comma : Word := (.comma, ",")

/-- The words of items have commas between them. -/
theorem itemWords_ofItems (items : List Json) :
    itemWords (ofItems items) =
      [comma].intercalate (items.map fun item => (ofJson item).words) := by
  induction items with
  | nil => rfl
  | cons item items ih =>
      cases items with
      | nil => simp [ofItems, itemWords]
      | cons next items =>
          rw [ofItems, itemWords_cons _ (by simp [ofItems]), ih]
          simp [comma]

/-- The words of members have commas between them. -/
theorem memberWords_ofMembers (members : List (String × Json)) :
    memberWords (ofMembers members) = [comma].intercalate (members.map wordsOfMember) := by
  induction members with
  | nil => rfl
  | cons member members ih =>
      obtain ⟨name, value⟩ := member
      cases members with
      | nil => simp [ofMembers, memberWords, wordsOfMember]
      | cons next members =>
          rw [ofMembers, memberWords_cons _ _ (by simp [ofMembers]), ih]
          simp [comma, wordsOfMember]

/-- The words of an array are those of its items between brackets. -/
theorem words_array (items : List Json) (rest : List Word) :
    (ofJson (.array items)).words ++ rest = (.leftBracket, "[") ::
      joined (fun item => (ofJson item).words) [comma] (.rightBracket, "]") items rest := by
  simp [ofJson, words, itemWords_ofItems, joined]

/-- The words of an object are those of its members between braces. -/
theorem words_object (members : List (String × Json)) (rest : List Word) :
    (ofJson (.object members)).words ++ rest = (.leftBrace, "\x7b") ::
      joined wordsOfMember [comma] (.rightBrace, "\x7d") members rest := by
  simp [ofJson, words, memberWords_ofMembers, joined]

/-- The kind of the first word of a value. -/
def firstKind : Json → TokenKind
  | .null => .null
  | .atom value => value.kind
  | .array _ => .leftBracket
  | .object _ => .leftBrace

theorem exists_words (value : Json) (rest : List Word) :
    ∃ text more, (ofJson value).words ++ rest = (firstKind value, text) :: more := by
  cases value with
  | null => exact ⟨_, _, rfl⟩
  | atom value => exact ⟨_, _, congrArg (· ++ rest) (words_ofAtom value)⟩
  | array items => exact ⟨_, _, words_array items rest⟩
  | object members => exact ⟨_, _, words_object members rest⟩

/-- Values whose words start alike have the same kind of first word. -/
theorem firstKind_eq {left right : Json} {rest behind : List Word}
    (h : (ofJson left).words ++ rest = (ofJson right).words ++ behind) :
    firstKind left = firstKind right := by
  obtain ⟨_, _, hLeft⟩ := exists_words left rest
  obtain ⟨_, _, hRight⟩ := exists_words right behind
  rw [hLeft, hRight] at h
  exact congrArg Prod.fst (List.cons.inj h).1

/-- No value starts with a closing bracket. -/
theorem firstKind_ne (value : Json) : firstKind value ≠ .rightBracket := by
  cases value with
  | null => exact nofun
  | atom value => exact value.kind_ne_mark.2.2
  | array items => exact nofun
  | object members => exact nofun

/-- The words of a value tell where it ends, whatever follows. -/
abbrev DelimitsWords (value : Json) : Prop :=
  Delimits (fun value => (ofJson value).words) (fun _ => True) value

/-- A comma or a bracket stands behind an item, and no item starts with a bracket. -/
theorem brackets_items : Brackets (fun item => (ofJson item).words) (fun _ => True) [comma]
    (.rightBracket, "]") where
  beforeSeparator _ := trivial
  beforeClosing _ := trivial
  separator_ne _ _ h := by cases (List.cons.inj h).1
  element_ne item rest behind h := by
    obtain ⟨text, more, hWords⟩ := exists_words item rest
    rw [hWords] at h
    exact firstKind_ne item (congrArg Prod.fst (List.cons.inj h).1)

/-- A comma or a brace stands behind a member, and no member starts with a brace. -/
theorem brackets_members : Brackets wordsOfMember (fun _ => True) [comma]
    (.rightBrace, "\x7d") where
  beforeSeparator _ := trivial
  beforeClosing _ := trivial
  separator_ne _ _ h := by cases (List.cons.inj h).1
  element_ne _ _ _ h := by cases (List.cons.inj h).1

/-- A name is one word, and a colon is another. -/
theorem DelimitsWords.member {value : Json} (h : DelimitsWords value) (name : String) :
    Delimits wordsOfMember (fun _ => True) (name, value) where
  append_inj {other rest behind} hRest hBehind hWords := by
    obtain ⟨hName, hTail⟩ := List.cons.inj hWords
    obtain ⟨hValue, hSame⟩ := h.append_inj hRest hBehind (List.cons.inj hTail).2
    exact ⟨Prod.ext (congrArg Prod.snd hName) hValue, hSame⟩

theorem delimitsWords_null : DelimitsWords .null where
  append_inj {other _ _} _ _ h := by
    cases other with
    | null => exact ⟨rfl, (List.cons.inj h).2⟩
    | atom other => exact absurd (firstKind_eq h).symm other.kind_ne_null
    | array others => cases firstKind_eq h
    | object others => cases firstKind_eq h

theorem delimitsWords_atom (value : Json.Atom) : DelimitsWords (.atom value) where
  append_inj {other _ _} _ _ h := by
    cases other with
    | null => exact absurd (firstKind_eq h) value.kind_ne_null
    | atom other =>
        simp only [ofJson, words_ofAtom, List.singleton_append] at h
        obtain ⟨hWord, hRest⟩ := List.cons.inj h
        have hAtom := Json.Atom.eq_of_token (congrArg Prod.fst hWord) (congrArg Prod.snd hWord)
        exact ⟨congrArg Json.atom hAtom, hRest⟩
    | array others => exact absurd (firstKind_eq h) value.kind_ne_mark.2.1
    | object others => exact absurd (firstKind_eq h) value.kind_ne_mark.1

/-- The words of an array tell where it ends if those of its items do. -/
theorem delimitsWords_array {items : List Json} (hItems : ∀ item ∈ items, DelimitsWords item) :
    DelimitsWords (.array items) where
  append_inj {other _ _} _ _ h := by
    cases other with
    | null => cases firstKind_eq h
    | atom other => exact absurd (firstKind_eq h).symm other.kind_ne_mark.2.1
    | array others =>
        simp only [words_array] at h
        obtain ⟨hSame, hRest⟩ := brackets_items.joined_inj hItems (List.cons.inj h).2
        exact ⟨congrArg Json.array hSame, hRest⟩
    | object others => cases firstKind_eq h

/-- The words of an object tell where it ends if those of its members do. -/
theorem delimitsWords_object {members : List (String × Json)}
    (hMembers : ∀ member ∈ members, Delimits wordsOfMember (fun _ => True) member) :
    DelimitsWords (.object members) where
  append_inj {other _ _} _ _ h := by
    cases other with
    | null => cases firstKind_eq h
    | atom other => exact absurd (firstKind_eq h).symm other.kind_ne_mark.1
    | array others => cases firstKind_eq h
    | object others =>
        simp only [words_object] at h
        obtain ⟨hSame, hRest⟩ := brackets_members.joined_inj hMembers (List.cons.inj h).2
        exact ⟨congrArg Json.object hSame, hRest⟩

mutual

/-- The words of every value tell where it ends. The induction goes along the value: those of an
array or an object do because those of its items or members do. -/
theorem delimitsWords : ∀ value : Json, DelimitsWords value
  | .null => delimitsWords_null
  | .atom value => delimitsWords_atom value
  | .array items => delimitsWords_array (delimitsWords_items items)
  | .object members => delimitsWords_object (delimitsWords_members members)

theorem delimitsWords_items : ∀ items : List Json, ∀ item ∈ items, DelimitsWords item
  | [] => nofun
  | item :: items => List.forall_mem_cons.mpr ⟨delimitsWords item, delimitsWords_items items⟩

theorem delimitsWords_members : ∀ members : List (String × Json), ∀ member ∈ members,
    Delimits wordsOfMember (fun _ => True) member
  | [] => nofun
  | (name, value) :: members =>
      List.forall_mem_cons.mpr ⟨(delimitsWords value).member name, delimitsWords_members members⟩

end

/-! ### Texts -/

/-- A text of a document has its words and no others. -/
theorem IsText.words {document : Document} {text : String} (h : document.IsText text) :
    (Tokens.ofString text).front.map Token.word = document.words := by
  obtain ⟨front, hWords, hScan⟩ := SpellsPadded.cuts h Lexeme.separated_nil 0
  rw [List.append_nil, Tokens.scan_nil] at hScan
  rw [Tokens.ofString, hScan, Tokens.after, List.append_nil, hWords]

end Document

namespace Json

/-- Values with the same compact text are the same. -/
theorem text_injective : Function.Injective text := by
  intro left right h
  have hLeft := (Document.isText_text left).words
  rw [h, (Document.isText_text right).words] at hLeft
  exact ((Document.delimitsWords left).append_inj trivial trivial (congrArg (· ++ []) hLeft.symm)).1

end Json

end PinnedTree
