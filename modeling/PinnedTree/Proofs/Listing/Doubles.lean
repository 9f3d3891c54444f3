import Mathlib.Tactic.FieldSimp
import PinnedTree.Proofs.Listing.Integers
import PinnedTree.Proofs.Listing.Repeats
import PinnedTree.Proofs.Scalar.Json

/-! Doubles in listings. A number with a point or an exponent is never refused, and one that is too
large for a double is read as an infinity. So the doubles of a node are finite, and come back from
JSON text, exactly if no such number stands in the last member that gives a property. -/
namespace PinnedTree

namespace Listing

open Text

/-! ### Numbers that are too large -/

/-- The decimal that a number spells, without its sign. -/
def magnitude (parts : NumberParts) : ℚ :=
  let fraction := parts.fraction.getD []
  (decimal parts.whole + decimal fraction / 10 ^ fraction.length) *
    10 ^ (parts.exponent.map ExponentParts.value).getD 0

/-- A number with a point or an exponent whose decimal is rounded beyond the finite doubles. -/
def Overflows (token : Token) : Prop :=
  token.kind = .number ∧ IsFractional token.text ∧
    ∃ parts : NumberParts, parts.WellSpelled ∧ token.text.toList = parts.spell ∧
      Double.overflowBound ≤ magnitude parts

/-- Digits behind others count less by as many places. -/
theorem decimal_append (left right : List Char) :
    decimal (left ++ right) = decimal left * 10 ^ right.length + decimal right := by
  rw [decimal, List.reverse_append, List.map_append, Nat.ofDigits_append, List.length_map,
    List.length_reverse, Nat.add_comm, Nat.mul_comm]
  rfl

/-- The decimal that a number spells is its digits, scaled by its power of ten. -/
theorem magnitude_eq (parts : NumberParts) :
    magnitude parts = parts.numeral.digits * 10 ^ parts.numeral.power := by
  rw [Numeral.digits, Numeral.power, digitsValue_eq_decimal, decimal_append]
  simp only [magnitude, NumberParts.numeral]
  generalize parts.fraction.getD [] = fraction
  generalize (parts.exponent.map ExponentParts.value).getD 0 = exponent
  have hTen : (10 : ℚ) ^ fraction.length ≠ 0 := pow_ne_zero _ (by norm_num)
  rw [zpow_sub₀ (by norm_num), zpow_natCast]
  push_cast
  field_simp

/-- A number is read as the double nearest to its decimal. -/
theorem read?_of_spell {token : Token} {parts : NumberParts} (hParts : parts.WellSpelled)
    (hText : token.text.toList = parts.spell) :
    Double.read? token.text.toList = some (.ofNumeral parts.numeral) := by
  rw [Double.read?, hText, NumberParts.read?_spell hParts]
  rfl

/-- A number is finite exactly below the bound. -/
theorem isFinite_ofNumeral (parts : NumberParts) :
    (Double.ofNumeral parts.numeral).isFinite = true ↔
      magnitude parts < Double.overflowBound := by
  rw [Double.ofNumeral, Double.isFinite_ofDecimal, magnitude_eq]

/-- A decimal is rounded beyond the finite doubles exactly from the bound on. -/
theorem not_isFinite_ofNumeral (parts : NumberParts) :
    (Double.ofNumeral parts.numeral).isFinite = false ↔
      Double.overflowBound ≤ magnitude parts := by
  rw [← not_lt, ← isFinite_ofNumeral, Bool.not_eq_true]

/-- From the bound on, a decimal is rounded to the infinity of its sign. -/
theorem ofNumeral_of_overflow {parts : NumberParts}
    (h : Double.overflowBound ≤ magnitude parts) :
    Double.ofNumeral parts.numeral = .infinite parts.negative :=
  Double.ofDecimal_of_not_isFinite ((not_isFinite_ofNumeral parts).mpr h)

/-- A number with a point or an exponent overflows exactly from the bound on. -/
theorem overflows_iff {token : Token} {parts : NumberParts} (hParts : parts.WellSpelled)
    (hText : token.text.toList = parts.spell) (hKind : token.kind = .number)
    (hFractional : IsFractional token.text) :
    Overflows token ↔ Double.overflowBound ≤ magnitude parts := by
  refine ⟨?_, fun hAbove => ⟨hKind, hFractional, parts, hParts, hText, hAbove⟩⟩
  rintro ⟨-, -, others, hOthers, hSame, hAbove⟩
  have hRead := NumberParts.read?_spell hOthers
  rw [← hSame, hText, NumberParts.read?_spell hParts] at hRead
  rwa [magnitude_eq, Option.some.inj hRead, ← magnitude_eq]

/-- How a number is read as a double: below the bound it is finite, and from the bound on it is the
infinity of its sign. -/
inductive ReadsAsDouble (token : Token) : Prop where
  | finite {parts : NumberParts} {value : FiniteDouble} (hParts : parts.WellSpelled)
      (hText : token.text.toList = parts.spell) (hBelow : magnitude parts < Double.overflowBound)
      (hStands : Stands token (.double (.finite value))) : ReadsAsDouble token
  | infinite {parts : NumberParts} (hParts : parts.WellSpelled)
      (hText : token.text.toList = parts.spell) (hAbove : Double.overflowBound ≤ magnitude parts)
      (hStands : Stands token (.double (.infinite parts.negative))) : ReadsAsDouble token

/-- A number of a text with a point or an exponent is read as a double, whatever its size. -/
theorem readsAsDouble {text : String} {token : Token} (h : token ∈ (Tokens.ofString text).front)
    (hKind : token.kind = .number) (hFractional : IsFractional token.text) :
    ReadsAsDouble token := by
  obtain ⟨parts, hParts, hText⟩ := Tokens.number_of_mem h hKind
  have hStands : Stands token (.double (.ofNumeral parts.numeral)) :=
    .double hKind hFractional (read?_of_spell hParts hText)
  cases hFinite : (Double.ofNumeral parts.numeral).isFinite with
  | false =>
      have hAbove := (not_isFinite_ofNumeral parts).mp hFinite
      exact .infinite hParts hText hAbove (ofNumeral_of_overflow hAbove ▸ hStands)
  | true =>
      obtain ⟨value, hValue⟩ := Double.exists_of_isFinite hFinite
      exact .finite hParts hText ((isFinite_ofNumeral parts).mp hFinite) (hValue ▸ hStands)

/-! ### Values -/

def Spelled (token : Token) : Prop :=
  token.kind = .number →
    ∃ parts : NumberParts, parts.WellSpelled ∧ token.text.toList = parts.spell

theorem not_overflows_of_kind {token : Token} {kind : TokenKind} (h : token.kind = kind)
    (hKind : kind ≠ .number) : ¬ Overflows token :=
  fun hOverflows => hKind (h.symm.trans hOverflows.1)

/-- A scalar is finite exactly when its token does not overflow. -/
theorem Stands.isFinite_iff {token : Token} {value : Scalar} (h : Stands token value)
    (hSpelled : Spelled token) : value.isFinite = Bool.true ↔ ¬ Overflows token := by
  cases h with
  | text hKind | true hKind | false hKind =>
      exact iff_of_true rfl (not_overflows_of_kind hKind (by decide))
  | long hKind hWhole => exact iff_of_true rfl fun hOverflows => hWhole hOverflows.2.1
  | double hKind hFractional hRead =>
      obtain ⟨parts, hParts, hText⟩ := hSpelled hKind
      rw [read?_of_spell hParts hText] at hRead
      cases hRead
      rw [overflows_iff hParts hText hKind hFractional, not_le]
      exact isFinite_ofNumeral parts

/-- The scalars of an array are finite exactly when none of the tokens overflows. -/
theorem Items.isFinite_iff {tokens : List Token} {values : List Scalar} (h : Items tokens values)
    (hSpelled : ∀ token ∈ tokens, Spelled token) :
    (∀ value ∈ values, value.isFinite = true) ↔ ∀ token ∈ tokens, ¬ Overflows token := by
  induction h with
  | @first bracket token value hBracket hValue =>
      have hMark : ¬ Overflows bracket := not_overflows_of_kind hBracket (by decide)
      have hFinite := hValue.isFinite_iff (hSpelled token (by simp))
      simp [hMark, hFinite]
  | @next front values comma token value _ hComma hValue ih =>
      have hMark : ¬ Overflows comma := not_overflows_of_kind hComma (by decide)
      have hFinite := hValue.isFinite_iff (hSpelled token (by simp))
      have hFront := ih fun token hMem => hSpelled token (List.mem_append_left _ hMem)
      simp [or_imp, forall_and, hFront, hFinite, hMark]

/-- The value of a property is finite exactly if no number overflows in it. -/
theorem Says.isFinite_iff {name other : String} {tokens : List Token} {value : Property}
    (h : Says name tokens (.property other value)) (hSpelled : ∀ token ∈ tokens, Spelled token) :
    value.IsFinite ↔ ∀ token ∈ tokens, ¬ Overflows token := by
  cases h with
  | @one token value _ hValue =>
      have hFinite := hValue.isFinite_iff (hSpelled token List.mem_cons_self)
      simpa [Property.IsFinite, OneOrMany.toList] using hFinite
  | @none left right _ hLeft hRight =>
      have hOpening : ¬ Overflows left := not_overflows_of_kind hLeft (by decide)
      have hClosing : ¬ Overflows right := not_overflows_of_kind hRight (by decide)
      simp [Property.IsFinite, OneOrMany.toList, hOpening, hClosing]
  | @many tokens values right _ hItems hRight =>
      have hClosing : ¬ Overflows right := not_overflows_of_kind hRight (by decide)
      have hFront := hItems.isFinite_iff fun token hMem =>
        hSpelled token (List.mem_append_left _ hMem)
      simpa [Property.IsFinite, OneOrMany.toList, or_imp, forall_and, hClosing] using hFront

/-- A property is finite exactly when none of the tokens of its member overflows. -/
theorem Member.isFinite_iff {name : String} {tokens : List Token} {value : Property}
    (h : Member tokens (.property name value)) (hSpelled : ∀ token ∈ tokens, Spelled token) :
    value.IsFinite ↔ ∀ token ∈ tokens, ¬ Overflows token := by
  obtain ⟨hName, hColon, hValue⟩ := h
  rename_i name colon tokens
  have hString : ¬ Overflows name := not_overflows_of_kind hName (by decide)
  have hMark : ¬ Overflows colon := not_overflows_of_kind hColon (by decide)
  have hFinite := hValue.isFinite_iff fun token hMem =>
    hSpelled token (List.mem_cons_of_mem _ (List.mem_cons_of_mem _ hMem))
  simp [hString, hMark, hFinite]

/-! ### Members -/

/-- The tokens of the last member of a text that gives a property, and the value that it gives. -/
inductive LastGiven (text name : String) (tokens : List Token) (value : Property) : Prop where
  | mk {before behind : List Token} {earlier later : List Entry}
      (hTokens : (Tokens.ofString text).front = before ++ (tokens ++ behind))
      (hBefore : Due before earlier) (hMember : Member tokens (.property name value))
      (hSpells : Spells text (earlier ++ .property name value :: later))
      (hLast : ∀ other, .property name other ∉ later) : LastGiven text name tokens value

theorem Opened.exists_member {tokens : List Token} {entries earlier later : List Entry}
    {entry : Entry} (h : Opened tokens entries) (hEntries : entries = earlier ++ entry :: later) :
    ∃ before member behind, tokens = before ++ (member ++ behind) ∧ Due before earlier ∧
      Member member entry := by
  induction h generalizing later with
  | @first brace member one hBrace hMember =>
      obtain ⟨rfl, hRest⟩ | ⟨-, hRest⟩ := List.singleton_eq_append_iff.mp hEntries
      · cases hRest
        exact ⟨[brace], member, [], by simp, .first hBrace, hMember⟩
      · cases hRest
  | @next front member entries comma last hFront hComma hMember ih =>
      rcases List.eq_nil_or_concat later with rfl | ⟨others, final, rfl⟩
      · obtain ⟨rfl, hSame⟩ := List.append_inj' hEntries rfl
        cases hSame
        exact ⟨front ++ [comma], member, [], by simp, .next hFront hComma, hMember⟩
      · rw [List.concat_eq_append, ← List.cons_append, ← List.append_assoc] at hEntries
        obtain ⟨hFormer, -⟩ := List.append_inj' hEntries rfl
        obtain ⟨before, middle, behind, rfl, hBefore, hMiddle⟩ := ih hFormer
        exact ⟨before, middle, behind ++ comma :: member, by simp, hBefore, hMiddle⟩

/-- The tokens of a listing can be split around any of its members. -/
theorem Wire.exists_member {tokens : List Token} {earlier later : List Entry} {entry : Entry}
    (h : Wire tokens (earlier ++ entry :: later)) :
    ∃ before member behind, tokens = before ++ (member ++ behind) ∧ Due before earlier ∧
      Member member entry := by
  generalize hEntries : earlier ++ entry :: later = entries at h
  cases h with
  | empty => simp at hEntries
  | @members front _ right hFront =>
      obtain ⟨before, member, behind, rfl, hBefore, hMember⟩ :=
        hFront.exists_member hEntries.symm
      exact ⟨before, member, behind ++ [right], by simp, hBefore, hMember⟩

def Entry.value? (name : String) : Entry → Option Property
  | .property other value => if other = name then some value else none
  | _ => none

theorem Entry.value?_eq_some_iff {name : String} {entry : Entry} {value : Property} :
    entry.value? name = some value ↔ entry = .property name value := by
  cases entry with
  | total count => exact ⟨nofun, nofun⟩
  | child other => exact ⟨nofun, nofun⟩
  | property other value => simp [value?]

/-- The last of some members decides about a name if it gives the property. -/
theorem find?_concat (name : String) (front : List Entry) (last : Entry) :
    Members.find? name ((front ++ [last]).filterMap Entry.property?).reverse =
      (last.value? name).or (Members.find? name (front.filterMap Entry.property?).reverse) := by
  rw [List.filterMap_append, List.reverse_append]
  cases last with
  | total count => rfl
  | child other => rfl
  | property other value =>
      by_cases hSame : other = name <;>
        simp [Entry.property?, Entry.value?, Members.find?, hSame]

/-- The value of a property is the one that the last of its members gives. -/
theorem find?_eq_some_iff_split {name : String} {entries : List Entry} {value : Property} :
    Members.find? name (entries.filterMap Entry.property?).reverse = some value ↔
      ∃ earlier later, entries = earlier ++ .property name value :: later ∧
        ∀ other, .property name other ∉ later := by
  induction entries using List.reverseRecOn with
  | nil => simp
  | append_singleton front last ih =>
      rw [find?_concat, Option.or_eq_some_iff, ih, Entry.value?_eq_some_iff]
      constructor
      · rintro (rfl | ⟨hOther, earlier, later, rfl, hLast⟩)
        · exact ⟨front, [], rfl, fun _ => List.not_mem_nil⟩
        · refine ⟨earlier, later ++ [last], by simp, fun other hMem => ?_⟩
          rcases List.mem_append.mp hMem with hMem | hMem
          · exact hLast other hMem
          · cases List.mem_singleton.mp hMem
            simp [Entry.value?] at hOther
      · rintro ⟨earlier, later, hEntries, hLast⟩
        rcases List.eq_nil_or_concat later with rfl | ⟨others, final, rfl⟩
        · obtain ⟨-, hSame⟩ := List.append_inj' hEntries rfl
          exact .inl (List.singleton_inj.mp hSame)
        · rw [List.concat_eq_append, ← List.cons_append, ← List.append_assoc] at hEntries
          obtain ⟨rfl, hSame⟩ := List.append_inj' hEntries rfl
          cases hSame
          refine .inr ⟨?_, earlier, others, rfl, fun other hMem => hLast other (by simp [hMem])⟩
          cases hValue : last.value? name with
          | none => rfl
          | some other =>
              obtain rfl := Entry.value?_eq_some_iff.mp hValue
              exact absurd (by simp) (hLast other)

variable {limit : Nat} {text : String} {listing : Listing}

/-- A listing that is accepted names no property twice. -/
theorem nodup_properties (hRead : ofString limit text = .ok listing) :
    (Members.names listing.properties).Nodup := by
  obtain ⟨entries, hSpells⟩ := exists_spells_of_ok hRead
  rw [(hSpells.ofString_eq_ok hRead).2.properties.names]
  exact nodup_eraseDups _

/-- The properties of a listing are those that are given last. -/
theorem mem_properties_iff (hRead : ofString limit text = .ok listing) {name : String}
    {value : Property} :
    (name, value) ∈ listing.properties ↔ ∃ tokens, LastGiven text name tokens value := by
  rw [← Members.find?_eq_some_iff (nodup_properties hRead)]
  constructor
  · intro hFound
    obtain ⟨entries, hSpells⟩ := exists_spells_of_ok hRead
    rw [(hSpells.ofString_eq_ok hRead).2.properties.values] at hFound
    obtain ⟨earlier, later, rfl, hLast⟩ := find?_eq_some_iff_split.mp hFound
    obtain ⟨before, tokens, behind, hTokens, hBefore, hMember⟩ := hSpells.front.exists_member
    exact ⟨tokens, .mk hTokens hBefore hMember hSpells hLast⟩
  · rintro ⟨tokens, hTokens, hBefore, hMember, hSpells, hLast⟩
    rw [(hSpells.ofString_eq_ok hRead).2.properties.values]
    exact find?_eq_some_iff_split.mpr ⟨_, _, rfl, hLast⟩

/-- What is given last is finite exactly if no number overflows in the member. -/
theorem LastGiven.isFinite_iff {name : String} {tokens : List Token} {value : Property}
    (h : LastGiven text name tokens value) :
    value.IsFinite ↔ ∀ token ∈ tokens, ¬ Overflows token := by
  obtain ⟨hTokens, -, hMember, -, -⟩ := h
  apply hMember.isFinite_iff
  intro token hMem hKind
  have hFront : token ∈ (Tokens.ofString text).front := by
    rw [hTokens]
    exact List.mem_append_right _ (List.mem_append_left _ hMem)
  exact Tokens.number_of_mem hFront hKind

/-! ### Listings of numbers -/

/-- A name that can be a property, and a number with a point or an exponent. -/
structure IsDoubleMember (member : String × NumberParts) : Prop where
  name : member.1 ≠ childNodeCount
  spelled : member.2.WellSpelled
  fractional : IsFractional (String.ofList member.2.spell)

def doubles (members : List (String × NumberParts)) : List (String × Document) :=
  members.map fun member => (member.1, .number member.2)

/-- What a member says whose number is read as the nearest double. -/
def doubleEntry (member : String × NumberParts) : Entry :=
  .property member.1 (.one (.double (.ofNumeral member.2.numeral)))

theorem IsDoubleMember.member {member : String × NumberParts} (h : IsDoubleMember member)
    {tokens : List Token}
    (hWords : tokens.map Token.word = Document.memberWords (doubles [member])) :
    Member tokens (doubleEntry member) := by
  obtain ⟨name, parts⟩ := member
  obtain ⟨first, tokens, rfl, hFirst, hWords⟩ := List.map_eq_cons_iff.mp hWords
  obtain ⟨colon, tokens, rfl, hColon, hWords⟩ := List.map_eq_cons_iff.mp hWords
  obtain ⟨number, tokens, rfl, hNumber, hWords⟩ := List.map_eq_cons_iff.mp hWords
  obtain rfl := List.map_eq_nil_iff.mp hWords
  obtain ⟨hKind, hText⟩ := Prod.mk.inj hFirst
  obtain ⟨hNumber, hLiteral⟩ := Prod.mk.inj hNumber
  have hSpell : number.text.toList = parts.spell := by
    rw [hLiteral, String.toList_ofList]
  have hFractional : IsFractional number.text := hLiteral ▸ h.fractional
  have hStands : Stands number (.double (.ofNumeral parts.numeral)) :=
    .double hNumber hFractional (read?_of_spell h.spelled hSpell)
  obtain rfl : first.text = name := hText
  exact .mk hKind (congrArg Prod.fst hColon) (.one h.name hStands)

/-- The members are read one by one. Behind each but the last there is a comma, where the next one
is due. -/
theorem opened_of_words {members : List (String × NumberParts)} (hSome : members ≠ [])
    (hMembers : ∀ member ∈ members, IsDoubleMember member) {front tokens : List Token}
    {entries : List Entry} (hDue : Due front entries)
    (hWords : tokens.map Token.word = Document.memberWords (doubles members)) :
    Opened (front ++ tokens) (entries ++ members.map doubleEntry) := by
  induction members generalizing front tokens entries with
  | nil => exact absurd rfl hSome
  | cons member members ih =>
      obtain ⟨hFirst, hRest⟩ := List.forall_mem_cons.mp hMembers
      by_cases hLast : members = []
      · subst hLast
        exact hDue.opened (hFirst.member hWords)
      · have hMore : doubles members ≠ [] := fun hNone => hLast (List.map_eq_nil_iff.mp hNone)
        have hSplit : Document.memberWords (doubles (member :: members)) =
            Document.memberWords (doubles [member]) ++
              (.comma, ",") :: Document.memberWords (doubles members) :=
          Document.memberWords_cons _ _ hMore
        rw [hSplit] at hWords
        obtain ⟨first, behind, rfl, hFirstWords, hWords⟩ := List.map_eq_append_iff.mp hWords
        obtain ⟨comma, others, rfl, hComma, hWords⟩ := List.map_eq_cons_iff.mp hWords
        have hOpened := hDue.opened (hFirst.member hFirstWords)
        have hNext := ih hLast hRest (.next hOpened (congrArg Prod.fst hComma)) hWords
        simpa using hNext

/-- The text of an object of numbers spells the doubles that are nearest to them. -/
theorem spells_doubles {members : List (String × NumberParts)} (hSome : members ≠ [])
    (hMembers : ∀ member ∈ members, IsDoubleMember member) {text : String}
    (hText : (Document.object (doubles members)).IsText text) :
    Spells text (members.map doubleEntry) := by
  obtain ⟨tokens, hWords, hScan⟩ := Document.SpellsPadded.cuts hText Lexeme.separated_nil 0
  rw [List.append_nil, Tokens.scan_nil] at hScan
  have hTokens : (Tokens.ofString text).front = tokens := by
    rw [Tokens.ofString, hScan, Tokens.after, List.append_nil]
  refine ⟨⟨_, by rw [Tokens.ofString, hScan]; rfl⟩, ?_⟩
  rw [hTokens]
  obtain ⟨brace, tokens, rfl, hBrace, hWords⟩ := List.map_eq_cons_iff.mp hWords
  obtain ⟨inner, behind, rfl, hInner, hWords⟩ := List.map_eq_append_iff.mp hWords
  obtain ⟨right, tokens, rfl, hRight, hWords⟩ := List.map_eq_cons_iff.mp hWords
  obtain rfl := List.map_eq_nil_iff.mp hWords
  have hOpened := opened_of_words hSome hMembers (.first (congrArg Prod.fst hBrace)) hInner
  exact .members hOpened (congrArg Prod.fst hRight)

/-- A number that is too large is accepted and replaced by an infinity, however its listing is
spelled. -/
theorem exists_listing_of_overflow {name : String} {parts : NumberParts}
    (h : IsDoubleMember (name, parts)) (hAbove : Double.overflowBound ≤ magnitude parts)
    {text : String} (hText : (Document.object (doubles [(name, parts)])).IsText text)
    (limit : Nat) :
    ∃ listing, ofString limit text = .ok listing ∧
      (name, .one (.double (.infinite parts.negative))) ∈ listing.properties := by
  have hSpells : Spells text [doubleEntry (name, parts)] :=
    spells_doubles (List.cons_ne_nil _ _) (List.forall_mem_singleton.mpr h) hText
  obtain ⟨listing, hRead⟩ : ∃ listing, ofString limit text = .ok listing :=
    hSpells.exists_listing ⟨nofun, Nat.zero_le limit⟩
  have hValue := (hSpells.ofString_eq_ok hRead).2.properties.values name
  refine ⟨listing, hRead, Members.mem_of_find? (hValue.trans ?_)⟩
  rw [doubleEntry, ofNumeral_of_overflow hAbove]
  exact if_pos rfl

end Listing

/-- Each number of an accepted text with a point or an exponent is read as a double, and one that is
too large as an infinity. Each property has the value that its last member gives, which is finite
if and only if no number of that member is too large, and only then it comes back from JSON text.
So all doubles are finite if and only if no number is too large in the last member of a property. -/
theorem decoded_finite_iff {limit : Nat} {text : String} {listing : Listing}
    (hRead : Listing.ofString limit text = .ok listing) :
    (∀ token ∈ (Tokens.ofString text).front, token.kind = .number →
        Listing.IsFractional token.text → Listing.ReadsAsDouble token) ∧
      (∀ name value, (name, value) ∈ listing.properties ↔
        ∃ tokens, Listing.LastGiven text name tokens value) ∧
      (∀ name tokens value, Listing.LastGiven text name tokens value →
        (value.IsFinite ↔ ∀ token ∈ tokens, ¬ Listing.Overflows token) ∧
          ((∀ double, Scalar.double (.finite double) ∈ value.toList → double.ReadsBack) →
            (value.reread? = some value ↔ value.IsFinite))) ∧
      ((∀ member ∈ listing.properties, member.2.IsFinite) ↔
        ∀ name tokens value, Listing.LastGiven text name tokens value →
          ∀ token ∈ tokens, ¬ Listing.Overflows token) := by
  refine ⟨fun token => Listing.readsAsDouble, fun name value => Listing.mem_properties_iff hRead,
    fun name tokens value hGiven => ⟨hGiven.isFinite_iff, fun hDigits =>
      ⟨Property.isFinite_of_reread?, fun hFinite => Property.reread?_eq_self hFinite hDigits⟩⟩,
    fun hFinite name tokens value hGiven => ?_, fun hNone => ?_⟩
  · have hMember := (Listing.mem_properties_iff hRead).mpr ⟨tokens, hGiven⟩
    exact hGiven.isFinite_iff.mp (hFinite (name, value) hMember)
  · rintro ⟨name, value⟩ hMember
    obtain ⟨tokens, hGiven⟩ := (Listing.mem_properties_iff hRead).mp hMember
    exact hGiven.isFinite_iff.mpr (hNone name tokens value hGiven)

namespace Listing

open Text

def huge : NumberParts :=
  ⟨false, ['1'], none, some ⟨'e', [], ['9', '9', '9']⟩⟩

def small : NumberParts :=
  ⟨false, ['2'], some ['5'], none⟩

theorem isDoubleMember_huge : IsDoubleMember ("a", huge) where
  name := by decide
  spelled := by
    refine ⟨show IsDigits ['1'] by decide, by decide, nofun, ?_⟩
    rintro _ ⟨⟩
    exact ⟨.inl rfl, .inl rfl, show IsDigits ['9', '9', '9'] by decide⟩
  fractional := any_fractional_iff.mp (by decide)

theorem isDoubleMember_small : IsDoubleMember ("a", small) where
  name := by decide
  spelled := by
    refine ⟨show IsDigits ['2'] by decide, by decide, ?_, nofun⟩
    rintro _ ⟨⟩
    exact show IsDigits ['5'] by decide
  fractional := any_fractional_iff.mp (by decide)

def overflowing : String := "\x7b\"a\":1e999\x7d"

def replacing : String := "\x7b\"a\":1e999,\"a\":2.5\x7d"

theorem isText_overflowing : (Document.object (doubles [("a", huge)])).IsText overflowing :=
  have hHuge := (Document.Spells.number isDoubleMember_huge.spelled).padded
  (Document.Spells.object (.one hHuge.member)).padded

theorem spells_replacing :
    Spells replacing [doubleEntry ("a", huge), doubleEntry ("a", small)] := by
  have hMembers : ∀ member ∈ [("a", huge), ("a", small)], IsDoubleMember member := by
    simpa using ⟨isDoubleMember_huge, isDoubleMember_small⟩
  have hHuge := (Document.Spells.number isDoubleMember_huge.spelled).padded
  have hSmall := (Document.Spells.number isDoubleMember_small.spelled).padded
  have hText : (Document.object (doubles [("a", huge), ("a", small)])).IsText replacing :=
    (Document.Spells.object (.cons hHuge.member (.one hSmall.member))).padded
  exact spells_doubles (List.cons_ne_nil _ _) hMembers hText

end Listing

/-- The number that is too large is replaced, so none is too large in a last member. -/
theorem decoded_finite_iff_sample :
    ∃ listing, Listing.ofString 5 Listing.replacing = .ok listing ∧
      ("a", .one (.double (.ofNumeral Listing.small.numeral))) ∈ listing.properties ∧
      ∀ name tokens value, Listing.LastGiven Listing.replacing name tokens value →
        ∀ token ∈ tokens, ¬ Listing.Overflows token := by
  obtain ⟨listing, hRead⟩ : ∃ listing, Listing.ofString 5 Listing.replacing = .ok listing :=
    Listing.spells_replacing.exists_listing ⟨by decide, by decide⟩
  have hCollects := (Listing.spells_replacing.ofString_eq_ok hRead).2.properties
  have hValue : listing.properties.find? "a" =
      some (.one (.double (.ofNumeral Listing.small.numeral))) := hCollects.values "a"
  obtain ⟨-, -, -, hAll⟩ := decoded_finite_iff hRead
  refine ⟨listing, hRead, Members.mem_of_find? hValue, hAll.mp ?_⟩
  rintro ⟨name, value⟩ hMember
  have hName : name ∈ ["a"] := by
    have hNames : listing.properties.names = ["a"] := hCollects.names
    rw [← hNames]
    exact Members.mem_names.mpr ⟨value, hMember⟩
  obtain rfl := List.mem_singleton.mp hName
  have hFound := (Members.find?_eq_some_iff (Listing.nodup_properties hRead)).mpr hMember
  obtain rfl := Option.some.inj (hValue.symm.trans hFound)
  decide +kernel

/-- A number that is too large is accepted as a double that does not come back from JSON text. -/
theorem overflow_becomes_infinite :
    ∃ listing, Listing.ofString 5 Listing.overflowing = .ok listing ∧
      ("a", .one (.double (.infinite false))) ∈ listing.properties ∧
      ¬ Property.IsFinite (.one (.double (.infinite false))) ∧
      Property.reread? (.one (.double (.infinite false))) = none := by
  have hAbove : Double.overflowBound ≤ Listing.magnitude Listing.huge :=
    (Listing.not_isFinite_ofNumeral Listing.huge).mp (by decide +kernel)
  obtain ⟨listing, hRead, hMember⟩ := Listing.exists_listing_of_overflow
    Listing.isDoubleMember_huge hAbove Listing.isText_overflowing 5
  refine ⟨listing, hRead, hMember, by decide, ?_⟩
  rw [Property.reread?_one]
  rfl

end PinnedTree
