import PinnedTree.Proofs.Json.Tokens
import PinnedTree.Proofs.Listing.Places
import PinnedTree.Proofs.Number.Lexing
import PinnedTree.Proofs.Session.Loading

/-! Which texts are listings, and what is read from them. A text is accepted if and only if its
tokens are those of a listing that does not list too many children. Of members with the same name
the first one gives the place and the last one the value. -/
namespace PinnedTree

namespace Listing

/-! ### Accepted texts -/

/-- The tokens of a whole text are those of a listing with these members. -/
structure Spells (text : String) (entries : List Entry) : Prop where
  ending : ∃ position, (Tokens.ofString text).ending = .ok position
  front : Wire (Tokens.ofString text).front entries

/-- The text may end behind a listing and nowhere else. -/
theorem step_endingAt {place : Place} {draft : Draft} {position : Nat} {state : State}
    (h : step (place, draft) (.endingAt position) = .ok state) :
    place = .ending ∧ state = (.finished, draft) := by
  cases place with
  | ending =>
      cases h
      exact ⟨rfl, rfl⟩
  | _ => cases h

/-- A text is read only if it is spelled as a listing. -/
theorem exists_spells {text : String} {draft : Draft}
    (h : Listing.draft (.ofString text) = .ok draft) : ∃ entries, Spells text entries := by
  obtain ⟨state, hRun, -⟩ := exists_of_map_eq_ok h
  obtain ⟨⟨place, draft⟩, hFront, hEnd⟩ := exists_of_bind_eq_ok hRun
  split at hEnd
  · rename_i position hEnding
    obtain ⟨rfl, -⟩ := step_endingAt hEnd
    obtain ⟨entries, hReads, -⟩ := continues_of_foldlM hFront
    cases hReads with
    | ending hWire => exact ⟨entries, ⟨position, hEnding⟩, hWire⟩
  · cases hEnd

/-- A text with these members is read as what they say. -/
theorem Spells.draft {text : String} {entries : List Entry} (h : Spells text entries) :
    Listing.draft (.ofString text) = .ok (.ofEntries entries) := by
  obtain ⟨position, hEnding⟩ := h.ending
  rw [Listing.draft, Tokens.run, h.front.read, hEnding]
  rfl

/-! ### What the members say -/

namespace Entry

def total? : Entry → Option Nat
  | .total count => some count
  | _ => none

def child? : Entry → Option String
  | .child name => some name
  | _ => none

def property? : Entry → Option (String × Property)
  | .property name value => some (name, value)
  | _ => none

end Entry

/-- The children that members list, each once and in the order of their first places. -/
def listedChildren (entries : List Entry) : List String :=
  (entries.filterMap Entry.child?).eraseDups

def lastTotal? (entries : List Entry) : Option Nat :=
  (entries.filterMap Entry.total?).getLast?

/-- No more children are listed than are counted, nor more than were asked for. -/
structure Fits (limit : Nat) (entries : List Entry) : Prop where
  counted : ∀ count ∈ lastTotal? entries, (listedChildren entries).length ≤ count
  requested : (listedChildren entries).length ≤ limit

/-- Each name of a property stands once, where it came first, with the value that came last. -/
structure Collects (entries : List Entry) (properties : Members Property) : Prop where
  names : properties.names = ((entries.filterMap Entry.property?).map Prod.fst).eraseDups
  values : ∀ name, properties.find? name =
    Members.find? name (entries.filterMap Entry.property?).reverse

/-- A listing holds what its members say. -/
structure Describes (entries : List Entry) (listing : Listing) : Prop where
  properties : Collects entries listing.properties
  children : listing.children = listedChildren entries
  childCount : listing.childCount = (lastTotal? entries).getD (listedChildren entries).length

/-- What comes again changes nothing, and what is new goes to the end. -/
theorem eraseDups_concat {α : Type} [DecidableEq α] (list : List α) (last : α) :
    (list ++ [last]).eraseDups =
      if last ∈ list.eraseDups then list.eraseDups else list.eraseDups ++ [last] := by
  rw [List.eraseDups_append]
  by_cases hOld : last ∈ list
  · rw [if_pos (List.mem_eraseDups.mpr hOld)]
    simp [List.removeAll, hOld]
  · rw [if_neg (hOld ∘ List.mem_eraseDups.mp)]
    simp [List.removeAll, hOld, List.eraseDups_cons]

theorem eraseDups_of_nodup {α : Type} [DecidableEq α] {list : List α} (h : list.Nodup) :
    list.eraseDups = list := by
  induction list using List.reverseRecOn with
  | nil => rfl
  | append_singleton front last ih =>
      obtain ⟨hFront, -, hLast⟩ := List.nodup_append.mp h
      have hNew : last ∉ front := fun hOld => hLast last hOld last List.mem_cons_self rfl
      rw [eraseDups_concat, ih hFront, if_neg hNew]

theorem nodup_eraseDups {α : Type} [DecidableEq α] (list : List α) : list.eraseDups.Nodup := by
  induction list using List.reverseRecOn with
  | nil => exact List.nodup_nil
  | append_singleton front last ih =>
      rw [eraseDups_concat]
      split
      · exact ih
      · rename_i hNew
        refine List.nodup_append.mpr ⟨ih, List.nodup_singleton last, ?_⟩
        rintro name hOld other hOther rfl
        exact hNew (List.mem_singleton.mp hOther ▸ hOld)

namespace Draft

/-- A draft holds what the members before it say. -/
structure Holds (draft : Draft) (entries : List Entry) : Prop where
  properties : Collects entries draft.properties
  children : draft.children = listedChildren entries
  childCount : draft.childCount = lastTotal? entries

theorem addChild_eq (draft : Draft) (name : String) :
    draft.addChild name =
      { draft with
        children :=
          if name ∈ draft.children then draft.children else draft.children ++ [name] } := by
  rw [addChild]
  split <;> rfl

/-- One more member is held with the others. -/
theorem Holds.take {draft : Draft} {entries : List Entry} (h : draft.Holds entries)
    (entry : Entry) : (draft.take entry).Holds (entries ++ [entry]) := by
  obtain ⟨⟨hNames, hValues⟩, hChildren, hCount⟩ := h
  -- Each kind of member adds to one of the views, and is not seen by the others.
  cases entry with
  | total count =>
      refine ⟨⟨?_, ?_⟩, ?_, ?_⟩
      · simpa [Draft.take, List.filterMap_cons, Entry.property?] using hNames
      · simpa [Draft.take, List.filterMap_cons, Entry.property?] using hValues
      · simpa [Draft.take, listedChildren, List.filterMap_cons, Entry.child?] using hChildren
      · simp [Draft.take, lastTotal?, Entry.total?]
  | child name =>
      rw [Draft.take, addChild_eq]
      refine ⟨⟨?_, ?_⟩, ?_, ?_⟩
      · simpa [List.filterMap_cons, Entry.property?] using hNames
      · simpa [List.filterMap_cons, Entry.property?] using hValues
      · simp only [hChildren, listedChildren, List.filterMap_append, List.filterMap_cons,
          Entry.child?, List.filterMap_nil, eraseDups_concat]
      · simpa [lastTotal?, List.filterMap_cons, Entry.total?] using hCount
  | property name value =>
      rw [Draft.take, addProperty]
      refine ⟨⟨?_, ?_⟩, ?_, ?_⟩
      · simp only [Members.names_put, hNames, List.filterMap_append, List.filterMap_cons,
          Entry.property?, List.filterMap_nil, List.map_append, List.map_cons, List.map_nil,
          eraseDups_concat]
      · intro other
        simp [Members.find?_put, hValues, Entry.property?, Members.find?]
      · simpa [listedChildren, List.filterMap_cons, Entry.child?] using hChildren
      · simpa [lastTotal?, List.filterMap_cons, Entry.total?] using hCount

/-- What is read of some members holds what they say. -/
theorem holds_ofEntries (entries : List Entry) : (ofEntries entries).Holds entries := by
  induction entries using List.reverseRecOn with
  | nil => exact ⟨⟨rfl, fun _ => rfl⟩, rfl, rfl⟩
  | append_singleton front last ih =>
      rw [ofEntries_concat]
      exact ih.take last

end Draft

/-! ### Whole texts -/

/-- What has been read makes a listing exactly when no more children are listed than are counted or
were asked for. -/
theorem ofDraft_eq_ok_iff {limit position : Nat} {draft : Draft} {listing : Listing} :
    ofDraft limit position draft = .ok listing ↔
      draft.children.length ≤ draft.childCount.getD draft.children.length ∧
        draft.children.length ≤ limit ∧
        listing = ⟨draft.properties, draft.children,
          draft.childCount.getD draft.children.length⟩ := by
  simp only [ofDraft]
  split
  · rename_i hFew
    simp [Nat.not_le.mpr hFew]
  · rename_i hCounted
    split
    · rename_i hFew
      simp [Nat.not_le.mpr hFew]
    · rename_i hRequested
      simp [Nat.not_lt.mp hCounted, Nat.not_lt.mp hRequested, eq_comm]

theorem le_getD_iff {total : Option Nat} {listed : Nat} :
    listed ≤ total.getD listed ↔ ∀ count ∈ total, listed ≤ count := by
  cases total <;> simp

/-- A listing is accepted if it fits, and is then what its members say. -/
theorem Spells.ofString_eq_ok {text : String} {entries : List Entry} (h : Spells text entries)
    {limit : Nat} {listing : Listing} (hRead : ofString limit text = .ok listing) :
    Fits limit entries ∧ Describes entries listing := by
  obtain ⟨hProperties, hChildren, hCount⟩ := Draft.holds_ofEntries entries
  rw [ofString, h.draft] at hRead
  obtain ⟨hCounted, hRequested, rfl⟩ := ofDraft_eq_ok_iff.mp hRead
  rw [hChildren] at hCounted hRequested
  rw [hCount] at hCounted
  refine ⟨⟨le_getD_iff.mp hCounted, hRequested⟩, hProperties, hChildren, ?_⟩
  rw [← hChildren, ← hCount]

/-- A text with members that fit is accepted. -/
theorem Spells.exists_listing {text : String} {entries : List Entry} (h : Spells text entries)
    {limit : Nat} (hFits : Fits limit entries) : ∃ listing, ofString limit text = .ok listing := by
  obtain ⟨-, hChildren, hCount⟩ := Draft.holds_ofEntries entries
  rw [ofString, h.draft]
  refine ⟨_, ofDraft_eq_ok_iff.mpr ⟨?_, ?_, rfl⟩⟩
  · rw [hChildren, hCount]
    exact le_getD_iff.mpr hFits.counted
  · rw [hChildren]
    exact hFits.requested

/-- A text that is accepted has the members of a listing. -/
theorem exists_spells_of_ok {limit : Nat} {text : String} {listing : Listing}
    (h : ofString limit text = .ok listing) : ∃ entries, Spells text entries := by
  obtain ⟨draft, hDraft, -⟩ := exists_of_bind_eq_ok h
  exact exists_spells hDraft

/-! ### Objects as listings -/

/-- A member of an object that says this in a listing, wherever it stands. -/
def Tells (member : String × Json) (entry : Entry) : Prop :=
  ∀ offset, Member (Json.memberTokens offset [member]) entry

/-- More members go between the ones before them and the closing brace. -/
theorem Due.wire {front : List Token} {entries more : List Entry} {entry : Entry}
    {first : String × Json} {rest : List (String × Json)} (h : Due front entries)
    (hFirst : Tells first entry) (hRest : List.Forall₂ Tells rest more) (offset : Nat)
    {right : Token} (hRight : right.kind = .rightBrace) :
    Wire (front ++ Json.memberTokens offset (first :: rest) ++ [right])
      (entries ++ entry :: more) := by
  induction hRest generalizing front entries entry first offset with
  | nil => exact .members (h.opened (hFirst offset)) hRight
  | @cons second next rest more hSecond _ ih =>
      have hFront (start : Nat) : Due
          (front ++ Json.memberTokens offset [first] ++ [⟨.comma, ",", start⟩])
          (entries ++ [entry]) :=
        .next (h.opened (hFirst offset)) rfl
      have hMore (start : Nat) := ih (hFront start) hSecond
      simp only [List.append_assoc, List.singleton_append] at hMore
      rw [Json.memberTokens_cons, List.append_assoc, List.append_assoc, List.cons_append]
      exact hMore _ _

/-- An object is a listing of what its members say. -/
theorem spells_object {members : List (String × Json)} {entries : List Entry}
    (h : List.Forall₂ Tells members entries) : Spells (Json.object members).text entries := by
  refine ⟨⟨_, congrArg Tokens.ending (Json.ofString_text _)⟩, ?_⟩
  rw [congrArg Tokens.front (Json.ofString_text _), Json.tokens]
  cases h with
  | nil => exact .empty rfl rfl
  | cons hFirst hRest =>
      have hBrace : (⟨.leftBrace, "\x7b", 0⟩ : Token).kind = .leftBrace := rfl
      exact (Due.first hBrace).wire hFirst hRest 1 rfl

theorem tells_child {name : String} (hName : name ≠ childNodeCount) :
    Tells (name, .object []) (.child name) :=
  fun _ => .mk rfl rfl (.child hName rfl rfl)

/-- The token of an atom in range stands for its scalar. -/
theorem stands_atom {value : Json.Atom} {scalar : Scalar}
    (hValue : checked [value] (Scalar.ofAtom value) = .ok scalar) (start : Nat) :
    Stands (value.token start) scalar :=
  scalar_eq_ok_iff.mp ((scalar_token value start).trans hValue)

theorem tells_one {name : String} (hName : name ≠ childNodeCount) {value : Json.Atom}
    {scalar : Scalar} (hValue : checked [value] (Scalar.ofAtom value) = .ok scalar) :
    Tells (name, .atom value) (.property name (.one scalar)) :=
  fun _ => .mk rfl rfl (.one hName (stands_atom hValue _))

theorem says_total {count : Nat} (hCount : count < UInt64.size) (start : Nat) :
    Says childNodeCount [(Json.Atom.number (.integer count)).token start] (.total count) := by
  have hKind : ((Json.Atom.number (.integer count)).token start).kind = .number := rfl
  have hText : ((Json.Atom.number (.integer count)).token start).text =
      String.ofList (Json.writeInt count) := rfl
  have hRead := count?_writeInt hCount
  rw [← hText] at hRead
  obtain ⟨hDigits, hSmall, hValue⟩ := count?_eq_some_iff.mp hRead
  have hSays := Says.total rfl hKind hDigits hSmall
  rwa [hValue] at hSays

theorem tells_total {count : Nat} (hCount : count < UInt64.size) :
    Tells (childNodeCount, .atom (.number (.integer count))) (.total count) :=
  fun _ => .mk rfl rfl (says_total hCount _)

def repeating : Json :=
  .object [
    ("n", .array [.atom (.number (.integer 1))]),
    ("a", .object []),
    ("n", .atom (.number (.integer 3))),
    (childNodeCount, .atom (.number (.integer 7)))]

theorem spells_repeating : Spells repeating.text
    [.property "n" (.many [.long 1]), .child "a", .property "n" (.one (.long 3)), .total 7] := by
  have hName : "n" ≠ childNodeCount := by decide
  have hMany : Tells ("n", .array [.atom (.number (.integer 1))])
      (.property "n" (.many [.long 1])) :=
    fun _ => .mk rfl rfl (.many hName (.first rfl (stands_atom rfl _)) rfl)
  exact spells_object (.cons hMany (.cons (tells_child (by decide)) (.cons (tells_one hName rfl)
    (.cons (tells_total (by decide)) .nil))))

end Listing

/-- A text is accepted if and only if it has the grammar of a listing and does not list more
children than it counts or than were asked for. The listing is then what its members say, and its
children become snapshots below the node at the same revision. Every number with a point or an
exponent is a scalar. -/
theorem listing_grammar (limit : Nat) (text : String) :
    ((∃ listing, Listing.ofString limit text = .ok listing) ↔
        ∃ entries, Listing.Spells text entries ∧ Listing.Fits limit entries) ∧
      (∀ listing, Listing.ofString limit text = .ok listing →
        (∀ entries, Listing.Spells text entries → Listing.Describes entries listing) ∧
          ∀ (σ : Type) (session : Session σ) (path : String) (revision : Revision),
            (session.addChildren path revision listing.children).2.lead
                (session.addChildren path revision listing.children).1 =
              listing.children.map fun name =>
                (name, { path := Path.child path name, revision })) ∧
      ∀ token ∈ (Tokens.ofString text).front, token.kind = .number →
        Listing.IsFractional token.text → ∃ value, Listing.Stands token (.double value) := by
  refine ⟨⟨?_, ?_⟩, ?_, ?_⟩
  · rintro ⟨listing, hRead⟩
    obtain ⟨entries, hSpells⟩ := Listing.exists_spells_of_ok hRead
    exact ⟨entries, hSpells, (hSpells.ofString_eq_ok hRead).1⟩
  · rintro ⟨entries, hSpells, hFits⟩
    exact hSpells.exists_listing hFits
  · intro listing hRead
    refine ⟨fun entries hSpells => (hSpells.ofString_eq_ok hRead).2, ?_⟩
    intro σ session path revision
    exact session.lead_addChildren path revision listing.children
  · intro token hToken hKind hFractional
    obtain ⟨value, hValue⟩ := Tokens.exists_double hToken hKind
    exact ⟨value, .double hKind hFractional hValue⟩

/-- The name stands once with its last value, although another member is between. -/
theorem listing_grammar_sample :
    ∃ listing, Listing.ofString 5 Listing.repeating.text = .ok listing ∧
      listing.properties.names = ["n"] ∧ listing.properties.find? "n" = some (.one (.long 3)) ∧
      listing.children = ["a"] ∧ listing.childCount = 7 := by
  obtain ⟨hAccepts, hListing, -⟩ := listing_grammar 5 Listing.repeating.text
  obtain ⟨listing, hRead⟩ := hAccepts.mpr ⟨_, Listing.spells_repeating, by decide, by decide⟩
  have hDescribes := (hListing listing hRead).1 _ Listing.spells_repeating
  refine ⟨listing, hRead, ?_, ?_, ?_, ?_⟩
  · exact hDescribes.properties.names
  · exact hDescribes.properties.values "n"
  · exact hDescribes.children
  · exact hDescribes.childCount

end PinnedTree
