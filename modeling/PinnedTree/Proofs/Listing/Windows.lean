import PinnedTree.Proofs.Listing.Acceptance
import PinnedTree.Proofs.Listing.Mentions
import PinnedTree.Proofs.Session.Loading

/-! Windows of children against whole listings. A text that is read as a node is read as a window
too, and the children are the same but for those that come again. The reserved name should not be
seen in a window, and is not unless an empty object stands behind it. -/
namespace PinnedTree

/-! ### The reserved name -/

namespace Slice

def unreserved (mentions : List Mention) : List Mention :=
  mentions.filter fun mention => mention.name ≠ childNodeCount

/-- Leaving out the reserved name leaves out the child of that name, and nothing else. -/
theorem mentioned_unreserved (mentions : List Mention) :
    mentioned (unreserved mentions) =
      (mentioned mentions).filter fun name => name ≠ childNodeCount := by
  rw [unreserved, mentioned, mentioned, List.filterMap_filter, List.filter_filterMap]
  congr 1
  funext mention
  cases mention with
  | child name => rfl
  | other name => exact ite_self none

/-- No child has the reserved name, and nothing changes when the members of that name are left
out. -/
structure IgnoresReserved (text : String) (mentions : List Mention) (names : List String) :
    Prop where
  unnamed : childNodeCount ∉ names
  same : ∀ other, Spells other (unreserved mentions) → ofString other = ofString text

end Slice

/-- A window of children has none of the reserved name, and is the same without the members of that
name, if and only if no empty object stands behind it. Whatever stands there, the other children are
those of a listing without the members of that name. -/
theorem window_ignores_reserved_iff {text : String} {names : List String}
    (hRead : Slice.ofString text = .ok names) :
    (∃ mentions, Slice.Spells text mentions) ∧
      ∀ mentions, Slice.Spells text mentions →
        (Slice.IgnoresReserved text mentions names ↔ .child childNodeCount ∉ mentions) ∧
          (∃ other, Slice.Spells other (Slice.unreserved mentions)) ∧
          ∀ other, Slice.Spells other (Slice.unreserved mentions) →
            Slice.ofString other = .ok (names.filter fun name => name ≠ childNodeCount) := by
  obtain ⟨mentions, hSpells, -⟩ := Slice.ofString_eq_ok_iff.mp hRead
  refine ⟨⟨mentions, hSpells⟩, fun mentions hSpells => ?_⟩
  obtain rfl := hSpells.names_eq hRead
  have hOther : ∀ other, Slice.Spells other (Slice.unreserved mentions) →
      Slice.ofString other =
        .ok ((Slice.mentioned mentions).filter fun name => name ≠ childNodeCount) := by
    intro other hSpells
    rw [← Slice.mentioned_unreserved]
    exact Slice.ofString_eq_ok_iff.mpr ⟨_, hSpells, rfl⟩
  refine ⟨⟨fun h hChild => h.unnamed (Slice.mem_mentioned.mpr hChild), fun hNone => ?_⟩,
    ⟨_, Slice.spells_document _⟩, hOther⟩
  have hUnnamed : childNodeCount ∉ Slice.mentioned mentions := fun hName =>
    hNone (Slice.mem_mentioned.mp hName)
  refine ⟨hUnnamed, fun other hSpells => ?_⟩
  rw [hOther other hSpells, hRead, List.filter_eq_self.mpr]
  intro name hName
  exact decide_eq_true fun hSame => hUnnamed (hSame ▸ hName)

/-- The reserved name before null and behind a child is passed over. -/
theorem window_ignores_reserved_iff_sample :
    Slice.ofString (Slice.document [.child "a", .other childNodeCount]).text = .ok ["a"] ∧
      Slice.IgnoresReserved (Slice.document [.child "a", .other childNodeCount]).text
        [.child "a", .other childNodeCount] ["a"] := by
  have hSpells := Slice.spells_document [.child "a", .other childNodeCount]
  have hRead : Slice.ofString (Slice.document [.child "a", .other childNodeCount]).text =
      .ok ["a"] :=
    Slice.ofString_eq_ok_iff.mpr ⟨_, hSpells, rfl⟩
  obtain ⟨-, hWindow⟩ := window_ignores_reserved_iff hRead
  obtain ⟨hIgnores, -⟩ := hWindow _ hSpells
  exact ⟨hRead, hIgnores.mpr (by decide)⟩

/-- An empty object behind the reserved name is a child of that name. -/
theorem window_shows_reserved :
    Slice.ofString (Slice.document [.child childNodeCount]).text = .ok [childNodeCount] ∧
      Slice.Spells (Slice.document [.child childNodeCount]).text [.child childNodeCount] ∧
      ¬ Slice.IgnoresReserved (Slice.document [.child childNodeCount]).text
        [.child childNodeCount] [childNodeCount] := by
  have hSpells := Slice.spells_document [.child childNodeCount]
  exact ⟨Slice.ofString_eq_ok_iff.mpr ⟨_, hSpells, rfl⟩, hSpells,
    fun hIgnores => hIgnores.unnamed List.mem_cons_self⟩

/-! ### Listings as windows -/

namespace Listing

def Entry.mention : Entry → Slice.Mention
  | .total _ => .other childNodeCount
  | .child name => .child name
  | .property name _ => .other name

variable {tokens : List Token}

theorem isAtom_of_stands {token : Token} {value : Scalar} (h : Stands token value) :
    token.kind.isAtom = true := by
  cases h with
  | text hKind | true hKind | false hKind | double hKind | long hKind =>
      rw [hKind]
      rfl

/-- The items of an array are items for a window as well. -/
theorem Items.areItems {values : List Scalar} (h : Items tokens values) :
    ∃ bracket items, tokens = bracket :: items ∧ bracket.kind = .leftBracket ∧
      AreItems (items.map Token.kind) := by
  induction h with
  | @first bracket token value hBracket hValue =>
      exact ⟨bracket, [token], rfl, hBracket, .one (.atom (isAtom_of_stands hValue))⟩
  | @next front values comma token value _ hComma hValue ih =>
      obtain ⟨bracket, items, rfl, hBracket, hItems⟩ := ih
      refine ⟨bracket, items ++ [comma, token], rfl, hBracket, ?_⟩
      rw [List.map_append, List.map_cons, hComma]
      exact hItems.concat (.atom (isAtom_of_stands hValue))

/-- The value of a member is a value for a window as well. -/
theorem Says.mention {name : String} {entry : Entry} (h : Says name tokens entry) :
    Slice.Says name tokens entry.mention := by
  cases h with
  | @total token hName hKind _ _ =>
      subst hName
      refine .other ?_ (.atom ?_)
      · rw [hKind]
        nofun
      · rw [hKind]
        rfl
  | child _ hLeft hRight => exact .child hLeft hRight
  | one _ hValue => exact .other hValue.kind_ne_mark.1 (.atom (isAtom_of_stands hValue))
  | none _ hLeft hRight =>
      refine .other ?_ ?_
      · rw [hLeft]
        nofun
      · rw [List.map_cons, List.map_singleton, hLeft, hRight]
        exact .emptyArray
  | many _ hItems hRight =>
      obtain ⟨bracket, items, rfl, hBracket, hItems⟩ := hItems.areItems
      rw [List.cons_append]
      refine .other ?_ ?_
      · rw [hBracket]
        nofun
      · rw [List.map_cons, List.map_append, List.map_singleton, hBracket, hRight]
        exact .array hItems

/-- A member of a listing is a member of a window, which sees less of it. -/
theorem Member.mention {entry : Entry} (h : Member tokens entry) :
    Slice.Member tokens entry.mention := by
  obtain ⟨hName, hColon, hValue⟩ := h
  exact .mk hName hColon hValue.mention

/-- A listing that is not closed yet ends with a member. -/
theorem Opened.mention {entries : List Entry} (h : Opened tokens entries) :
    ∃ front member mentions mention, tokens = front ++ member ∧
      entries.map Entry.mention = mentions ++ [mention] ∧ Slice.Due front mentions ∧
      Slice.Member member mention := by
  induction h with
  | @first brace tokens entry hBrace hMember =>
      exact ⟨[brace], tokens, [], entry.mention, rfl, rfl, .first hBrace, hMember.mention⟩
  | @next front tokens entries comma entry _ hComma hMember ih =>
      obtain ⟨before, member, mentions, mention, rfl, hMentions, hDue, hLast⟩ := ih
      refine ⟨before ++ member ++ [comma], tokens, mentions ++ [mention], entry.mention, ?_, ?_,
        .next hDue hLast hComma, hMember.mention⟩
      · rw [List.append_assoc, List.append_assoc, List.append_assoc]
        rfl
      · rw [List.map_append, hMentions]
        rfl

/-- The tokens of a listing are those of a window. -/
theorem Wire.mention {entries : List Entry} (h : Wire tokens entries) :
    Slice.Wire tokens (entries.map Entry.mention) := by
  cases h with
  | empty hLeft hRight => exact .empty hLeft hRight
  | members hFront hRight =>
      obtain ⟨front, member, mentions, mention, rfl, hMentions, hDue, hMember⟩ := hFront.mention
      rw [hMentions]
      exact .members hDue hMember hRight

/-- What is spelled as a listing is spelled as a window. -/
theorem Spells.mention {text : String} {entries : List Entry} (h : Spells text entries) :
    Slice.Spells text (entries.map Entry.mention) :=
  ⟨h.ending, h.front.mention⟩

/-- The children that a window mentions are those that the members list. -/
theorem mentioned_mention (entries : List Entry) :
    Slice.mentioned (entries.map Entry.mention) = entries.filterMap Entry.child? := by
  rw [Slice.mentioned, List.filterMap_map]
  congr 1
  funext entry
  cases entry <;> rfl

/-- Every text that is read as a node is read as a window. -/
theorem exists_window {limit : Nat} {text : String} {listing : Listing}
    (hRead : ofString limit text = .ok listing) :
    ∃ names, Slice.ofString text = .ok names ∧ names.eraseDups = listing.children := by
  obtain ⟨entries, hSpells⟩ := exists_spells_of_ok hRead
  refine ⟨_, Slice.ofString_eq_ok_iff.mpr ⟨_, hSpells.mention, rfl⟩, ?_⟩
  rw [mentioned_mention]
  exact (hSpells.ofString_eq_ok hRead).2.children.symm

end Listing

/-- Dropping what comes again does not mind what is put beside each name. -/
theorem eraseDupsBy_beside {α : Type} (beside : String → α) (names : List String) :
    (names.map fun name => (name, beside name)).eraseDupsBy
        (fun later first => later.1 == first.1) =
      names.eraseDups.map fun name => (name, beside name) := by
  cases names with
  | nil => rfl
  | cons name rest =>
      have hSame : (fun other : String => decide ((other == name) = false)) =
          fun other => !other == name := by
        funext other
        cases other == name <;> rfl
      rw [List.map_cons, List.eraseDupsBy_cons, List.eraseDups_cons, List.map_cons,
        ← eraseDupsBy_beside beside, List.filter_map, ← hSame]
      rfl
termination_by names.length
decreasing_by exact Nat.lt_succ_of_le (List.length_filter_le _ _)

/-- A text that is read as a node is read as a window as well. When the later ones of each name are
dropped, the entries of the window lead to the children of the node, in their order. -/
theorem window_of_listing {limit : Nat} {text : String} {listing : Listing}
    (hRead : Listing.ofString limit text = .ok listing) :
    ∃ names, Slice.ofString text = .ok names ∧
      ∀ (σ τ : Type) (window : Session σ) (node : Session τ) (path : String) (revision : Revision),
        ((window.addChildren path revision names).2.lead
            (window.addChildren path revision names).1).eraseDupsBy
              (fun later first => later.1 == first.1) =
          (node.addChildren path revision listing.children).2.lead
            (node.addChildren path revision listing.children).1 := by
  obtain ⟨names, hNames, hChildren⟩ := Listing.exists_window hRead
  refine ⟨names, hNames, fun σ τ window node path revision => ?_⟩
  rw [Session.lead_addChildren, Session.lead_addChildren, ← hChildren]
  exact eraseDupsBy_beside _ names

def Listing.twins : Json :=
  .object [("a", .object []), ("b", .object []), ("a", .object [])]

theorem Listing.spells_twins : Spells twins.text [.child "a", .child "b", .child "a"] := by
  have hName : "a" ≠ childNodeCount := by decide
  exact spells_object (.cons (tells_child hName) (.cons (tells_child (by decide))
    (.cons (tells_child hName) .nil)))

/-- The window has both twins, and the node has the first one. -/
theorem window_of_listing_sample :
    ∃ listing, Listing.ofString 5 Listing.twins.text = .ok listing ∧
      ∃ names, Slice.ofString Listing.twins.text = .ok names ∧
        ∀ (σ : Type) (window : Session σ),
          ((window.addChildren "/" ⟨"r1"⟩ names).2.lead
              (window.addChildren "/" ⟨"r1"⟩ names).1).eraseDupsBy
                (fun later first => later.1 == first.1) =
            [("a", { path := "/a", revision := ⟨"r1"⟩ }),
              ("b", { path := "/b", revision := ⟨"r1"⟩ })] := by
  have hAccepted : ∃ listing, Listing.ofString 5 Listing.twins.text = .ok listing :=
    Listing.spells_twins.exists_listing ⟨nofun, by decide⟩
  obtain ⟨listing, hRead⟩ := hAccepted
  obtain ⟨names, hNames, hEntries⟩ := window_of_listing hRead
  have hChildren : listing.children = ["a", "b"] :=
    (Listing.spells_twins.ofString_eq_ok hRead).2.children
  refine ⟨listing, hRead, names, hNames, fun σ window => ?_⟩
  rw [hEntries σ σ window window, hChildren, Session.lead_addChildren]
  decide

end PinnedTree
