import PinnedTree.Proofs.Listing.Acceptance
import PinnedTree.Proofs.Listing.Mentions
import PinnedTree.Proofs.Session.Calls

/-! Names that come again. The last member of a name should decide alone what the name is. A node
keeps properties and children apart, and the last member decides exactly if the name is not given to
both. A window of children keeps every child that is mentioned, and the last members decide exactly
if no child's name is mentioned again. -/
namespace PinnedTree

/-! ### Nodes -/

namespace Listing

def Entry.name? : Entry → Option String
  | .total _ => none
  | .child name => some name
  | .property name _ => some name

/-- The last member of a name decides alone what the name is. -/
structure LastDecides (entries : List Entry) (content : Content) (name : String) : Prop where
  property : ∀ value, content.property? name = some value ↔
    lastCalled? Entry.name? name entries = some (.property name value)
  child : (content.child? name).isSome = true ↔
    lastCalled? Entry.name? name entries = some (.child name)
  apart : ¬ ((content.property? name).isSome = true ∧ (content.child? name).isSome = true)

/-- The name is given to a property and to a child. -/
def Mixed (entries : List Entry) (name : String) : Prop :=
  (∃ value, .property name value ∈ entries) ∧ .child name ∈ entries

theorem mem_property? {entries : List Entry} {name : String} {value : Property} :
    (name, value) ∈ entries.filterMap Entry.property? ↔ .property name value ∈ entries := by
  rw [List.mem_filterMap]
  constructor
  · rintro ⟨entry, hEntry, hProperty⟩
    cases entry with
    | property other value =>
        cases hProperty
        exact hEntry
    | total count => cases hProperty
    | child other => cases hProperty
  · intro h
    exact ⟨_, h, rfl⟩

/-- The children that are listed are those that some member lists. -/
theorem mem_listedChildren {entries : List Entry} {name : String} :
    name ∈ listedChildren entries ↔ .child name ∈ entries := by
  rw [listedChildren, List.mem_eraseDups, List.mem_filterMap]
  constructor
  · rintro ⟨entry, hEntry, hChild⟩
    cases entry with
    | child other =>
        cases hChild
        exact hEntry
    | total count => cases hChild
    | property other value => cases hChild
  · intro h
    exact ⟨_, h, rfl⟩

/-- Where a name is given to no child, the last of its properties is its last member. -/
theorem find?_eq_some_iff_last {entries : List Entry} {name : String}
    (hChild : .child name ∉ entries) (value : Property) :
    Members.find? name (entries.filterMap Entry.property?).reverse = some value ↔
      lastCalled? Entry.name? name entries = some (.property name value) := by
  induction entries using List.reverseRecOn with
  | nil => exact ⟨nofun, nofun⟩
  | append_singleton front last ih =>
      obtain ⟨hFront, hLast⟩ := not_or.mp (mt List.mem_append.mpr hChild)
      have hRest := ih hFront
      rw [lastCalled?_concat, List.filterMap_append, List.reverse_append]
      cases last with
      | total count => simpa [List.filterMap_cons, Entry.property?, Entry.name?] using hRest
      | child other =>
          have hOther : other ≠ name := by
            rintro rfl
            exact hLast List.mem_cons_self
          simpa [List.filterMap_cons, Entry.property?, Entry.name?, hOther] using hRest
      | property other last =>
          by_cases hSame : other = name
          · simp [Entry.property?, Entry.name?, Members.find?, hSame]
          · simpa [Entry.property?, Entry.name?, Members.find?, hSame] using hRest

/-- Where a name is given to no property, its last member is a child if one of them is. -/
theorem child_mem_iff_last {entries : List Entry} {name : String}
    (hProperty : ¬ ∃ value, .property name value ∈ entries) :
    .child name ∈ entries ↔ lastCalled? Entry.name? name entries = some (.child name) := by
  constructor
  · intro h
    have hName : (Entry.child name).name? = some name := rfl
    obtain ⟨last, hIn, hCalled, hLast⟩ := exists_lastCalled? h hName
    cases last with
    | total count => cases hCalled
    | child other =>
        cases hCalled
        exact hLast
    | property other value =>
        cases hCalled
        exact absurd ⟨value, hIn⟩ hProperty
  · exact mem_of_lastCalled?

/-- A node has as a property what any member gives as one, and as a child what any member gives as
one. -/
theorem Spells.kept {text : String} {entries : List Entry} (h : Spells text entries) {limit : Nat}
    {listing : Listing} (hRead : ofString limit text = .ok listing) {σ : Type}
    (session : Session σ) (snapshot : Snapshot) (name : String) :
    (((session.kept snapshot listing).property? name).isSome = true ↔
        ∃ value, .property name value ∈ entries) ∧
      (((session.kept snapshot listing).child? name).isSome = true ↔ .child name ∈ entries) := by
  obtain ⟨⟨hNames, -⟩, hChildren, -⟩ := (h.ofString_eq_ok hRead).2
  constructor
  · rw [Content.property?, Session.kept, Members.isSome_find?_iff, hNames, List.mem_eraseDups,
      List.mem_map]
    constructor
    · rintro ⟨⟨_, value⟩, hMember, rfl⟩
      exact ⟨value, mem_property?.mp hMember⟩
    · rintro ⟨value, hMember⟩
      exact ⟨(name, value), mem_property?.mpr hMember, rfl⟩
  · rw [Content.isSome_child?_iff, Session.kept, Session.addChildren_names, hChildren,
      mem_listedChildren]

/-- The last member of a name decides if the name is given to one kind only. -/
theorem Spells.lastDecides {text : String} {entries : List Entry} (h : Spells text entries)
    {limit : Nat} {listing : Listing} (hRead : ofString limit text = .ok listing) {σ : Type}
    (session : Session σ) (snapshot : Snapshot) {name : String} (hUnmixed : ¬ Mixed entries name) :
    LastDecides entries (session.kept snapshot listing) name := by
  obtain ⟨hProperty, hChild⟩ := h.kept hRead session snapshot name
  obtain ⟨⟨-, hValues⟩, -, -⟩ := (h.ofString_eq_ok hRead).2
  have hFind : (session.kept snapshot listing).property? name =
      Members.find? name (entries.filterMap Entry.property?).reverse := hValues name
  by_cases hGiven : .child name ∈ entries
  · have hNone : ¬ ∃ value, .property name value ∈ entries := fun hOther =>
      hUnmixed ⟨hOther, hGiven⟩
    refine ⟨fun value => ⟨fun hFound => ?_, fun hLast => ?_⟩,
      hChild.trans (child_mem_iff_last hNone), fun hBoth => hNone (hProperty.mp hBoth.1)⟩
    · exact absurd (hProperty.mp (Option.isSome_of_eq_some hFound)) hNone
    · exact absurd ⟨value, mem_of_lastCalled? hLast⟩ hNone
  · refine ⟨fun value => ?_, ⟨fun hFound => ?_, fun hLast => ?_⟩,
      fun hBoth => hGiven (hChild.mp hBoth.2)⟩
    · rw [hFind]
      exact find?_eq_some_iff_last hGiven value
    · exact absurd (hChild.mp hFound) hGiven
    · exact absurd (mem_of_lastCalled? hLast) hGiven

def mixed : Json :=
  .object [("a", .atom (.number (.integer 1))), ("a", .object [])]

theorem spells_mixed : Spells mixed.text [.property "a" (.one (.long 1)), .child "a"] := by
  have hName : "a" ≠ childNodeCount := by decide
  exact spells_object (.cons (tells_one hName rfl) (.cons (tells_child hName) .nil))

end Listing

/-- A name is a property if any member makes it one, and a child if any member makes it one. The
last member of the name decides alone if and only if not both is so. -/
theorem last_decides_iff {limit : Nat} {text : String} {listing : Listing}
    (hRead : Listing.ofString limit text = .ok listing) :
    (∃ entries, Listing.Spells text entries) ∧
      ∀ entries, Listing.Spells text entries →
        ∀ (σ : Type) (session : Session σ) (snapshot : Snapshot) (name : String),
          (((session.kept snapshot listing).property? name).isSome = true ↔
              ∃ value, .property name value ∈ entries) ∧
            (((session.kept snapshot listing).child? name).isSome = true ↔
              .child name ∈ entries) ∧
            (Listing.LastDecides entries (session.kept snapshot listing) name ↔
              ¬ Listing.Mixed entries name) := by
  refine ⟨Listing.exists_spells_of_ok hRead, fun entries hSpells σ session snapshot name => ?_⟩
  obtain ⟨hProperty, hChild⟩ := hSpells.kept hRead session snapshot name
  refine ⟨hProperty, hChild, fun hDecides hMixed => ?_, fun hUnmixed => ?_⟩
  · exact hDecides.apart ⟨hProperty.mpr hMixed.1, hChild.mpr hMixed.2⟩
  · exact hSpells.lastDecides hRead session snapshot hUnmixed

/-- Of two properties of one name the last one counts, and there is no child of that name. -/
theorem last_decides_iff_sample :
    ∃ listing, Listing.ofString 5 Listing.repeating.text = .ok listing ∧
      ∀ (σ : Type) (session : Session σ) (snapshot : Snapshot),
        (session.kept snapshot listing).property? "n" = some (.one (.long 3)) ∧
          ¬ ((session.kept snapshot listing).child? "n").isSome = true := by
  have hAccepted : ∃ listing, Listing.ofString 5 Listing.repeating.text = .ok listing :=
    Listing.spells_repeating.exists_listing ⟨by decide, by decide⟩
  obtain ⟨listing, hRead⟩ := hAccepted
  refine ⟨listing, hRead, fun σ session snapshot => ?_⟩
  obtain ⟨-, -, hDecides⟩ :=
    (last_decides_iff hRead).2 _ Listing.spells_repeating σ session snapshot "n"
  have hLast := hDecides.mpr fun hMixed => absurd hMixed.2 (by simp)
  have hFound := (hLast.property (.one (.long 3))).mpr rfl
  exact ⟨hFound, fun hChild => hLast.apart ⟨Option.isSome_of_eq_some hFound, hChild⟩⟩

/-- The last member makes the name a child, and yet it stays the property that it was before. -/
theorem mixed_name_stays_property :
    ∃ listing entries, Listing.ofString 5 Listing.mixed.text = .ok listing ∧
      Listing.Spells Listing.mixed.text entries ∧
      lastCalled? Listing.Entry.name? "a" entries = some (.child "a") ∧
      ∀ (σ : Type) (session : Session σ) (snapshot : Snapshot),
        (session.kept snapshot listing).property? "a" = some (.one (.long 1)) ∧
          ((session.kept snapshot listing).child? "a").isSome = true := by
  have hAccepted : ∃ listing, Listing.ofString 5 Listing.mixed.text = .ok listing :=
    Listing.spells_mixed.exists_listing ⟨by decide, by decide⟩
  obtain ⟨listing, hRead⟩ := hAccepted
  refine ⟨listing, _, hRead, Listing.spells_mixed, rfl, fun σ session snapshot => ⟨?_, ?_⟩⟩
  · exact (Listing.spells_mixed.ofString_eq_ok hRead).2.properties.values "a"
  · exact (Listing.spells_mixed.kept hRead session snapshot "a").2.mpr (by simp)

/-! ### Windows of children -/

namespace Slice

/-- The last mention of a name. -/
def lastMention? (name : String) (mentions : List Mention) : Option Mention :=
  lastCalled? (fun mention => some mention.name) name mentions

/-- Each child is there once, in the order in which the children are first mentioned, and the last
mention of a name decides whether it is a child. -/
structure KeepsLast (mentions : List Mention) (names : List String) : Prop where
  distinct : names.Nodup
  order : names.Sublist (mentioned mentions).eraseDups
  last : ∀ name, name ∈ names ↔ lastMention? name mentions = some (.child name)

/-- No child's name is mentioned again. -/
def MentionsOnce (mentions : List Mention) : Prop :=
  mentions.Pairwise fun earlier later => earlier ≠ .child later.name

instance (mentions : List Mention) : Decidable (MentionsOnce mentions) :=
  inferInstanceAs (Decidable (mentions.Pairwise _))

/-- One more mention repeats no child exactly when its name is not one of the children before. -/
theorem mentionsOnce_concat {front : List Mention} {last : Mention} :
    MentionsOnce (front ++ [last]) ↔ MentionsOnce front ∧ .child last.name ∉ front := by
  rw [MentionsOnce, List.pairwise_append]
  constructor
  · rintro ⟨hFront, -, hLast⟩
    exact ⟨hFront, fun hChild => hLast _ hChild last List.mem_cons_self rfl⟩
  · rintro ⟨hFront, hLast⟩
    refine ⟨hFront, List.pairwise_singleton _ _, fun earlier hEarlier later hLater => ?_⟩
    rintro rfl
    rw [List.mem_singleton.mp hLater] at hEarlier
    exact hLast hEarlier

theorem lastMention?_concat (front : List Mention) (last : Mention) (name : String) :
    lastMention? name (front ++ [last]) =
      if last.name = name then some last else lastMention? name front := by
  rw [lastMention?, lastCalled?_concat]
  simp only [Option.some.injEq]
  rfl

/-- One more mention of a child is one more name. -/
theorem mentioned_concat (front : List Mention) (last : Mention) :
    mentioned (front ++ [last]) = mentioned front ++ last.child?.toList := by
  rw [mentioned, List.filterMap_append, mentioned]
  cases last <;> rfl

theorem eq_child_of_child? {mention : Mention} {name : String} (h : mention.child? = some name) :
    mention = .child name := by
  cases mention with
  | child other => exact congrArg Mention.child (Option.some.inj h)
  | other other => cases h

/-- Children whose names are not mentioned again differ. -/
theorem MentionsOnce.nodup {mentions : List Mention} (h : MentionsOnce mentions) :
    (mentioned mentions).Nodup := by
  refine List.pairwise_filterMap.mpr (h.imp ?_)
  rintro earlier later hOnce name hEarlier other hLater rfl
  obtain rfl := eq_child_of_child? hLater
  exact hOnce (eq_child_of_child? hEarlier)

/-- The mention of a child is the last one of its name. -/
theorem MentionsOnce.last {mentions : List Mention} (h : MentionsOnce mentions) {name : String}
    (hChild : .child name ∈ mentions) : lastMention? name mentions = some (.child name) := by
  induction mentions using List.reverseRecOn with
  | nil => cases hChild
  | append_singleton front last ih =>
      obtain ⟨hFront, hNew⟩ := mentionsOnce_concat.mp h
      rw [lastMention?_concat]
      rcases List.mem_append.mp hChild with hOld | hLast
      · have hOther : last.name ≠ name := by
          rintro rfl
          exact hNew hOld
        rw [if_neg hOther]
        exact ih hFront hOld
      · rw [← List.mem_singleton.mp hLast]
        exact if_pos rfl

/-- If the children differ and the last mention of each is as a child, no name of a child is
mentioned again. -/
theorem mentionsOnce_of_last {mentions : List Mention} (hDistinct : (mentioned mentions).Nodup)
    (hLast : ∀ name, .child name ∈ mentions → lastMention? name mentions = some (.child name)) :
    MentionsOnce mentions := by
  induction mentions using List.reverseRecOn with
  | nil => exact List.Pairwise.nil
  | append_singleton front last ih =>
      rw [mentioned_concat] at hDistinct
      obtain ⟨hFront, -, hApart⟩ := List.nodup_append.mp hDistinct
      -- a child that is mentioned again is a child again, and then there twice
      have hNew : .child last.name ∉ front := by
        intro hOld
        have hAgain := hLast last.name (List.mem_append_left _ hOld)
        rw [lastMention?_concat, if_pos rfl] at hAgain
        have hChild : last.child? = some last.name :=
          congrArg Mention.child? (Option.some.inj hAgain)
        exact hApart last.name (mem_mentioned.mpr hOld) last.name (by simp [hChild]) rfl
      refine mentionsOnce_concat.mpr ⟨ih hFront fun name hOld => ?_, hNew⟩
      have hOther : last.name ≠ name := by
        rintro rfl
        exact hNew hOld
      have hKept := hLast name (List.mem_append_left _ hOld)
      rwa [lastMention?_concat, if_neg hOther] at hKept

/-- The children that are mentioned keep to the last mentions if none of their names comes again. -/
theorem keepsLast_iff {mentions : List Mention} :
    KeepsLast mentions (mentioned mentions) ↔ MentionsOnce mentions := by
  constructor
  · intro h
    exact mentionsOnce_of_last h.distinct fun name hChild =>
      (h.last name).mp (mem_mentioned.mpr hChild)
  · intro h
    refine ⟨h.nodup, ?_, fun name => ?_⟩
    · rw [Listing.eraseDups_of_nodup h.nodup]
    · rw [mem_mentioned]
      exact ⟨h.last, mem_of_lastCalled?⟩

end Slice

/-- A window has every child as often as it is mentioned, and so has what is fetched with it. It
keeps to the last mention of each name if and only if no child's name is mentioned again. -/
theorem window_keeps_last_iff {text : String} {names : List String}
    (hRead : Slice.ofString text = .ok names) :
    (∃ mentions, Slice.Spells text mentions) ∧
      ∀ mentions, Slice.Spells text mentions →
        names = Slice.mentioned mentions ∧
          (Slice.KeepsLast mentions names ↔ Slice.MentionsOnce mentions) ∧
          ∀ (σ : Type) [NodeStore σ] (session : Session σ) (node : SnapshotId)
            (offset requested : Nat) (children : List ChildEntry),
            (session.askList node
                (Session.windowRequest (session.snapshot node) offset requested)).1 = .ok text →
              (session.fetch node offset requested).1 = .ok children →
              children.map ChildEntry.name = names := by
  obtain ⟨mentions, hSpells, -⟩ := Slice.ofString_eq_ok_iff.mp hRead
  refine ⟨⟨mentions, hSpells⟩, fun mentions hSpells => ?_⟩
  have hNames := hSpells.names_eq hRead
  refine ⟨hNames, ?_, fun σ _ session node offset requested children hAnswer hFetched => ?_⟩
  · rw [hNames]
    exact Slice.keepsLast_iff
  · exact Session.fetch_names hAnswer hRead hFetched

/-- A name that is no child at first and a child in the end is a child, in front of the next one. -/
theorem window_keeps_last_iff_sample :
    Slice.ofString (Slice.document [.other "a", .child "a", .child "b"]).text = .ok ["a", "b"] ∧
      Slice.KeepsLast [.other "a", .child "a", .child "b"] ["a", "b"] := by
  have hSpells := Slice.spells_document [.other "a", .child "a", .child "b"]
  have hRead : Slice.ofString (Slice.document [.other "a", .child "a", .child "b"]).text =
      .ok ["a", "b"] :=
    Slice.ofString_eq_ok_iff.mpr ⟨_, hSpells, rfl⟩
  obtain ⟨-, hWindow⟩ := window_keeps_last_iff hRead
  obtain ⟨-, hKeeps, -⟩ := hWindow _ hSpells
  exact ⟨hRead, hKeeps.mpr (by decide)⟩

/-- A child that is mentioned twice is there twice. -/
theorem window_repeats_child :
    Slice.ofString (Slice.document [.child "a", .child "a"]).text = .ok ["a", "a"] ∧
      Slice.Spells (Slice.document [.child "a", .child "a"]).text [.child "a", .child "a"] ∧
      ¬ Slice.KeepsLast [.child "a", .child "a"] ["a", "a"] := by
  have hSpells := Slice.spells_document [.child "a", .child "a"]
  exact ⟨Slice.ofString_eq_ok_iff.mpr ⟨_, hSpells, rfl⟩, hSpells,
    fun hKeeps => absurd hKeeps.distinct (by decide)⟩

end PinnedTree
