import PinnedTree.Proofs.Json.Tokens
import PinnedTree.Proofs.Tree.WellFormed
import PinnedTree.Tree.Listing

/-! Listings, member by member. The names of the members are distinct, so that a listing has all of
them, and a machine that reads one member after the other reads the whole text of a listing that
shows no deeper levels. -/
namespace PinnedTree

inductive Listed where
  | property (name : String) (value : OneOrMany Json.Atom)
  | child (name : String)
  | total (count : Nat)

namespace Listed

def name : Listed → String
  | property name _ => name
  | child name => name
  | total _ => childNodeCount

def json : Listed → Json
  | property _ value => Tree.propertyJson value
  | child _ => .object []
  | total count => .atom (.number (.integer count))

def member (listed : Listed) : String × Json :=
  (listed.name, listed.json)

/-- Only the total has the reserved name, and it fits into 64 bits. -/
def Valid : Listed → Prop
  | property name _ => name ≠ childNodeCount
  | child name => name ≠ childNodeCount
  | total count => count < UInt64.size

end Listed

section Window

variable {α : Type}

theorem window_sublist (offset : Nat) (max : Option Nat) (list : List α) :
    (window offset max list).Sublist list := by
  cases max with
  | none => exact List.drop_sublist offset list
  | some max => exact (List.take_sublist max _).trans (List.drop_sublist offset list)

/-- A window can be taken before or after all elements change. -/
theorem map_window {β : Type} (f : α → β) (offset : Nat) (max : Option Nat) (list : List α) :
    (window offset max list).map f = window offset max (list.map f) := by
  cases max with
  | none => exact List.map_drop
  | some max => rw [window, window, List.map_take, List.map_drop]

end Window

namespace Tree

/-- What the listing of a node shows, in order. -/
def listed (offset : Nat) (max : Option Nat) (filter : Option NameFilter) (node : Tree) :
    List Listed :=
  (node.properties.filter fun property => showsProperty filter property.1).map
      (fun property => .property property.1 property.2) ++
    (node.shownChildren offset max filter).map (fun child => .child child.1) ++
    [.total node.childCount]

/-- The children that are shown are children of the node, in their order. -/
theorem shownChildren_sublist (offset : Nat) (max : Option Nat) (filter : Option NameFilter)
    (node : Tree) : (node.shownChildren offset max filter).Sublist node.children :=
  (window_sublist offset max _).trans List.filter_sublist

def childNames (node : Tree) : List String :=
  Members.names node.children

theorem length_childNames (node : Tree) : node.childNames.length = node.childCount :=
  List.length_map _

/-- Without a filter all properties are shown. -/
theorem filter_showsProperty_none (node : Tree) :
    node.properties.filter (fun property => showsProperty none property.1) = node.properties :=
  List.filter_eq_self.mpr fun _ _ => rfl

theorem shownProperties_none (node : Tree) : node.shownProperties none =
    node.properties.map fun property => (property.1, propertyJson property.2) := by
  rw [shownProperties, filter_showsProperty_none]

theorem shownChildren_none (offset : Nat) (max : Option Nat) (node : Tree) :
    node.shownChildren offset max none = window offset max node.children := by
  have hAll : node.children.filter (fun child => showsNode none child.1) = node.children :=
    List.filter_eq_self.mpr fun _ _ => rfl
  rw [shownChildren, hAll]

/-- Without a filter, a window of the children is listed by their names. -/
theorem map_child_shownChildren (offset : Nat) (max : Option Nat) (node : Tree) :
    (node.shownChildren offset max none).map (fun child => Listed.child child.1) =
      (window offset max node.childNames).map Listed.child := by
  rw [shownChildren_none, childNames, Members.names, ← map_window, List.map_map]
  rfl

theorem listed_ne_nil (offset : Nat) (max : Option Nat) (filter : Option NameFilter)
    (node : Tree) : node.listed offset max filter ≠ [] := by
  simp [listed]

/-! ### All levels -/

section Levels

variable (max : Option Nat) (filter : Option NameFilter)

/-- What a listing shows for a child: nothing where it ends, else the listing of the child. -/
def shownBelow : Nat → Tree → Json
  | 0, _ => .object []
  | depth + 1, child => child.render max filter depth 0

def listing (depth offset : Nat) (node : Tree) : List (String × Json) :=
  node.shownProperties filter ++
    (node.shownChildren offset max filter).map
      (fun child => (child.1, shownBelow max filter depth child.2)) ++
    [node.totalMember]

/-- The listing of a node is the object of its members. -/
theorem render_eq_ofList (depth offset : Nat) (node : Tree) :
    node.render max filter depth offset =
      .object (Members.ofList (node.listing max filter depth offset)) := by
  cases depth <;> rfl

/-- The properties that are shown are those whose names the filter passes. -/
theorem names_shownProperties (node : Tree) : Members.names (node.shownProperties filter) =
    (Members.names node.properties).filter (showsProperty filter) := by
  rw [shownProperties, Members.names, Members.names, List.map_map, List.filter_map]
  rfl

/-- The children that are shown are a window of those whose names the filter passes. -/
theorem names_shownChildren (offset : Nat) (node : Tree) :
    Members.names (node.shownChildren offset max filter) =
      window offset max ((Members.names node.children).filter (showsNode filter)) := by
  rw [shownChildren, Members.names, Members.names, map_window, List.filter_map]
  rfl

/-- The names in a listing: properties, then children, then the total. -/
theorem names_listing (depth offset : Nat) (node : Tree) :
    Members.names (node.listing max filter depth offset) =
      (Members.names node.properties).filter (showsProperty filter) ++
        window offset max ((Members.names node.children).filter (showsNode filter)) ++
        [childNodeCount] := by
  rw [← names_shownProperties, ← names_shownChildren]
  simp [listing, Members.names, totalMember]

/-- Properties, children and the total never share a name. -/
theorem WellNamed.nodup_listing {node : Tree} (h : WellNamed node) (depth offset : Nat) :
    (Members.names (node.listing max filter depth offset)).Nodup := by
  have hProperties : ((Members.names node.properties).filter (showsProperty filter)).Sublist
      (Members.names node.properties) := List.filter_sublist
  have hChildren : (window offset max ((Members.names node.children).filter
      (showsNode filter))).Sublist (Members.names node.children) :=
    (window_sublist offset max _).trans List.filter_sublist
  rw [names_listing, List.nodup_append, List.nodup_append]
  refine ⟨⟨h.properties.sublist hProperties, h.children.sublist hChildren, ?_⟩,
    List.nodup_singleton _, ?_⟩
  · rintro name hProperty _ hChild rfl
    exact h.disjoint name (hChildren.subset hChild) (hProperties.subset hProperty)
  · intro name hName other hTotal hSame
    rw [hSame, List.mem_singleton.mp hTotal] at hName
    rcases List.mem_append.mp hName with hName | hName
    · exact h.unreservedProperty (hProperties.subset hName)
    · exact h.unreservedChild (hChildren.subset hName)

/-- No member of a listing takes the place of another. -/
theorem WellNamed.render_eq {node : Tree} (h : WellNamed node) (depth offset : Nat) :
    node.render max filter depth offset = .object (node.listing max filter depth offset) := by
  rw [render_eq_ofList, Members.ofList_of_nodup (h.nodup_listing max filter depth offset)]

end Levels

/-! ### One level -/

/-- Where no deeper levels are shown, a member is all that it stands for. -/
theorem WellNamed.render_zero {node : Tree} (h : WellNamed node) (offset : Nat)
    (max : Option Nat) (filter : Option NameFilter) :
    node.render max filter 0 offset =
      .object ((node.listed offset max filter).map Listed.member) := by
  rw [h.render_eq, listing]
  simp only [listed, List.map_append, List.map_map, shownProperties]
  rfl

/-- What a node lists is valid. -/
theorem WellNamed.valid_listed {node : Tree} (h : WellNamed node)
    (hCount : node.childCount < UInt64.size) (offset : Nat) (max : Option Nat)
    (filter : Option NameFilter) : ∀ listed ∈ node.listed offset max filter, listed.Valid := by
  intro listed hListed
  rw [Tree.listed, List.mem_append, List.mem_append] at hListed
  rcases hListed with (hListed | hListed) | hListed
  · obtain ⟨property, hMem, rfl⟩ := List.mem_map.mp hListed
    intro hName
    refine h.unreservedProperty (Members.mem_names.mpr ⟨property.2, ?_⟩)
    rw [← hName]
    exact List.mem_of_mem_filter hMem
  · obtain ⟨child, hMem, rfl⟩ := List.mem_map.mp hListed
    intro hName
    refine h.unreservedChild (Members.mem_names.mpr ⟨child.2, ?_⟩)
    rw [← hName]
    exact (shownChildren_sublist offset max filter node).subset hMem
  · rw [List.mem_singleton.mp hListed]
    exact hCount

end Tree

/-- The places of a reader of listings that lie between members. -/
inductive Stage where
  | opening
  | firstMember
  | name
  | separator
  | ending
  | finished

/-- A machine that goes from stage to stage, and changes what it has read by one member after the
other. What happens inside a member is up to the machine. -/
structure MemberReader {ε δ σ : Type} (step : σ → Token → Except ε σ) (place : Stage → δ → σ)
    (read : δ → Listed → Except ε δ) : Prop where
  opening : ∀ (draft : δ) (start : Nat),
    step (place .opening draft) ⟨.leftBrace, "\x7b", start⟩ = .ok (place .firstMember draft)
  firstMember : ∀ (draft : δ) (name : String) (start : Nat),
    step (place .firstMember draft) ⟨.string, name, start⟩ =
      step (place .name draft) ⟨.string, name, start⟩
  member : ∀ (draft : δ) (listed : Listed) (offset : Nat), listed.Valid →
    (Json.memberTokens offset [listed.member]).foldlM step (place .name draft) =
      (read draft listed).map (place .separator)
  comma : ∀ (draft : δ) (start : Nat),
    step (place .separator draft) ⟨.comma, ",", start⟩ = .ok (place .name draft)
  closing : ∀ (draft : δ) (start : Nat),
    step (place .separator draft) ⟨.rightBrace, "\x7d", start⟩ = .ok (place .ending draft)
  ending : ∀ (draft : δ) (position : Nat),
    step (place .ending draft) (.endingAt position) = .ok (place .finished draft)

namespace MemberReader

variable {ε δ σ : Type} {step : σ → Token → Except ε σ} {place : Stage → δ → σ}
  {read : δ → Listed → Except ε δ}

/-- The tokens of members are read as the members, one after the other. Behind each but the last
there is a comma, which leads back to the place before a name. -/
theorem foldlM_members (hReader : MemberReader step place read) (members : List Listed)
    (hMembers : members ≠ []) (hValid : ∀ listed ∈ members, listed.Valid) (offset : Nat)
    (draft : δ) :
    (Json.memberTokens offset (members.map Listed.member)).foldlM step (place .name draft) =
      (members.foldlM read draft).map (place .separator) := by
  induction members generalizing offset draft with
  | nil => exact absurd rfl hMembers
  | cons first rest ih =>
      have hFirst := hReader.member draft first offset (hValid first List.mem_cons_self)
      cases rest with
      | nil =>
          rw [List.map_singleton, hFirst, List.foldlM_cons]
          cases read draft first <;> rfl
      | cons second rest =>
          rw [List.map_cons, List.map_cons, Json.memberTokens_cons, List.foldlM_append, hFirst,
            List.foldlM_cons]
          cases read draft first with
          | error error => rfl
          | ok draft =>
              have hComma := hReader.comma draft
              have hRest := fun next => ih (by simp)
                (fun listed h => hValid listed (List.mem_cons_of_mem _ h)) next draft
              simp only [Except.map, bind, Except.bind, List.foldlM_cons, hComma]
              exact hRest _

/-- The text of an object is read from the first brace to the end. -/
theorem run_text (hReader : MemberReader step place read) (members : List Listed)
    (hMembers : members ≠ []) (hValid : ∀ listed ∈ members, listed.Valid)
    (misspelled : ParseError → ε) (draft : δ) :
    (Tokens.ofString (Json.object (members.map Listed.member)).text).run step misspelled
        (place .opening draft) =
      (members.foldlM read draft).map (place .finished) := by
  have hFold := hReader.foldlM_members members hMembers hValid 1 draft
  have hFirst : (Json.memberTokens 1 (members.map Listed.member)).foldlM step
        (place .firstMember draft) =
      (Json.memberTokens 1 (members.map Listed.member)).foldlM step (place .name draft) := by
    obtain ⟨first, rest, rfl⟩ := List.exists_cons_of_ne_nil hMembers
    obtain ⟨more, hTokens⟩ :=
      Json.exists_memberTokens 1 first.member (rest.map Listed.member)
    rw [List.map_cons, hTokens, List.foldlM_cons, List.foldlM_cons, hReader.firstMember]
  rw [Json.ofString_text, Tokens.run, Json.tokens, List.cons_append, List.foldlM_cons,
    hReader.opening]
  simp only [bind, Except.bind, List.foldlM_append, Nat.zero_add]
  rw [hFirst, hFold]
  cases members.foldlM read draft with
  | error error => rfl
  | ok draft =>
      have hClosing := hReader.closing draft
      have hEnding := hReader.ending draft
      simp only [Except.map, List.foldlM_cons, List.foldlM_nil, bind, Except.bind, hClosing, pure,
        Except.pure, hEnding]

end MemberReader

end PinnedTree
