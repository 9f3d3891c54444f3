import PinnedTree.Listing.Slice
import PinnedTree.Proofs.Listing.Decoding

/-! The children in the text of a listing. All other values are passed over, so that nothing but the
shown children decides what is found, whatever the properties hold. -/
namespace PinnedTree.Slice

/-- An atom under a name is passed over at once. -/
theorem pass_atom (value : Json.Atom) (start : Nat) :
    pass .start (value.token start) = .ok .separator := by
  obtain ⟨hBrace, hBracket, -⟩ := value.kind_ne_mark
  rw [pass, ValuePlace.start, ValuePlace.step, ValuePlace.beginValue, Json.Atom.kind_token,
    if_neg hBrace, if_neg hBracket, if_pos value.isAtom_kind]
  rfl

theorem pass_item (value : Json.Atom) (start : Nat) :
    pass (.value [.array]) (value.token start) = .ok (.inside (.separator .array [])) := by
  obtain ⟨hBrace, hBracket, -⟩ := value.kind_ne_mark
  rw [pass, ValuePlace.step, ValuePlace.beginValue, Json.Atom.kind_token, if_neg hBrace,
    if_neg hBracket, if_pos value.isAtom_kind]
  rfl

theorem pass_firstItem (value : Json.Atom) (start : Nat) :
    pass (.firstItem []) (value.token start) = pass (.value [.array]) (value.token start) := by
  obtain ⟨-, -, hBracket⟩ := value.kind_ne_mark
  rw [pass, pass, ValuePlace.step, ValuePlace.step, Json.Atom.kind_token, if_neg hBracket]

/-- The items of an array are passed over, and no name is found in them. -/
theorem foldlM_itemTokens (first : Json.Atom) (rest : List Json.Atom) (offset : Nat)
    (names : Array String) :
    (Json.itemTokens offset ((first :: rest).map Json.atom)).foldlM step
        (.inside (.value [.array]), names) = .ok (.inside (.separator .array []), names) := by
  induction rest generalizing first offset with
  | nil =>
      simp only [List.map_cons, List.map_nil, Json.itemTokens, Json.tokens, List.foldlM_cons,
        List.foldlM_nil, step, pass_item]
      rfl
  | cons second rest ih =>
      have hItems := ih second
      simp only [List.map_cons, Json.itemTokens, Json.tokens, List.cons_append, List.nil_append,
        List.foldlM_cons, step, pass_item]
      exact hItems _

/-- A property is passed over. -/
theorem foldlM_propertyTokens (name : String) (value : OneOrMany Json.Atom) (offset : Nat)
    (names : Array String) :
    (Json.tokens offset (Tree.propertyJson value)).foldlM step (.value name, names) =
      .ok (.separator, names) := by
  cases value with
  | one value =>
      obtain ⟨hBrace, -⟩ := value.kind_ne_mark
      simp only [Tree.propertyJson, Json.tokens, List.foldlM_cons, List.foldlM_nil, step]
      rw [Json.Atom.kind_token, if_neg hBrace, pass_atom]
      rfl
  | many values =>
      cases values with
      | nil => rfl
      | cons first rest =>
          have hItems : (Json.itemTokens (offset + 1) ((first :: rest).map Json.atom)).foldlM step
              (.inside (.firstItem []), names) = .ok (.inside (.separator .array []), names) := by
            obtain ⟨more, hTokens⟩ := Json.exists_itemTokens (offset + 1) first rest
            rw [← foldlM_itemTokens first rest (offset + 1) names, hTokens, List.foldlM_cons,
              List.foldlM_cons]
            simp only [step, pass_firstItem]
          rw [Tree.propertyJson, Json.tokens, List.cons_append, List.foldlM_cons,
            show step (.value name, names) ⟨.leftBracket, "[", offset⟩ =
              .ok (.inside (.firstItem []), names) from rfl]
          simp only [bind, Except.bind, List.foldlM_append]
          rw [hItems]
          rfl

def readListed (names : Array String) : Listed → Except ListingError (Array String)
  | .child name => .ok (names.push name)
  | .property _ _ | .total _ => .ok names

def stagePlace : Stage → Place
  | .opening => .opening
  | .firstMember => .firstMember
  | .name => .name
  | .separator => .separator
  | .ending => .ending
  | .finished => .finished

/-- Behind a name and its colon, its value is read. -/
theorem foldlM_name (name : String) (value : Json) (offset : Nat) (names : Array String) :
    (Json.memberTokens offset [(name, value)]).foldlM step (.name, names) =
      (Json.tokens (offset + Text.byteLength (Json.writeString name) + 1) value).foldlM step
        (.value name, names) := by
  rw [Json.memberTokens, List.foldlM_cons,
    show step (.name, names) ⟨.string, name, offset⟩ = .ok (.colon name, names) from rfl]
  rfl

theorem memberReader : MemberReader step (fun stage names => (stagePlace stage, names))
    readListed where
  opening _ _ := rfl
  firstMember _ _ _ := rfl
  comma _ _ := rfl
  closing _ _ := rfl
  ending _ _ := rfl
  member names listed offset _ := by
    rw [Listed.member, stagePlace, foldlM_name]
    cases listed with
    | property name value =>
        rw [Listed.json, foldlM_propertyTokens]
        rfl
    | child name => rfl
    | total count =>
        rw [Listed.json, Json.tokens, List.foldlM_cons]
        rfl

theorem foldlM_properties (properties : Members (OneOrMany Json.Atom)) (names : Array String) :
    (properties.map fun property => Listed.property property.1 property.2).foldlM readListed
      names = .ok names := by
  induction properties with
  | nil => rfl
  | cons property rest ih =>
      rw [List.map_cons, List.foldlM_cons]
      exact ih

theorem foldlM_children (children : List String) (names : Array String) :
    (children.map Listed.child).foldlM readListed names = .ok (names ++ children.toArray) := by
  induction children generalizing names with
  | nil =>
      rw [Array.append_empty]
      rfl
  | cons name rest ih =>
      have hRest := ih (names.push name)
      rw [List.map_cons, List.foldlM_cons]
      refine hRest.trans (congrArg Except.ok ?_)
      apply Array.ext'
      simp

/-- A slice has the names of the shown children in order, and no others. -/
theorem ofString_render {node : Tree} (hNode : node.WellNamed)
    (hCount : node.childCount < UInt64.size) (offset : Nat) (max : Option Nat) :
    ofString (node.render max none 0 offset).text = .ok (window offset max node.childNames) := by
  have hRun := memberReader.run_text (node.listed offset max none)
    (Tree.listed_ne_nil offset max none node) (hNode.valid_listed hCount offset max none)
    .malformed #[]
  have hChildren := foldlM_children (window offset max node.childNames) #[]
  have hFold : (node.listed offset max none).foldlM readListed #[] =
      .ok (#[] ++ (window offset max node.childNames).toArray) := by
    rw [Tree.listed, List.append_assoc, List.foldlM_append, foldlM_properties,
      Tree.map_child_shownChildren]
    simp only [bind, Except.bind, List.foldlM_append]
    rw [hChildren]
    rfl
  rw [hFold, ← hNode.render_zero] at hRun
  rw [ofString, show ((Place.opening, #[]) : State) = (stagePlace .opening, #[]) from rfl, hRun]
  simp [Except.map]

end PinnedTree.Slice
