import PinnedTree.Listing
import PinnedTree.Proofs.Listing.Members
import PinnedTree.Proofs.Number.Float
import PinnedTree.Proofs.Number.Integer
import PinnedTree.Store.Memory

/-! What is read from the text of a listing. A listing carries all that it shows, except for
integers that no scalar can hold, and the first of those is what the reading stops at. -/
namespace PinnedTree

def Json.Atom.integer? : Json.Atom → Option Int
  | .number (.integer value) => some value
  | _ => none

namespace Tree

/-- The atoms in the properties of a node, in the order of its listing. -/
def atoms (node : Tree) : List Json.Atom :=
  node.properties.flatMap fun property => property.2.toList

def integers (node : Tree) : List Int :=
  node.atoms.filterMap Json.Atom.integer?

/-- The properties of a node with the scalars that their atoms stand for. -/
def typedProperties (node : Tree) : Members Property :=
  node.properties.map fun property => (property.1, property.2.map Scalar.ofAtom)

/-- What a listing of a node with at most `limit` of its children is about. -/
def described (limit : Nat) (node : Tree) : Listing where
  properties := node.typedProperties
  children := node.childNames.take limit
  childCount := node.childCount

end Tree

namespace Listing

/-- The first integer that lies outside the range of the scalars. -/
def firstOutside (values : List Int) : Option Int :=
  values.find? fun value => ¬ Scalar.InLongRange value

def outOfRange (value : Int) : ListingError :=
  .unexpectedToken (String.ofList (Json.writeInt value))

/-- A result that is reached when all integers among some atoms are in range. -/
def checked {α : Type} (values : List Json.Atom) (result : α) : Except ListingError α :=
  match firstOutside (values.filterMap Json.Atom.integer?) with
  | none => .ok result
  | some value => .error (outOfRange value)

section Checked

variable {α β : Type}

/-- There is no first integer out of range exactly when all of them are in range. -/
theorem firstOutside_eq_none_iff {values : List Int} :
    firstOutside values = none ↔ ∀ value ∈ values, Scalar.InLongRange value := by
  simp [firstOutside]

theorem checked_map (values : List Json.Atom) (result : α) (f : α → β) :
    (checked values result).map f = checked values (f result) := by
  rw [checked, checked]
  cases firstOutside (values.filterMap Json.Atom.integer?) <;> rfl

/-- The second check is made only when the first one passes, so the earlier integer is found. -/
theorem checked_bind (values more : List Json.Atom) (result : α) {next : β}
    (f : α → Except ListingError β) (hNext : f result = checked more next) :
    (checked values result >>= f) = checked (values ++ more) next := by
  have hAppend : firstOutside ((values ++ more).filterMap Json.Atom.integer?) =
      (firstOutside (values.filterMap Json.Atom.integer?)).or
        (firstOutside (more.filterMap Json.Atom.integer?)) := by
    rw [List.filterMap_append, firstOutside, List.find?_append]
    rfl
  rw [checked, checked, hAppend]
  cases firstOutside (values.filterMap Json.Atom.integer?) with
  | some value => rfl
  | none => exact hNext

end Checked

/-- Every atom is read as itself, but for an integer out of range. -/
theorem scalar_token (value : Json.Atom) (start : Nat) :
    scalar (value.token start) = checked [value] (Scalar.ofAtom value) := by
  cases value with
  | boolean value => cases value <;> rfl
  | text value => rfl
  | number value =>
      cases value with
      | float value =>
          have hLayout : Json.floatLayout.greatestPoint ≤ 16 := by decide
          have hRead := number?_writeFinite hLayout value
          simp only [scalar, Json.Atom.token, Json.Atom.kind, Json.Atom.tokenText, Json.Atom.write,
            Json.Number.write, hRead]
          rfl
      | integer value =>
          have hRead := number?_writeInt value
          simp only [scalar, Json.Atom.token, Json.Atom.kind, Json.Atom.tokenText, Json.Atom.write,
            Json.Number.write, hRead]
          by_cases hRange : Scalar.InLongRange value
          · simp [checked, firstOutside, Json.Atom.integer?, Scalar.ofAtom, Scalar.long?, hRange]
          · simp [checked, firstOutside, Json.Atom.integer?, outOfRange, Scalar.long?, hRange]

theorem step_item (name : String) (value : Json.Atom) (items : List Scalar) (offset : Nat)
    (draft : Draft) :
    step (.item name items, draft) (value.token offset) =
      checked [value] (.itemSeparator name (items ++ [Scalar.ofAtom value]), draft) := by
  simp only [step]
  rw [scalar_token, checked_map]

/-- The items of an array are read behind those that were read before. -/
theorem foldlM_itemTokens (name : String) (first : Json.Atom) (rest : List Json.Atom)
    (items : List Scalar) (offset : Nat) (draft : Draft) :
    (Json.itemTokens offset ((first :: rest).map Json.atom)).foldlM step
        (.item name items, draft) =
      checked (first :: rest)
        (.itemSeparator name (items ++ (first :: rest).map Scalar.ofAtom), draft) := by
  induction rest generalizing first items offset with
  | nil =>
      simp only [List.map_cons, List.map_nil, Json.itemTokens, Json.tokens, List.foldlM_cons,
        List.foldlM_nil, step_item]
      exact bind_pure _
  | cons second rest ih =>
      have hItems := ih second (items ++ [Scalar.ofAtom first])
      rw [List.append_assoc] at hItems
      simp only [List.map_cons, Json.itemTokens, Json.tokens, List.cons_append, List.nil_append,
        List.foldlM_cons, step_item]
      exact checked_bind [first] (second :: rest) _ _ (hItems _)

/-- A value behind a colon is read to its end. -/
theorem foldlM_propertyTokens (name : String) (value : OneOrMany Json.Atom) (offset : Nat)
    (draft : Draft) :
    (Json.tokens offset (Tree.propertyJson value)).foldlM step (.value name, draft) =
      checked value.toList (.separator, draft.addProperty name (value.map Scalar.ofAtom)) := by
  cases value with
  | one value =>
      obtain ⟨hBrace, hBracket, -⟩ := value.kind_ne_mark
      have hStep : step (.value name, draft) (value.token offset) =
          checked [value] (.separator, draft.addProperty name (.one (Scalar.ofAtom value))) := by
        simp only [step]
        rw [Json.Atom.kind_token, if_neg hBrace, if_neg hBracket, scalar_token, checked_map]
      simp only [Tree.propertyJson, Json.tokens, List.foldlM_cons, List.foldlM_nil, hStep]
      exact bind_pure _
  | many values =>
      cases values with
      | nil => rfl
      | cons first rest =>
          have hFirst : step (.firstItem name, draft) (first.token (offset + 1)) =
              step (.item name [], draft) (first.token (offset + 1)) := by
            obtain ⟨-, -, hBracket⟩ := first.kind_ne_mark
            simp only [step]
            rw [Json.Atom.kind_token, if_neg hBracket]
            rfl
          have hItems : (Json.itemTokens (offset + 1) ((first :: rest).map Json.atom)).foldlM step
                (.firstItem name, draft) =
              (Json.itemTokens (offset + 1) ((first :: rest).map Json.atom)).foldlM step
                (.item name [], draft) := by
            obtain ⟨more, hTokens⟩ := Json.exists_itemTokens (offset + 1) first rest
            rw [hTokens, List.foldlM_cons, List.foldlM_cons, hFirst]
          rw [foldlM_itemTokens, List.nil_append] at hItems
          have hClose : ∀ start,
              [⟨TokenKind.rightBracket, "]", start⟩].foldlM step
                  (.itemSeparator name ((first :: rest).map Scalar.ofAtom), draft) =
                checked [] (.separator, draft.addProperty name
                  ((OneOrMany.many (first :: rest)).map Scalar.ofAtom)) :=
            fun _ => rfl
          have hAll := fun start => checked_bind (first :: rest) [] _
            (fun state => [⟨TokenKind.rightBracket, "]", start⟩].foldlM step state) (hClose start)
          rw [List.append_nil] at hAll
          rw [Tree.propertyJson, Json.tokens, List.cons_append, List.foldlM_cons,
            show step (.value name, draft) ⟨.leftBracket, "[", offset⟩ =
              .ok (.firstItem name, draft) from rfl]
          simp only [bind, Except.bind, List.foldlM_append] at hAll ⊢
          rw [hItems]
          exact hAll _

def readListed (draft : Draft) : Listed → Except ListingError Draft
  | .property name value =>
    checked value.toList (draft.addProperty name (value.map Scalar.ofAtom))
  | .child name => .ok (draft.addChild name)
  | .total count => .ok { draft with childCount := some count }

def stagePlace : Stage → Place
  | .opening => .opening
  | .firstMember => .firstMember
  | .name => .name
  | .separator => .separator
  | .ending => .ending
  | .finished => .finished

/-- Behind a name and its colon the value is due, and behind the reserved name the total. -/
theorem foldlM_name (name : String) (value : Json) (offset : Nat) (draft : Draft) :
    (Json.memberTokens offset [(name, value)]).foldlM step (.name, draft) =
      (Json.tokens (offset + Text.byteLength (Json.writeString name) + 1) value).foldlM step
        (if name = childNodeCount then .total else .value name, draft) := by
  rw [Json.memberTokens, List.foldlM_cons,
    show step (.name, draft) ⟨.string, name, offset⟩ = .ok (.colon name, draft) from rfl]
  rfl

theorem memberReader : MemberReader step (fun stage draft => (stagePlace stage, draft))
    readListed where
  opening _ _ := rfl
  firstMember _ _ _ := rfl
  comma _ _ := rfl
  closing _ _ := rfl
  ending _ _ := rfl
  member draft listed offset hValid := by
    rw [Listed.member, stagePlace, foldlM_name]
    cases listed with
    | property name value =>
        rw [Listed.name, if_neg hValid, Listed.json, foldlM_propertyTokens, readListed,
          checked_map]
        rfl
    | child name =>
        rw [Listed.name, if_neg hValid]
        rfl
    | total count =>
        have hCount : count? (String.ofList (Json.writeInt count)) = some count :=
          count?_writeInt hValid
        rw [Listed.name, if_pos rfl, Listed.json, Json.tokens, List.foldlM_cons]
        simp only [step, Json.Atom.token, Json.Atom.kind, Json.Atom.tokenText, Json.Atom.write,
          Json.Number.write, if_true, hCount]
        rfl

/-! ### Whole listings -/

theorem addProperty_of_notMem {draft : Draft} {name : String} (value : Property)
    (h : name ∉ Members.names draft.properties) :
    draft.addProperty name value =
      { draft with properties := draft.properties ++ [(name, value)] } := by
  rw [Draft.addProperty, Members.put_of_notMem h]

/-- Properties of new names are read one behind the other, up to the first integer out of range. -/
theorem foldlM_properties (properties : Members (OneOrMany Json.Atom)) (draft : Draft)
    (hNodup : (Members.names draft.properties ++ Members.names properties).Nodup) :
    (properties.map fun property => Listed.property property.1 property.2).foldlM readListed
        draft =
      checked (properties.flatMap fun property => property.2.toList)
        { draft with
          properties := draft.properties ++
            properties.map fun property => (property.1, property.2.map Scalar.ofAtom) } := by
  induction properties generalizing draft with
  | nil =>
      rw [List.map_nil, List.map_nil, List.append_nil]
      rfl
  | cons property rest ih =>
      have hNew : property.1 ∉ Members.names draft.properties := by
        intro hOld
        exact (List.nodup_append.mp hNodup).2.2 _ hOld _ List.mem_cons_self rfl
      have hRest := ih (draft.addProperty property.1 (property.2.map Scalar.ofAtom)) (by
        rw [addProperty_of_notMem _ hNew]
        simpa [Members.names] using hNodup)
      rw [List.map_cons, List.foldlM_cons, List.flatMap_cons, readListed]
      refine (checked_bind property.2.toList _ _ (fun draft => List.foldlM readListed draft _)
        hRest).trans ?_
      rw [addProperty_of_notMem _ hNew]
      simp

/-- Children of new names are read one behind the other. -/
theorem foldlM_children (names : List String) (draft : Draft)
    (hNodup : (draft.children ++ names).Nodup) :
    (names.map Listed.child).foldlM readListed draft =
      .ok { draft with children := draft.children ++ names } := by
  induction names generalizing draft with
  | nil =>
      rw [List.append_nil]
      rfl
  | cons name rest ih =>
      have hNew : name ∉ draft.children := by
        intro hOld
        exact (List.nodup_append.mp hNodup).2.2 _ hOld _ List.mem_cons_self rfl
      have hAdd : draft.addChild name = { draft with children := draft.children ++ [name] } :=
        if_neg hNew
      have hRest := ih (draft.addChild name) (by
        rw [hAdd]
        simpa using hNodup)
      rw [List.map_cons, List.foldlM_cons, readListed]
      rw [hAdd] at hRest
      simpa [hAdd, bind, Except.bind] using hRest

/-- From the listing of a node, its properties, its children and the total are read. -/
theorem draft_listed {node : Tree} (hNode : node.WellNamed) (offset : Nat) (max : Option Nat) :
    (node.listed offset max none).foldlM readListed {} =
      checked node.atoms
        { properties := node.typedProperties
          children := window offset max node.childNames
          childCount := some node.childCount } := by
  have hProperties := foldlM_properties node.properties {} hNode.properties
  have hNodup : (window offset max node.childNames).Nodup :=
    hNode.children.sublist (window_sublist offset max _)
  have hChildren := foldlM_children (window offset max node.childNames)
    { properties := node.typedProperties } hNodup
  rw [Tree.listed, Tree.filter_showsProperty_none, Tree.map_child_shownChildren,
    List.append_assoc, List.foldlM_append, hProperties]
  refine (checked_bind _ [] _ (fun draft => List.foldlM readListed draft _) ?_).trans
    (congrArg (fun atoms => checked atoms _) (List.append_nil _))
  rw [List.foldlM_append]
  exact congrArg (· >>= _) hChildren

/-- Reading undoes listing, as far as scalars can hold the integers. -/
theorem ofString_render {node : Tree} (hNode : node.WellNamed)
    (hCount : node.childCount < UInt64.size) (limit : Nat) :
    ofString limit (node.render (some limit) none 0 0).text =
      checked node.atoms (node.described limit) := by
  have hRun := memberReader.run_text (node.listed 0 (some limit) none)
    (Tree.listed_ne_nil 0 (some limit) none node)
    (hNode.valid_listed hCount 0 (some limit) none) .malformed {}
  rw [draft_listed hNode, checked_map] at hRun
  have hDraft : ofDraft limit
      (Text.byteLength (node.render (some limit) none 0 0).text.toList)
      { properties := node.typedProperties
        children := window 0 (some limit) node.childNames
        childCount := some node.childCount } = .ok (node.described limit) := by
    have hLength : (window 0 (some limit) node.childNames).length ≤ node.childCount :=
      Nat.le_trans (window_sublist 0 (some limit) node.childNames).length_le
        (Nat.le_of_eq node.length_childNames)
    have hLimit : (window 0 (some limit) node.childNames).length ≤ limit :=
      List.length_take_le _ _
    simp only [ofDraft, Option.getD_some]
    rw [if_neg (Nat.not_lt.mpr hLength), if_neg (Nat.not_lt.mpr hLimit)]
    rfl
  rw [← hNode.render_zero] at hRun
  rw [ofString, draft, show ((Place.opening, {}) : State) = (stagePlace .opening, {}) from rfl,
    hRun, checked_map]
  have hListing := checked_bind node.atoms [] _
    (ofDraft limit (Text.byteLength (node.render (some limit) none 0 0).text.toList)) hDraft
  rw [List.append_nil] at hListing
  exact hListing

end Listing

end PinnedTree
