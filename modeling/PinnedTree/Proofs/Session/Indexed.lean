import PinnedTree.Proofs.Listing.Additions
import PinnedTree.Proofs.Members.Indexed
import PinnedTree.Session.Indexed

/-! Listings read into indexed members. Such a reading goes through the places of a plain one, and
its indexes are in step with the members at each place. So it refuses the same texts, and what a
look-up by name finds is the member of that name. -/
namespace PinnedTree

/-- A machine that shows each step of another shows its run over a text. -/
theorem Tokens.run_view {ε δ σ τ : Type} {step : σ → Token → Except ε σ}
    {other : τ → Token → Except δ τ} (view : σ → τ) (words : ε → δ) (Holds : σ → Prop)
    (hStep : ∀ {state token}, Holds state →
      other (view state) token = ((step state token).mapError words).map view)
    (hKeeps : ∀ {state token next}, Holds state → step state token = .ok next → Holds next)
    (start : σ) (hStart : Holds start) (misspelled : ParseError → ε) (tokens : Tokens) :
    tokens.run other (fun error => words (misspelled error)) (view start) =
      ((tokens.run step misspelled start).mapError words).map view := by
  obtain ⟨hFront, hHolds⟩ := foldlM_view view words Holds hStep hKeeps hStart tokens.front
  rw [Tokens.run, Tokens.run, hFront]
  cases hLast : tokens.front.foldlM step start with
  | error error => rfl
  | ok last =>
      cases hEnding : tokens.ending with
      | error error => rfl
      | ok position => exact hStep (hHolds last hLast)

/-! ### Drafts with indexes -/

namespace IndexedContent

variable {path : String} {revision : Revision}

/-- The children of these names below `path`, as snapshots that nothing has been asked about. -/
def snapshots (path : String) (revision : Revision) (names : List String) : Members Snapshot :=
  names.map fun name => (name, { path := Path.child path name, revision })

theorem names_snapshots (names : List String) : (snapshots path revision names).names = names := by
  rw [Members.names, snapshots, List.map_map]
  exact List.map_id names

/-- A child that is written again is the same child. -/
theorem put_snapshots (name : String) (names : List String) :
    (snapshots path revision names).put name { path := Path.child path name, revision } =
      snapshots path revision (Listing.listName names name) := by
  induction names with
  | nil => rfl
  | cons first rest ih =>
      by_cases hSame : first = name
      · subst hSame
        rw [Listing.listName, if_pos List.mem_cons_self, snapshots, List.map_cons, Members.put,
          if_pos rfl]
      · rw [Listing.listName_cons hSame]
        change Members.put name _ ((first, _) :: snapshots path revision rest) = _
        rw [Members.put, if_neg hSame, ih]
        rfl

def ofListing (path : String) (revision : Revision) (listing : Listing) : IndexedContent where
  properties := .ofMembers listing.properties
  children := .ofMembers (snapshots path revision listing.children)
  childCount := listing.childCount

namespace Draft

def ofListed (path : String) (revision : Revision) (draft : Listing.Draft) : Draft where
  properties := .ofMembers draft.properties
  children := .ofMembers (snapshots path revision draft.children)
  childCount := draft.childCount

/-- Leaving the indexes out undoes adding them. -/
theorem listed_ofListed (draft : Listing.Draft) :
    (ofListed path revision draft).listed = draft := by
  obtain ⟨properties, children, childCount⟩ := draft
  simp only [listed, ofListed, IndexedMembers.names_ofMembers, names_snapshots]
  rfl

/-- Children that are written one after the other keep the index in step. -/
theorem foldlM_put_snapshots {names : List String} (h : names.Nodup) (added : List String) :
    added.foldlM
        (fun table name =>
          IndexedMembers.put name { path := Path.child path name, revision : Snapshot } table)
        (.ofMembers (snapshots path revision names)) =
      .ok (.ofMembers (snapshots path revision (added.foldl Listing.listName names))) := by
  induction added generalizing names with
  | nil => rfl
  | cons name added ih =>
      rw [List.foldlM_cons, IndexedMembers.put_ofMembers ((names_snapshots names).symm ▸ h),
        put_snapshots]
      exact ih (Listing.nodup_listName h name)

/-- What is read next keeps the indexes in step. -/
theorem add_ofListed {draft : Listing.Draft} (h : draft.Distinct) (added : Listing.Draft) :
    (ofListed path revision draft).add path revision added =
      .ok (ofListed path revision (draft.join added)) := by
  have hProperties : added.properties.foldlM (fun table property => table.put property.1 property.2)
      (ofListed path revision draft).properties = .ok (.ofMembers (draft.join added).properties) :=
    IndexedMembers.foldlM_put_ofMembers h.properties
  have hChildren : added.children.foldlM
      (fun table name => table.put name { path := Path.child path name, revision })
      (ofListed path revision draft).children =
        .ok (.ofMembers (snapshots path revision (draft.join added).children)) :=
    foldlM_put_snapshots h.children added.children
  rw [add, hProperties, hChildren]
  rfl

def ofState (path : String) (revision : Revision) (state : Listing.State) : Listing.Place × Draft :=
  (state.1, ofListed path revision state.2)

/-- A step with indexes is a step without them, and the indexes that belong to it. -/
theorem step_ofState {state : Listing.State} (h : state.2.Distinct) (token : Token) :
    step path revision (ofState path revision state) token =
      ((Listing.step state token).mapError .listing).map (ofState path revision) := by
  obtain ⟨place, draft⟩ := state
  rw [Listing.step_eq_join, step, ofState]
  cases hAdded : Listing.step (place, {}) token with
  | error error => rfl
  | ok state =>
      obtain ⟨next, added⟩ := state
      change ((ofListed path revision draft).add path revision added).mapError _ >>= _ = _
      rw [add_ofListed h]
      rfl

/-- The indexes are in step wherever a text leads. -/
theorem run_ofState (path : String) (revision : Revision) (tokens : Tokens) :
    tokens.run (step path revision) (fun error => .listing (.malformed error)) (.opening, {}) =
      ((tokens.run Listing.step .malformed (.opening, {})).mapError .listing).map
        (ofState path revision) :=
  have hStart : ({} : Listing.Draft).Distinct := ⟨List.nodup_nil, List.nodup_nil⟩
  Tokens.run_view (ofState path revision) IndexedError.listing (fun state => state.2.Distinct)
    (fun h => step_ofState h _) (fun h hStep => h.step hStep)
    (.opening, {}) hStart ListingError.malformed tokens

/-- The content with indexes is the listing without them, and the indexes that belong to it. -/
theorem content_ofListed (limit position : Nat) (draft : Listing.Draft) :
    (ofListed path revision draft).content limit position =
      ((Listing.ofDraft limit position draft).mapError .listing).map (ofListing path revision) := by
  rw [content, listed_ofListed]
  cases hListing : Listing.ofDraft limit position draft with
  | error error => rfl
  | ok listing =>
      obtain ⟨-, -, rfl⟩ := Listing.ofDraft_eq_ok_iff.mp hListing
      rfl

end Draft

/-- Reading with indexes is reading without them, and adding them at the end. -/
theorem ofString_eq (config : Config) (path : String) (revision : Revision) (text : String) :
    ofString config path revision text =
      ((Listing.ofString config.childCacheLimit text).mapError .listing).map
        (ofListing path revision) := by
  rw [ofString, Draft.run_ofState, Listing.ofString, Listing.draft]
  cases (Tokens.ofString text).run Listing.step .malformed (.opening, {}) with
  | error error => rfl
  | ok state => exact Draft.content_ofListed _ _ state.2

/-- A text that is read with indexes is accepted without them. -/
theorem ofString_eq_ok {config : Config} {text : String} {content : IndexedContent}
    (h : ofString config path revision text = .ok content) :
    ∃ listing, Listing.ofString config.childCacheLimit text = .ok listing ∧
      ofListing path revision listing = content := by
  rw [ofString_eq] at h
  obtain ⟨listing, hListing, hContent⟩ := exists_of_map_eq_ok h
  exact ⟨listing, eq_ok_of_mapError_eq_ok hListing, hContent⟩

/-- No text makes an index wrong. -/
theorem ofString_ne_outOfBounds (config : Config) (text : String) (fault : OutOfBounds) :
    ofString config path revision text ≠ .error (.outOfBounds fault) := by
  rw [ofString_eq]
  cases Listing.ofString config.childCacheLimit text with
  | error error => nofun
  | ok listing => nofun

theorem listing_ofListing (listing : Listing) :
    (ofListing path revision listing).listing = listing := by
  obtain ⟨properties, children, childCount⟩ := listing
  simp only [IndexedContent.listing, ofListing, IndexedMembers.names_ofMembers, names_snapshots]
  rfl

end IndexedContent

/-- The indexes of a listing that has been read are right. Each has the position of every name of
its table and of no other name, and the names of a table differ. So a look-up finds the member of
a name that is there and nothing for another name, and no position lies outside of its table. There
are no more children than are counted and no more than may be kept, and without its indexes the
listing is the one that is read without any. -/
theorem indexes_exact (config : Config) (path : String) (revision : Revision) (text : String) :
    (∀ fault, IndexedContent.ofString config path revision text ≠ .error (.outOfBounds fault)) ∧
      ∀ content, IndexedContent.ofString config path revision text = .ok content →
        content.properties.InStep ∧ content.children.InStep ∧
        content.properties.Answers id content.property? ∧
        content.children.Answers Prod.snd content.child? ∧
        content.children.entries.size ≤ min content.childCount config.childCacheLimit ∧
        Listing.ofString config.childCacheLimit text = .ok content.listing := by
  refine ⟨IndexedContent.ofString_ne_outOfBounds config text, fun content hContent => ?_⟩
  obtain ⟨listing, hListing, rfl⟩ := IndexedContent.ofString_eq_ok hContent
  have hProperties := Listing.nodup_properties hListing
  have hChildren : (IndexedContent.snapshots path revision listing.children).names.Nodup :=
    (IndexedContent.names_snapshots listing.children).symm ▸ Listing.nodup_children hListing
  refine ⟨IndexedMembers.inStep_ofMembers hProperties, IndexedMembers.inStep_ofMembers hChildren,
    IndexedMembers.answers_find? hProperties, (IndexedMembers.answers_find? hChildren).map Prod.snd,
    ?_, ?_⟩
  · have hSize : (IndexedContent.snapshots path revision listing.children).length =
        listing.children.length := List.length_map _
    exact hSize.trans_le (Listing.length_children_le hListing)
  · rw [IndexedContent.listing_ofListing]
    exact hListing

/-- The name that comes twice has one position, at which its last value stands. -/
theorem indexes_exact_sample :
    ∃ content, IndexedContent.ofString { childCacheLimit := 5 } "/" ⟨"r1"⟩ Listing.repeating.text =
        .ok content ∧
      content.properties.positions.find? "n" = some 0 ∧
      content.property? "n" = .ok (some ("n", .one (.long 3))) ∧
      content.child? "a" = .ok (some { path := "/a", revision := ⟨"r1"⟩ }) ∧
      content.child? "n" = .ok none := by
  obtain ⟨listing, hListing⟩ : ∃ listing, Listing.ofString 5 Listing.repeating.text = .ok listing :=
    Listing.spells_repeating.exists_listing ⟨by decide, by decide⟩
  obtain ⟨-, hProperties, hChildren, -⟩ := Listing.spells_repeating.ofString_eq_ok hListing
  have hContent : IndexedContent.ofString { childCacheLimit := 5 } "/" ⟨"r1"⟩
      Listing.repeating.text = .ok (.ofListing "/" ⟨"r1"⟩ listing) := by
    rw [IndexedContent.ofString_eq, hListing]
    rfl
  obtain ⟨-, hExact⟩ := indexes_exact { childCacheLimit := 5 } "/" ⟨"r1"⟩ Listing.repeating.text
  obtain ⟨hInStep, -, hProperty, hChild, -⟩ := hExact _ hContent
  have hNames : (IndexedContent.ofListing "/" ⟨"r1"⟩ listing).children.names = ["a"] :=
    (IndexedContent.names_snapshots listing.children).trans hChildren
  refine ⟨_, hContent, (hInStep.position "n" 0).mpr ?_, hProperty.member ("n", _) ?_,
    hChild.member ("a", _) ?_, hChild.other "n" ?_⟩
  · exact congrArg (·[0]?) hProperties.names
  · exact List.mem_toArray.mpr (Members.mem_of_find? (hProperties.values "n"))
  · exact List.mem_toArray.mpr (List.mem_map.mpr ⟨"a", hChildren ▸ List.mem_cons_self, rfl⟩)
  · rw [hNames]
    decide

end PinnedTree
