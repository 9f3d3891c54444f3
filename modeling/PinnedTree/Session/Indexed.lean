import PinnedTree.Members.Indexed
import PinnedTree.Session

/-!
Listings that are read into indexed members, so that properties and children can be looked up by
name. Each member of a listing is written when its last token has been read.
-/

namespace PinnedTree

/-- What a listing says about a node, with an index for properties and one for children. -/
structure IndexedContent where
  properties : IndexedMembers Property
  /-- The children that are listed, as snapshots that nothing has been asked about. -/
  children : IndexedMembers Snapshot
  /-- The number of all children. -/
  childCount : Nat

/-- Why there is no content: the text is refused, or an index is wrong. -/
inductive IndexedError where
  | listing (error : ListingError)
  | outOfBounds (fault : OutOfBounds)
  deriving DecidableEq, Repr

namespace IndexedContent

def property? (content : IndexedContent) (name : String) :
    Except OutOfBounds (Option (String × Property)) :=
  content.properties.find? name

def child? (content : IndexedContent) (name : String) : Except OutOfBounds (Option Snapshot) :=
  (content.children.find? name).map (Option.map Prod.snd)

def listing (content : IndexedContent) : Listing where
  properties := content.properties.entries.toList
  children := content.children.names
  childCount := content.childCount

structure Draft where
  properties : IndexedMembers Property := {}
  children : IndexedMembers Snapshot := {}
  childCount : Option Nat := none

namespace Draft

def listed (draft : Draft) : Listing.Draft where
  properties := draft.properties.entries.toList
  children := draft.children.names
  childCount := draft.childCount

def add (path : String) (revision : Revision) (draft : Draft) (added : Listing.Draft) :
    Except OutOfBounds Draft := do
  let properties ← added.properties.foldlM (fun table property => table.put property.1 property.2)
    draft.properties
  let children ← added.children.foldlM
    (fun table name => table.put name { path := Path.child path name, revision }) draft.children
  return { properties, children, childCount := added.childCount.or draft.childCount }

/-- The place and the draft after one more token. Where a token leads and what is read with it does
not depend on what has been read before. -/
def step (path : String) (revision : Revision) (state : Listing.Place × Draft) (token : Token) :
    Except IndexedError (Listing.Place × Draft) := do
  let (next, added) ← (Listing.step (state.1, {}) token).mapError .listing
  let draft ← (state.2.add path revision added).mapError .outOfBounds
  return (next, draft)

/-- A listing of more children than it counts, or than were asked for, is refused at the end of the
text. -/
def content (limit position : Nat) (draft : Draft) : Except IndexedError IndexedContent := do
  let listing ← (Listing.ofDraft limit position draft.listed).mapError .listing
  return {
    properties := draft.properties, children := draft.children, childCount := listing.childCount }

end Draft

def ofString (config : Config) (path : String) (revision : Revision) (text : String) :
    Except IndexedError IndexedContent := do
  let (_, draft) ← (Tokens.ofString text).run (Draft.step path revision)
    (fun error => .listing (.malformed error)) (.opening, {})
  draft.content config.childCacheLimit (Text.byteLength text.toList)

end IndexedContent

end PinnedTree
