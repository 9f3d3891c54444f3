import PinnedTree.Proofs.Listing.Acceptance
import PinnedTree.Proofs.Session.Laziness

/-! What a snapshot keeps was read from a listing. Wherever snapshots are opened, whatever the store
answers, and however it changes between the calls: the children that are kept have different names,
and there are no more of them than are counted. -/
namespace PinnedTree

namespace Listing

/-- The children of a listing that is accepted. -/
structure Sound (limit : Nat) (listing : Listing) : Prop where
  distinct : listing.children.Nodup
  counted : listing.children.length ≤ listing.childCount
  requested : listing.children.length ≤ limit

/-- A listing that is accepted is sound. -/
theorem sound_of_ok {limit : Nat} {text : String} {listing : Listing}
    (h : ofString limit text = .ok listing) : listing.Sound limit := by
  obtain ⟨entries, hSpells⟩ := exists_spells_of_ok h
  obtain ⟨hFits, -, hChildren, hCount⟩ := hSpells.ofString_eq_ok h
  refine ⟨?_, ?_, ?_⟩
  · rw [hChildren, listedChildren]
    exact nodup_eraseDups _
  · rw [hChildren, hCount]
    exact le_getD_iff.mpr hFits.counted
  · rw [hChildren]
    exact hFits.requested

end Listing

def Content.listing (content : Content) : Listing where
  properties := content.properties
  children := content.children.map ChildEntry.name
  childCount := content.childCount

/-- Some text says what is kept. -/
def Content.Documented (limit : Nat) (content : Content) : Prop :=
  ∃ text, Listing.ofString limit text = .ok content.listing

/-- What some text says is sound. -/
theorem Content.Documented.sound {limit : Nat} {content : Content} (h : content.Documented limit) :
    content.listing.Sound limit := by
  obtain ⟨text, hText⟩ := h
  exact Listing.sound_of_ok hText

namespace Session

variable {σ : Type} [NodeStore σ]

/-- The sessions that come about by opening snapshots anywhere and by calls on those that are there.
The store may change between the calls. -/
inductive Arises : Session σ → Prop where
  | start (store : σ) (config : Config) : Arises { store, config }
  | add {session : Session σ} (path : String) (revision : Revision) (prior : Arises session) :
      Arises (session.add path revision).2
  | outside {session : Session σ} (store : σ) (prior : Arises session) :
      Arises { session with store }
  | call {session : Session σ} {node : SnapshotId} (hNode : node.index < session.snapshots.size)
      (call : Call) (prior : Arises session) : Arises (session.call node call).2

omit [NodeStore σ] in
/-- Everything that is kept was read. -/
def Documented (session : Session σ) : Prop :=
  ∀ (index : Nat) (snapshot : Snapshot), session.snapshots[index]? = some snapshot →
    ∀ content, snapshot.load = .loaded content → content.Documented session.config.childCacheLimit

/-- A snapshot that gets loaded keeps what a text says. -/
theorem GetsLoaded.documented {session loaded : Session σ} {node : SnapshotId} {content : Content}
    (h : session.GetsLoaded node content loaded) :
    content.Documented session.config.childCacheLimit := by
  obtain ⟨text, -, hListing⟩ := exists_of_bind_eq_ok h.attempt
  exact ⟨text, eq_ok_of_mapError_eq_ok hListing⟩

omit [NodeStore σ] in
/-- Questions leave what is kept documented, if the snapshot that asks is. -/
theorem Documented.asks {before after : Session σ} {node : SnapshotId} {sent : List Query}
    (h : before.Documented) (hAsks : Asks node before after sent)
    (hNode : node.index < before.snapshots.size)
    (hCalled : ∀ content, (after.snapshot node).load = .loaded content →
      content.Documented before.config.childCacheLimit) : after.Documented := by
  rw [Documented, hAsks.grows.config]
  refine hAsks.forall_snapshot hNode h ?_ hCalled
  intro snapshot hUnloaded content hLoad
  cases hUnloaded.symm.trans hLoad

omit [NodeStore σ] in
theorem Documented.add {session : Session σ} (h : session.Documented) (path : String)
    (revision : Revision) : (session.add path revision).2.Documented := by
  intro index snapshot hSnapshot content hLoad
  rw [Session.add, Array.getElem?_push] at hSnapshot
  split at hSnapshot
  · cases hSnapshot
    cases hLoad
  · exact h index snapshot hSnapshot content hLoad

/-- Every call leaves what is kept documented. -/
theorem Documented.call {session : Session σ} (h : session.Documented) {node : SnapshotId}
    (hNode : node.index < session.snapshots.size) (call : Call) :
    (session.call node call).2.Documented := by
  have hGoes := session.call_goes hNode call
  generalize (session.call node call).1 = answer at hGoes
  generalize (session.call node call).2 = after at hGoes
  cases hGoes with
  | refused hValid => exact h
  | failed hValid hLoad attempt =>
      apply h.asks attempt.asks hNode
      rw [attempt.snapshot]
      exact nofun
  | first hValid hLoad attempt rest =>
      apply h.asks (attempt.asks.trans rest.asks hNode) hNode
      rw [rest.snapshot, attempt.snapshot]
      rintro content ⟨⟩
      exact attempt.documented
  | later hValid hLoad rest =>
      apply h.asks rest.asks hNode
      rw [rest.snapshot]
      exact h _ _ (getElem?_eq_snapshot hNode)

/-- What is kept right after loading was read as well. -/
theorem Documented.content {session loaded : Session σ} (h : session.Documented)
    {node : SnapshotId} (hNode : node.index < session.snapshots.size) {content : Content}
    (hContent : session.content node = (.ok content, loaded)) :
    content.Documented session.config.childCacheLimit := by
  rcases content_eq_ok hNode hContent with ⟨hLoaded, rfl⟩ | hLoads
  · exact h _ _ (getElem?_eq_snapshot hNode) content hLoaded
  · exact hLoads.documented

/-! ### Runs -/

/-- Sessions that come about are coherent. -/
theorem Arises.coherent {session : Session σ} (h : session.Arises) : session.Coherent := by
  induction h with
  | start store config => exact nofun
  | add path revision prior ih => exact ih.add path revision
  | outside store prior ih => exact ih.step (.of_eq rfl rfl) fun _ _ => Or.inl
  | call hNode call prior ih => exact ih.call hNode call

/-- In sessions that come about, everything that is kept was read. -/
theorem Arises.documented {session : Session σ} (h : session.Arises) : session.Documented := by
  induction h with
  | start store config => exact nofun
  | add path revision prior ih => exact ih.add path revision
  | outside store prior ih => exact ih
  | call hNode call prior ih => exact ih.call hNode call

/-- What a snapshot keeps, in any session, is sound. -/
theorem Arises.sound {session loaded : Session σ} (h : session.Arises) {node : SnapshotId}
    (hNode : node.index < session.snapshots.size) {content : Content}
    (hContent : session.content node = (.ok content, loaded)) :
    content.listing.Sound session.config.childCacheLimit :=
  (h.documented.content hNode hContent).sound

end Session

end PinnedTree
