import PinnedTree.Proofs.Json.Tokens
import PinnedTree.Proofs.Path
import PinnedTree.Proofs.Session.Documented
import PinnedTree.Store.Scripted

/-! Children that are listed and children that are looked up. A listing can give a child any text
for its name, and the snapshot of the child is put where that text leads. Only names are looked up,
so that a child is found again, one level down, exactly when it has one. -/
namespace PinnedTree

/-- Each child that is kept is found by its own name, if no other has the same. -/
theorem Content.child?_of_mem {content : Content}
    (hDistinct : (content.children.map ChildEntry.name).Nodup) {entry : ChildEntry}
    (h : entry ∈ content.children) : content.child? entry.name = some entry.node := by
  cases hFound : content.child? entry.name with
  | none => exact absurd (List.mem_map_of_mem h) (Content.child?_eq_none hFound)
  | some child =>
      have hSame := List.inj_on_of_nodup_map hDistinct (Content.child?_eq_some hFound) h rfl
      exact congrArg (fun found => some found.node) hSame

namespace Session

variable {σ : Type} [NodeStore σ]

/-- A name of a kept child leads to its snapshot, and nothing is asked for. -/
theorem child_of_kept {session loaded : Session σ} {node child : SnapshotId} {content : Content}
    (hContent : session.content node = (.ok content, loaded)) {name : String}
    (hName : Path.IsName name) (hKept : content.child? name = some child) :
    session.child node name = (.ok (some child), loaded) := by
  simp only [Session.child, Path.checkName_eq_ok_iff.mpr hName, hContent, hKept]

end Session

/-- Of the children that a snapshot at a path keeps, exactly those with a name can be looked up, and
exactly those are one level below the path. All of them are at different paths. -/
theorem listed_child_found_iff {σ : Type} [NodeStore σ] {session loaded : Session σ}
    (hArises : session.Arises) {node : SnapshotId} (hNode : node.index < session.snapshots.size)
    {content : Content} (hContent : session.content node = (.ok content, loaded))
    (hPath : Path.IsPath (session.snapshot node).path) {entry : ChildEntry}
    (hEntry : entry ∈ content.children) :
    (session.child node entry.name = (.ok (some entry.node), loaded) ↔ Path.IsName entry.name) ∧
    (Path.OneBelow (session.snapshot node).path (loaded.snapshot entry.node).path ↔
      Path.IsName entry.name) ∧
    (¬Path.IsName entry.name →
      session.child node entry.name = (.error (.badName (.invalidName entry.name)), session)) ∧
    ∀ other ∈ content.children, other ≠ entry →
      (loaded.snapshot other.node).path ≠ (loaded.snapshot entry.node).path := by
  obtain ⟨-, -, -, hShows⟩ := hArises.coherent.content hNode hContent
  have hDistinct : (content.children.map ChildEntry.name).Nodup :=
    (hArises.sound hNode hContent).distinct
  have hChild (child : ChildEntry) (hMem : child ∈ content.children) :
      (loaded.snapshot child.node).path = Path.child (session.snapshot node).path child.name :=
    (hShows child hMem).snapshot.1
  refine ⟨⟨?_, ?_⟩, ?_, ?_, ?_⟩
  · intro hFound
    apply Classical.byContradiction
    intro hName
    rw [session.child_of_not_name node hName] at hFound
    cases hFound
  · intro hName
    exact Session.child_of_kept hContent hName (Content.child?_of_mem hDistinct hEntry)
  · rw [hChild entry hEntry]
    exact Path.oneBelow_child_iff hPath
  · exact session.child_of_not_name node
  · intro other hOther hNe hSame
    rw [hChild other hOther, hChild entry hEntry] at hSame
    exact hNe (List.inj_on_of_nodup_map hDistinct hOther hEntry (Path.child_injective _ hSame))

/-! ### A child that is called like a path -/

def nameAndPath : Json :=
  .object [("a", .object []), ("a/b", .object [])]

/-- A listing of a text that is no name is accepted. -/
theorem Listing.ofString_nameAndPath :
    ofString 1000 nameAndPath.text =
      .ok { properties := [], children := ["a", "a/b"], childCount := 2 } := by
  rw [ofString, nameAndPath, Json.ofString_text]
  rfl

def ScriptedStore.misnaming : ScriptedStore where
  latest := ⟨"r1"⟩
  entries := [⟨Path.root, none, [.ok nameAndPath.text]⟩]
  existence := []

def Session.misnamed : Session ScriptedStore :=
  (Session.add { store := .misnaming, config := {} } Path.root ⟨"r1"⟩).2

/-- The root of the misnaming store keeps a child for that text. -/
theorem Session.content_misnamed :
    ∃ content loaded, Session.misnamed.content ⟨0⟩ = (.ok content, loaded) ∧
      content.children = [⟨"a", ⟨1⟩⟩, ⟨"a/b", ⟨2⟩⟩] := by
  have hAttempt : Session.misnamed.loadAnswer ⟨0⟩ =
      .ok { properties := [], children := ["a", "a/b"], childCount := 2 } :=
    congrArg (Except.mapError ReadError.listing) Listing.ofString_nameAndPath
  obtain ⟨event, hLoaded⟩ := materialize_of_ok hAttempt
  exact ⟨_, _, hLoaded, rfl⟩

/-- The child with a name is found where it was put. -/
theorem listed_child_found_iff_sample :
    ∃ loaded, Session.misnamed.child ⟨0⟩ "a" = (.ok (some ⟨1⟩), loaded) ∧
      Path.OneBelow "/" (loaded.snapshot ⟨1⟩).path := by
  obtain ⟨content, loaded, hContent, hKept⟩ := Session.content_misnamed
  have hArises : Session.misnamed.Arises :=
    .add Path.root ⟨"r1"⟩ (.start ScriptedStore.misnaming {})
  have hEntry : ⟨"a", ⟨1⟩⟩ ∈ content.children := hKept ▸ List.mem_cons_self
  obtain ⟨hFound, hBelow, -, -⟩ :=
    listed_child_found_iff hArises Nat.zero_lt_one hContent (by decide) hEntry
  exact ⟨loaded, hFound.mpr (by decide), hBelow.mpr (by decide)⟩

/-- The other one is kept as well, but it is not found, and its path has two more names. -/
theorem listed_child_refused :
    Path.IsPath (Session.misnamed.snapshot ⟨0⟩).path ∧
      ∃ content loaded, Session.misnamed.content ⟨0⟩ = (.ok content, loaded) ∧
        ⟨"a/b", ⟨2⟩⟩ ∈ content.children ∧
        (loaded.child ⟨0⟩ "a/b").1 = .error (.badName (.invalidName "a/b")) ∧
        Path.segments (Path.child "/" "a/b") = ["a", "b"] := by
  obtain ⟨content, loaded, hContent, hKept⟩ := Session.content_misnamed
  refine ⟨by decide, content, loaded, hContent, ?_, ?_, by decide⟩
  · rw [hKept]
    exact List.mem_cons_of_mem _ List.mem_cons_self
  · exact congrArg Prod.fst (loaded.child_of_not_name ⟨0⟩ (by decide))

end PinnedTree
