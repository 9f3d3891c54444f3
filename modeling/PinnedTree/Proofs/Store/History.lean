import PinnedTree.Proofs.Json.Characters
import PinnedTree.Proofs.Number.Spelling
import PinnedTree.Proofs.Store.Memory

/-! The history of a store in memory. A revision is derived from a text that names the revision
before it, so no text is hashed twice, and every commit has a revision of its own as long as
different texts have different ids. -/
namespace PinnedTree

open Text

/-! ### The texts of revisions -/

namespace Blake3

theorem length_shortHex (text : String) : (shortHex text).length = 16 := rfl

/-- An id is made of hexadecimal digits only. -/
theorem isHexDigit_of_mem_shortHex {text : String} {c : Char} (h : c ∈ shortHex text) :
    ∃ value, Json.IsHexDigit value c := by
  obtain ⟨byte, -, hDigit⟩ := List.mem_flatMap.mp h
  have hSmall : byte.toNat < 256 := byte.toNat_lt
  rcases List.mem_cons.mp hDigit with hHigh | hLow
  · exact ⟨byte.toNat / 16, by omega, .inl hHigh⟩
  · exact ⟨byte.toNat % 16, by omega, .inl (List.mem_singleton.mp hLow)⟩

end Blake3

namespace Revision

/-- A revision that was derived from a commit. -/
def Minted (revision : Revision) : Prop :=
  ∃ before root, revision = mint before root

/-- How revisions are spelled: an `r` and sixteen hexadecimal digits. -/
def Spelled (revision : Revision) : Prop :=
  ∃ digits : List Char, digits.length = 16 ∧ (∀ c ∈ digits, ∃ value, Json.IsHexDigit value c) ∧
    revision.token.toList = 'r' :: digits

/-- A revision that was derived from a commit is an `r` and hexadecimal digits. -/
theorem Minted.spelled {revision : Revision} (h : revision.Minted) : revision.Spelled := by
  obtain ⟨before, root, rfl⟩ := h
  exact ⟨_, Blake3.length_shortHex _, fun c => Blake3.isHexDigit_of_mem_shortHex,
    String.toList_ofList⟩

theorem digitChar_ne_colon : ∀ digit < 16,
    Nat.digitChar digit ≠ ':' ∧ (Nat.digitChar digit).toUpper ≠ ':' := by
  decide

/-- There is no colon in such a revision. -/
theorem Spelled.toList_token {revision : Revision} (h : revision.Spelled) :
    ∃ id, revision.token.toList = 'r' :: id ∧ ':' ∉ id := by
  obtain ⟨digits, -, hDigits, hToken⟩ := h
  refine ⟨digits, hToken, fun hColon => ?_⟩
  obtain ⟨value, hValue, hLower | hUpper⟩ := hDigits ':' hColon
  · exact (digitChar_ne_colon value hValue).1 hLower.symm
  · exact (digitChar_ne_colon value hValue).2 hUpper.symm

/-- Equal revisions have equal ids. -/
theorem shortHex_eq_of_mint_eq {before other : Option Revision} {root tree : Tree}
    (h : mint before root = mint other tree) :
    Blake3.shortHex (Commit.text before root) = Blake3.shortHex (Commit.text other tree) := by
  have hToken := congrArg (fun revision => revision.token.toList) h
  simp only [mint, String.toList_ofList] at hToken
  exact (List.cons.inj hToken).2

end Revision

namespace Commit

def beforeText (before : Option Revision) : List Char :=
  before.elim [] fun revision => revision.token.toList

/-- A text that is hashed is the tag, the revision before, a colon and the tree. -/
theorem toList_text (before : Option Revision) (root : Tree) :
    (text before root).toList =
      "revtree-revision-v1:".toList ++ (beforeText before ++ ':' :: root.toJson.text.toList) := by
  have hBefore : (before.elim "" Revision.token).toList = beforeText before := by
    cases before <;> rfl
  have hColon : ":".toList = [':'] := rfl
  unfold text
  generalize root.toJson.text = json
  rw [String.toList_append, String.toList_append, String.toList_append, hBefore, hColon,
    List.append_assoc, List.append_assoc]
  rfl

theorem beforeText_ne_colon {before : Option Revision} (h : ∀ revision ∈ before, revision.Spelled) :
    ∀ c ∈ beforeText before, decide (c ≠ ':') = true := by
  intro c hc
  cases before with
  | none => cases hc
  | some revision =>
      obtain ⟨id, hToken, hColon⟩ := (h revision rfl).toList_token
      rw [beforeText, Option.elim_some, hToken] at hc
      apply decide_eq_true
      rintro rfl
      rcases List.mem_cons.mp hc with hFirst | hId
      · cases hFirst
      · exact hColon hId

/-- The text of a revision is not empty, unlike the text where there is none. -/
theorem beforeText_injective {before other : Option Revision}
    (hBefore : ∀ revision ∈ before, revision.Spelled)
    (hOther : ∀ revision ∈ other, revision.Spelled)
    (h : beforeText before = beforeText other) : before = other := by
  cases before with
  | none =>
      cases other with
      | none => rfl
      | some revision =>
          obtain ⟨id, hToken, -⟩ := (hOther revision rfl).toList_token
          rw [beforeText, beforeText, Option.elim_none, Option.elim_some, hToken] at h
          cases h
  | some left =>
      cases other with
      | none =>
          obtain ⟨id, hToken, -⟩ := (hBefore left rfl).toList_token
          rw [beforeText, beforeText, Option.elim_none, Option.elim_some, hToken] at h
          cases h
      | some right =>
          have hToken : left.token = right.token := String.toList_inj.mp h
          exact congrArg (fun token => some (Revision.mk token)) hToken

/-- The first colon behind the tag ends the revision before, so a text says which one that is. -/
theorem text_injective {before other : Option Revision} {root tree : Tree}
    (hBefore : ∀ revision ∈ before, revision.Spelled)
    (hOther : ∀ revision ∈ other, revision.Spelled)
    (h : text before root = text other tree) :
    before = other ∧ root.toJson.text = tree.toJson.text := by
  have hRest : beforeText before ++ ':' :: root.toJson.text.toList =
      beforeText other ++ ':' :: tree.toJson.text.toList := by
    have hLists := congrArg String.toList h
    rw [toList_text, toList_text] at hLists
    exact List.append_cancel_left hLists
  have hStop (rest : List Char) : StopsAt (fun c => decide (c ≠ ':')) (':' :: rest) :=
    stopsAt_cons (by decide) rest
  have hName : beforeText before = beforeText other := by
    have hTaken := congrArg (List.takeWhile fun c => decide (c ≠ ':')) hRest
    rw [takeWhile_append (beforeText_ne_colon hBefore) (hStop _),
      takeWhile_append (beforeText_ne_colon hOther) (hStop _)] at hTaken
    exact hTaken
  rw [hName] at hRest
  have hTree := (List.cons.inj (List.append_cancel_left hRest)).2
  exact ⟨beforeText_injective hBefore hOther hName, String.toList_inj.mp hTree⟩

end Commit

namespace MemoryStore

/-! ### Runs of commits -/

/-- Commits trees one after the other and answers their revisions in order. -/
def commitAll (store : MemoryStore) : List Tree → List Revision × MemoryStore
  | [] => ([], store)
  | tree :: trees =>
    (commitAll (store.commit tree).2 trees).map ((store.commit tree).1 :: ·) id

def mintedTexts (store : MemoryStore) : List Tree → List String
  | [] => []
  | tree :: trees => Commit.text (some store.head) tree :: mintedTexts (store.commit tree).2 trees

/-- The texts that are hashed for a store that starts out fresh, with that of the empty root. -/
def hashedTexts (trees : List Tree) : List String :=
  Commit.text none .empty :: fresh.mintedTexts trees

/-- Different texts have different ids. -/
def DistinctIds (texts : List String) : Prop :=
  ∀ text ∈ texts, ∀ other ∈ texts, Blake3.shortHex text = Blake3.shortHex other → text = other

instance (texts : List String) : Decidable (DistinctIds texts) :=
  inferInstanceAs (Decidable (∀ text ∈ texts, ∀ other ∈ texts, _ → _))

def ofPairs (pairs : List (Revision × Tree)) : List Commit :=
  pairs.map fun (revision, root) => ⟨revision, root⟩

def history (store : MemoryStore) : List Revision :=
  (store.commits.map Commit.revision).reverse

/-- Trees in two parts are committed one part after the other. -/
theorem commitAll_append (store : MemoryStore) (front rest : List Tree) :
    store.commitAll (front ++ rest) =
      ((store.commitAll front).2.commitAll rest).map ((store.commitAll front).1 ++ ·) id := by
  induction front generalizing store with
  | nil => rfl
  | cons tree front ih =>
      rw [List.cons_append, commitAll, ih]
      rfl

/-- Every tree gets a revision. -/
theorem length_commitAll (store : MemoryStore) (trees : List Tree) :
    (store.commitAll trees).1.length = trees.length := by
  induction trees generalizing store with
  | nil => rfl
  | cons tree trees ih => exact congrArg (· + 1) (ih (store.commit tree).2)

/-- The texts for trees in two parts are those of one part and then those of the other. -/
theorem mintedTexts_append (store : MemoryStore) (front rest : List Tree) :
    store.mintedTexts (front ++ rest) =
      store.mintedTexts front ++ (store.commitAll front).2.mintedTexts rest := by
  induction front generalizing store with
  | nil => rfl
  | cons tree front ih =>
      rw [List.cons_append, mintedTexts, ih]
      rfl

/-- Among fewer texts, ids still differ. -/
theorem DistinctIds.of_append {front rest : List String} (h : DistinctIds (front ++ rest)) :
    DistinctIds front :=
  fun text hText other hOther =>
    h text (List.mem_append_left rest hText) other (List.mem_append_left rest hOther)

/-! ### Where revisions come from -/

/-- All revisions differ, and each was derived from a text that was hashed. The revision that the
text names is not the latest, since that one has not been committed on yet. -/
structure Traced (texts : List String) (store : MemoryStore) : Prop where
  distinct : (store.commits.map Commit.revision).Nodup
  minted : ∀ commit ∈ store.commits, ∃ before,
    commit.revision = Revision.mint before commit.root ∧ Commit.text before commit.root ∈ texts ∧
      ∀ revision ∈ before, revision ∈ store.earlier.map Commit.revision

/-- A fresh store is traced to the text of its empty root. -/
theorem traced_fresh : Traced [Commit.text none .empty] fresh := by
  refine ⟨List.nodup_singleton _, ?_⟩
  intro commit hCommit
  rw [List.mem_singleton.mp hCommit]
  exact ⟨none, rfl, List.mem_singleton_self _, nofun⟩

namespace Traced

variable {texts : List String} {store : MemoryStore}

/-- Every revision was derived from a commit. -/
theorem minted_of_mem (h : Traced texts store) {revision : Revision}
    (hRevision : revision ∈ store.commits.map Commit.revision) : revision.Minted := by
  obtain ⟨commit, hCommit, rfl⟩ := List.mem_map.mp hRevision
  obtain ⟨before, hMint, -⟩ := h.minted commit hCommit
  exact ⟨before, commit.root, hMint⟩

/-- The text of the next commit names the latest revision, so it was not hashed before. -/
theorem mint_notMem (h : Traced texts store) {root : Tree}
    (hIds : DistinctIds (texts ++ [Commit.text (some store.head) root])) :
    Revision.mint (some store.head) root ∉ store.commits.map Commit.revision := by
  intro hKnown
  obtain ⟨commit, hCommit, hSame⟩ := List.mem_map.mp hKnown
  obtain ⟨before, hMint, hHashed, hEarlier⟩ := h.minted commit hCommit
  have hTexts : Commit.text before commit.root = Commit.text (some store.head) root :=
    hIds _ (List.mem_append_left _ hHashed) _ (List.mem_append_right _ (List.mem_singleton_self _))
      (Revision.shortHex_eq_of_mint_eq (hMint.symm.trans hSame))
  have hBefore : before = some store.head := by
    refine (Commit.text_injective ?_ ?_ hTexts).1
    · exact fun revision hRevision =>
        (h.minted_of_mem (List.mem_cons_of_mem _ (hEarlier revision hRevision))).spelled
    · rintro revision ⟨⟩
      exact (h.minted_of_mem List.mem_cons_self).spelled
  exact (List.nodup_cons.mp h.distinct).1 (hEarlier store.head hBefore)

/-- A commit whose id is new is put before the others. -/
theorem commit_eq (h : Traced texts store) {root : Tree}
    (hIds : DistinctIds (texts ++ [Commit.text (some store.head) root])) :
    store.commit root = (Revision.mint (some store.head) root,
      ⟨⟨Revision.mint (some store.head) root, root⟩, store.commits⟩) := by
  have hNew : store.root? (Revision.mint (some store.head) root) = none := by
    rw [root?, Option.map_eq_none_iff, List.find?_eq_none]
    intro commit hCommit hSame
    exact h.mint_notMem hIds (List.mem_map.mpr ⟨commit, hCommit, of_decide_eq_true hSame⟩)
  simp only [commit, hNew]

/-- A commit whose id is new leaves the store traced, to one more text. -/
theorem commit (h : Traced texts store) {root : Tree}
    (hIds : DistinctIds (texts ++ [Commit.text (some store.head) root])) :
    Traced (texts ++ [Commit.text (some store.head) root]) (store.commit root).2 := by
  rw [h.commit_eq hIds]
  refine ⟨List.nodup_cons.mpr ⟨h.mint_notMem hIds, h.distinct⟩, ?_⟩
  intro commit hCommit
  rcases List.mem_cons.mp hCommit with rfl | hOld
  · refine ⟨some store.head, rfl, List.mem_append_right _ (List.mem_singleton_self _), ?_⟩
    rintro revision ⟨⟩
    exact List.mem_cons_self
  · obtain ⟨before, hMint, hHashed, hEarlier⟩ := h.minted commit hOld
    exact ⟨before, hMint, List.mem_append_left _ hHashed,
      fun revision hRevision => List.mem_cons_of_mem _ (hEarlier revision hRevision)⟩

/-- A run adds one commit for each of its trees, with the revision that was answered for it. -/
theorem commitAll {trees : List Tree} (h : Traced texts store)
    (hIds : DistinctIds (texts ++ store.mintedTexts trees)) :
    Traced (texts ++ store.mintedTexts trees) (store.commitAll trees).2 ∧
      (store.commitAll trees).2.commits =
        (ofPairs ((store.commitAll trees).1.zip trees)).reverse ++ store.commits := by
  induction trees generalizing texts store with
  | nil => exact ⟨(List.append_nil texts).symm ▸ h, rfl⟩
  | cons tree trees ih =>
      have hTexts : texts ++ store.mintedTexts (tree :: trees) =
          (texts ++ [Commit.text (some store.head) tree]) ++
            (store.commit tree).2.mintedTexts trees := by
        rw [mintedTexts, List.append_assoc, List.singleton_append]
      rw [hTexts] at hIds ⊢
      obtain ⟨hTraced, hCommits⟩ := ih (h.commit hIds.of_append) hIds
      refine ⟨hTraced, hCommits.trans ?_⟩
      simp only [MemoryStore.commitAll, h.commit_eq hIds.of_append, Prod.map_fst,
        List.zip_cons_cons, ofPairs, List.map_cons, List.reverse_cons, List.append_assoc,
        List.singleton_append]
      rfl

/-- Every revision that is known has its own tree. -/
theorem root_eq (h : Traced texts store) {commit : Commit} (hCommit : commit ∈ store.commits) :
    store.root commit.revision = .ok commit.root := by
  have hFound : store.commits.find? (fun other => other.revision = commit.revision) =
      some commit := by
    obtain ⟨front, rest, hSplit⟩ := List.append_of_mem hCommit
    have hDistinct := h.distinct
    rw [hSplit, List.map_append, List.map_cons, List.nodup_append] at hDistinct
    rw [hSplit, List.find?_append, List.find?_eq_none.mpr, List.find?_cons_of_pos (by simp)]
    · rfl
    · intro other hOther hSame
      exact hDistinct.2.2 _ (List.mem_map_of_mem hOther) _ List.mem_cons_self
        (of_decide_eq_true hSame)
  rw [root, root?, hFound]
  rfl

end Traced

/-- The commits of a run on a fresh store, the empty root first. -/
theorem commits_commitAll {trees : List Tree} (hIds : DistinctIds (hashedTexts trees)) :
    Traced (hashedTexts trees) (fresh.commitAll trees).2 ∧
      (fresh.commitAll trees).2.commits.reverse =
        ofPairs ((fresh.head, .empty) :: (fresh.commitAll trees).1.zip trees) := by
  obtain ⟨hTraced, hCommits⟩ := traced_fresh.commitAll hIds
  refine ⟨hTraced, ?_⟩
  rw [hCommits, List.reverse_append, List.reverse_reverse]
  rfl

/-- If ids differ, the history behind commits is the first revision and then theirs, in order. -/
theorem history_commitAll {trees : List Tree} (hIds : DistinctIds (hashedTexts trees)) :
    (fresh.commitAll trees).2.history = fresh.head :: (fresh.commitAll trees).1 := by
  rw [history, ← List.map_reverse, (commits_commitAll hIds).2, ofPairs, List.map_map]
  exact congrArg (fresh.head :: ·) (List.map_fst_zip (Nat.le_of_eq (length_commitAll fresh trees)))

theorem DistinctIds.isPrefix {front trees : List Tree} (h : DistinctIds (hashedTexts trees))
    (hPrefix : front <+: trees) : DistinctIds (hashedTexts front) := by
  obtain ⟨rest, rfl⟩ := hPrefix
  rw [hashedTexts, mintedTexts_append, ← List.cons_append] at h
  exact h.of_append

end MemoryStore

open MemoryStore in
/-- Every commit has its own revision. If different texts of a run on a fresh store have different
ids, no revision is answered twice and none is the first one. At every point of the run the latest
revision is the last that was answered, the history has one entry for each commit besides the first,
and every revision yields the tree that was committed under it. -/
theorem commits_distinct {trees : List Tree} (hIds : DistinctIds (hashedTexts trees)) :
    (fresh.head :: (fresh.commitAll trees).1).Nodup ∧
      ∀ front, front <+: trees →
        (fresh.commitAll front).1 = (fresh.commitAll trees).1.take front.length ∧
        (fresh.commitAll front).2.head = (fresh.commitAll front).1.getLastD fresh.head ∧
        (fresh.commitAll front).2.history = fresh.head :: (fresh.commitAll front).1 ∧
        (fresh.commitAll front).2.commits.length = front.length + 1 ∧
        ∀ pair ∈ (fresh.head, Tree.empty) :: (fresh.commitAll front).1.zip front,
          (fresh.commitAll front).2.root pair.1 = .ok pair.2 := by
  refine ⟨?_, ?_⟩
  · rw [← history_commitAll hIds, history, List.nodup_reverse]
    exact (commits_commitAll hIds).1.distinct
  · intro front hPrefix
    have hFront := hIds.isPrefix hPrefix
    have hHistory := history_commitAll hFront
    obtain ⟨hTraced, hCommits⟩ := commits_commitAll hFront
    refine ⟨?_, ?_, hHistory, ?_, ?_⟩
    · obtain ⟨rest, rfl⟩ := hPrefix
      rw [commitAll_append, Prod.map_fst, ← length_commitAll fresh front, List.take_left]
    · have hLast := congrArg List.getLast? hHistory
      rw [history, List.getLast?_reverse, List.getLast?_cons, ← List.getLastD_eq_getLast?] at hLast
      exact Option.some.inj hLast
    · have hLength := congrArg List.length hHistory
      rw [history, List.length_reverse, List.length_map, List.length_cons,
        length_commitAll] at hLength
      exact hLength
    · intro pair hPair
      have hCommit : ⟨pair.1, pair.2⟩ ∈ (fresh.commitAll front).2.commits := by
        rw [← List.mem_reverse, hCommits]
        exact List.mem_map_of_mem hPair
      exact hTraced.root_eq hCommit

/-- The empty root is committed twice on a fresh store, which holds it already. -/
theorem commits_distinct_sample :
    ∃ first second, (MemoryStore.fresh.commitAll [.empty, .empty]).1 = [first, second] ∧
      [MemoryStore.fresh.head, first, second].Nodup :=
  ⟨_, _, rfl, (@commits_distinct [.empty, .empty] (by decide +kernel)).1⟩

end PinnedTree
