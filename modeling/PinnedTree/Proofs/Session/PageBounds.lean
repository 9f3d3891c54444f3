import PinnedTree.Proofs.Json.Tokens
import PinnedTree.Proofs.Session.Documented
import PinnedTree.Store.Scripted

/-! How many children a page can have. Whatever the store answers, a page starts with what is kept
of it and goes on with one slice, which is refused when it is longer than what is missing. Nothing
compares it with the number of children that the snapshot counts. -/
namespace PinnedTree

namespace PagePlan

variable (config : Config) (content : Content) (offset wanted : Nat)

/-- No more is kept of a page than it wants, so the difference is what is missing. -/
theorem length_kept_le : (PagePlan.of config content offset wanted).kept.length ≤ wanted :=
  List.length_take_le _ _

variable {config content offset wanted}

/-- A page that lacks something has all that is kept from its start on. -/
theorem length_kept_of_missing
    (h : 0 < wanted - (PagePlan.of config content offset wanted).kept.length) :
    (PagePlan.of config content offset wanted).kept.length = content.children.length - offset := by
  rw [PagePlan.of, List.length_take, List.length_drop] at h ⊢
  omega

/-- A page has no more kept children than there are from its offset on. -/
theorem length_kept_le_supplied :
    (PagePlan.of config content offset wanted).kept.length ≤ content.children.length - offset := by
  rw [PagePlan.of, List.length_take, List.length_drop]
  exact Nat.min_le_right _ _

/-- A window starts behind what is kept, and asks for what is missing. -/
theorem fetch_eq_some_iff {start requested : Nat} :
    (PagePlan.of config content offset wanted).fetch = some (start, requested) ↔
      start = max offset content.children.length ∧
        requested = wanted - (PagePlan.of config content offset wanted).kept.length ∧
        0 < requested ∧ config.childCacheLimit < content.childCount := by
  simp only [PagePlan.of]
  constructor
  · intro h
    split at h
    · rename_i hAsks
      cases h
      exact ⟨rfl, rfl, hAsks⟩
    · cases h
  · rintro ⟨rfl, rfl, hAsks⟩
    exact if_pos hAsks

end PagePlan

namespace Session

variable {σ : Type} [NodeStore σ]

/-! ### The ways in which a page goes -/

def windowAnswer (session : Session σ) (node : SnapshotId) (offset requested : Nat) :
    Except ReadError String :=
  (session.askList node (windowRequest (session.snapshot node) offset requested)).1

/-- What becomes of that answer. Only a slice that is not too long becomes children. -/
inductive Fetched (session : Session σ) (node : SnapshotId) (offset requested : Nat) :
    Except ReadError (List ChildEntry) → Prop where
  | unanswered {error : ReadError}
      (hAnswer : session.windowAnswer node offset requested = .error error) :
      Fetched session node offset requested (.error error)
  | unreadable {text : String} {error : ListingError}
      (hAnswer : session.windowAnswer node offset requested = .ok text)
      (hSlice : Slice.ofString text = .error error) :
      Fetched session node offset requested (.error (.listing error))
  | overlong {text : String} {names : List String}
      (hAnswer : session.windowAnswer node offset requested = .ok text)
      (hSlice : Slice.ofString text = .ok names) (hMany : requested < names.length) :
      Fetched session node offset requested (.error (.listing (.malformed
        ⟨Text.byteLength text.toList, .moreThanRequested names.length requested⟩)))
  | slice {text : String} {children : List ChildEntry}
      (hAnswer : session.windowAnswer node offset requested = .ok text)
      (hSlice : Slice.ofString text = .ok (children.map ChildEntry.name))
      (hFew : children.length ≤ requested) :
      Fetched session node offset requested (.ok children)

/-- A window is answered by the children of a slice that is not too long, or by what is wrong with
it. -/
theorem fetched (session : Session σ) (node : SnapshotId) (offset requested : Nat) :
    session.Fetched node offset requested (session.fetch node offset requested).1 := by
  simp only [fetch]
  split
  · rename_i error asked hAsked
    exact .unanswered (congrArg Prod.fst hAsked)
  · rename_i text asked hAsked
    have hAnswer : session.windowAnswer node offset requested = .ok text :=
      congrArg Prod.fst hAsked
    split
    · rename_i error hSlice
      exact .unreadable hAnswer hSlice
    · rename_i names hSlice
      split
      · rename_i hMany
        exact .overlong hAnswer hSlice hMany
      · rename_i hFew
        have hNames := addChildren_names (session.snapshot node).path
          (session.snapshot node).revision names asked
        refine .slice hAnswer (hNames.symm ▸ hSlice) ?_
        rw [← List.length_map (f := ChildEntry.name), hNames]
        exact Nat.le_of_not_lt hFew

/-- What is fetched has been in a slice that is not too long. -/
theorem Fetched.of_ok {session : Session σ} {node : SnapshotId} {offset requested : Nat}
    {children : List ChildEntry} (h : session.Fetched node offset requested (.ok children)) :
    ∃ text, session.windowAnswer node offset requested = .ok text ∧
      Slice.ofString text = .ok (children.map ChildEntry.name) ∧ children.length ≤ requested := by
  cases h with
  | slice hAnswer hSlice hFew => exact ⟨_, hAnswer, hSlice, hFew⟩

/-- Of a slice only the length matters. -/
theorem Fetched.of_slice {session : Session σ} {node : SnapshotId} {offset requested : Nat}
    {answer : Except ReadError (List ChildEntry)}
    (h : session.Fetched node offset requested answer) {text : String} {names : List String}
    (hText : session.windowAnswer node offset requested = .ok text)
    (hSlice : Slice.ofString text = .ok names) :
    (requested < names.length → answer = .error (.listing (.malformed
        ⟨Text.byteLength text.toList, .moreThanRequested names.length requested⟩))) ∧
      (names.length ≤ requested →
        ∃ children, answer = .ok children ∧ children.map ChildEntry.name = names) := by
  cases h with
  | unanswered hAnswer => cases hText.symm.trans hAnswer
  | unreadable hAnswer hNames =>
      cases hText.symm.trans hAnswer
      cases hSlice.symm.trans hNames
  | overlong hAnswer hNames hMany =>
      cases hText.symm.trans hAnswer
      cases hSlice.symm.trans hNames
      exact ⟨fun _ => rfl, fun hFew => absurd hMany (Nat.not_lt.mpr hFew)⟩
  | slice hAnswer hNames hFew =>
      cases hText.symm.trans hAnswer
      cases hSlice.symm.trans hNames
      rw [List.length_map]
      exact ⟨fun hMany => absurd hMany (Nat.not_lt.mpr hFew), fun _ => ⟨_, rfl, rfl⟩⟩

/-- Fetching a window asks the store one question. -/
theorem queries_fetch (session : Session σ) (node : SnapshotId) (offset requested : Nat) :
    (session.fetch node offset requested).2.queries.toList = session.queries.toList ++
      [.list (windowRequest (session.snapshot node) offset requested)
        (session.snapshot node).load] := by
  rcases session.fetch_session node offset requested with hSame | ⟨names, event, hAdded⟩
  · rw [hSame]
    exact Array.toList_push
  · rw [hAdded]
    exact Array.toList_push

/-- What a snapshot with this content has of a page, and what it lacks. -/
def pagePlan (session : Session σ) (content : Content) (offset : Nat) (count : Option Nat) :
    PagePlan :=
  .of session.config content offset (count.getD session.config.maxEnumerateAll)

/-- The answers to a call for a page of a loaded snapshot, with the sessions after it. -/
inductive Paged (session : Session σ) (node : SnapshotId) (content : Content) (offset : Nat)
    (count : Option Nat) : Except ReadError (List ChildEntry) → Session σ → Prop where
  /-- All children are too many. -/
  | refused (hAll : count = none)
      (hMany : session.config.maxEnumerateAll < content.childCount) :
      Paged session node content offset count
        (.error (.tooManyChildren content.childCount session.config.maxEnumerateAll)) session
  /-- The store need not be asked. -/
  | kept (hFew : ¬(count = none ∧ session.config.maxEnumerateAll < content.childCount))
      (hFetch : (session.pagePlan content offset count).fetch = none) :
      Paged session node content offset count (.ok (session.pagePlan content offset count).kept)
        session
  /-- The store is asked for one window. -/
  | asked {start requested : Nat} {answer : Except ReadError (List ChildEntry)} {after : Session σ}
      (hFew : ¬(count = none ∧ session.config.maxEnumerateAll < content.childCount))
      (hFetch : (session.pagePlan content offset count).fetch = some (start, requested))
      (hAnswer : session.Fetched node start requested answer)
      (hQueries : after.queries.toList = session.queries.toList ++
        [.list (windowRequest (session.snapshot node) start requested)
          (session.snapshot node).load]) :
      Paged session node content offset count
        (answer.map ((session.pagePlan content offset count).kept ++ ·)) after

/-- A page is answered from what is kept and from one slice at most. -/
theorem paged {session loaded : Session σ} {node : SnapshotId} {content : Content}
    (hContent : session.content node = (.ok content, loaded)) (offset : Nat) (count : Option Nat) :
    loaded.Paged node content offset count (session.entries node offset count).1
      (session.entries node offset count).2 := by
  simp only [entries, hContent, PagePlan.wanted_eq]
  by_cases hMany : count = none ∧ loaded.config.maxEnumerateAll < content.childCount
  · rw [if_pos hMany]
    exact .refused hMany.1 hMany.2
  · rw [if_neg hMany]
    dsimp only
    split
    · rename_i hFetch
      exact .kept hMany hFetch
    · rename_i start requested hFetch
      exact .asked hMany hFetch (loaded.fetched node start requested)
        (loaded.queries_fetch node start requested)

/-- A page that is continued by a slice. -/
structure Continued (session : Session σ) (node : SnapshotId) (content : Content) (offset : Nat)
    (count : Option Nat) (start requested : Nat) (text : String) (fetched : List ChildEntry) :
    Prop where
  allowed : ¬(count = none ∧ session.config.maxEnumerateAll < content.childCount)
  fetch : (session.pagePlan content offset count).fetch = some (start, requested)
  answer : session.windowAnswer node start requested = .ok text
  slice : Slice.ofString text = .ok (fetched.map ChildEntry.name)
  few : fetched.length ≤ requested

/-- A page that is answered is what is kept of it, with a slice behind if the store was asked. -/
theorem Paged.of_ok {session after : Session σ} {node : SnapshotId} {content : Content}
    {offset : Nat} {count : Option Nat} {entries : List ChildEntry}
    (h : session.Paged node content offset count (.ok entries) after) :
    (entries = (session.pagePlan content offset count).kept ∧ after = session) ∨
      ∃ start requested text fetched,
        session.Continued node content offset count start requested text fetched ∧
        entries = (session.pagePlan content offset count).kept ++ fetched ∧
        after.queries.toList = session.queries.toList ++
          [.list (windowRequest (session.snapshot node) start requested)
            (session.snapshot node).load] := by
  generalize hEntries : (Except.ok entries : Except ReadError (List ChildEntry)) = answer at h
  cases h with
  | refused => cases hEntries
  | kept hFew hFetch =>
      cases hEntries
      exact Or.inl ⟨rfl, rfl⟩
  | asked hFew hFetch hFetched hQueries =>
      obtain ⟨fetched, rfl, rfl⟩ := exists_of_map_eq_ok hEntries.symm
      obtain ⟨text, hText, hSlice, hShort⟩ := hFetched.of_ok
      exact Or.inr ⟨_, _, text, fetched, ⟨hFew, hFetch, hText, hSlice, hShort⟩, rfl, hQueries⟩

/-- A slice that a page is to be continued by fails it or continues it. -/
theorem Paged.of_slice {session after : Session σ} {node : SnapshotId} {content : Content}
    {offset start requested : Nat} {count : Option Nat}
    {answer : Except ReadError (List ChildEntry)}
    (h : session.Paged node content offset count answer after)
    (hFew : ¬(count = none ∧ session.config.maxEnumerateAll < content.childCount))
    (hFetch : (session.pagePlan content offset count).fetch = some (start, requested))
    {text : String} {names : List String}
    (hText : session.windowAnswer node start requested = .ok text)
    (hSlice : Slice.ofString text = .ok names) :
    (requested < names.length → answer = .error (.listing (.malformed
        ⟨Text.byteLength text.toList, .moreThanRequested names.length requested⟩))) ∧
      (names.length ≤ requested → ∃ fetched,
        answer = .ok ((session.pagePlan content offset count).kept ++ fetched) ∧
          fetched.map ChildEntry.name = names) := by
  cases h with
  | refused hAll hMany => exact absurd ⟨hAll, hMany⟩ hFew
  | kept hOther hNone => cases hFetch.symm.trans hNone
  | asked hOther hSome hFetched =>
      cases hFetch.symm.trans hSome
      obtain ⟨hLong, hShort⟩ := hFetched.of_slice hText hSlice
      refine ⟨?_, ?_⟩
      · intro hMany
        rw [hLong hMany]
        rfl
      · intro hNames
        obtain ⟨fetched, rfl, hFetchedNames⟩ := hShort hNames
        exact ⟨fetched, rfl, hFetchedNames⟩

theorem config_content {session loaded : Session σ} {node : SnapshotId}
    {answer : Except ReadError Content} (h : session.content node = (answer, loaded)) :
    loaded.config = session.config := by
  have hGrows := (session.steps_content node).grows
  rw [h] at hGrows
  exact hGrows.config

/-- Loading a snapshot does not change the plan for a page. -/
theorem pagePlan_content {session loaded : Session σ} {node : SnapshotId}
    {answer : Except ReadError Content} (h : session.content node = (answer, loaded))
    (content : Content) (offset : Nat) (count : Option Nat) :
    loaded.pagePlan content offset count =
      .of session.config content offset (count.getD session.config.maxEnumerateAll) := by
  rw [pagePlan, config_content h]

end Session

/-! ### A store that says too much -/

def oneOfTwo : Json :=
  .object [("a", .object []), (childNodeCount, .atom (.number (.integer 2)))]

theorem Listing.ofString_oneOfTwo :
    ofString 1 oneOfTwo.text = .ok { properties := [], children := ["a"], childCount := 2 } := by
  rw [ofString, oneOfTwo, Json.ofString_text]
  rfl

/-- A listing of more children than it counts. -/
def threeOfTwo : Json :=
  .object [("b", .object []), ("c", .object []), ("d", .object []),
    (childNodeCount, .atom (.number (.integer 2)))]

theorem Slice.ofString_threeOfTwo : ofString threeOfTwo.text = .ok ["b", "c", "d"] := by
  rw [ofString, threeOfTwo, Json.ofString_text]
  rfl

def otherOfTwo : Json :=
  .object [("b", .object [])]

theorem Slice.ofString_otherOfTwo : ofString otherOfTwo.text = .ok ["b"] := by
  rw [ofString, otherOfTwo, Json.ofString_text]
  rfl

/-- A store whose root has two children, and that answers `behind` behind the first of them. -/
def ScriptedStore.answering (behind : String) : ScriptedStore where
  latest := ⟨"r1"⟩
  entries := [⟨Path.root, some 0, [.ok oneOfTwo.text]⟩, ⟨Path.root, some 1, [.ok behind]⟩]
  existence := []

/-- A session with the root of such a store, of which one child is to be kept. -/
def Session.answering (behind : String) : Session ScriptedStore :=
  (Session.add { store := .answering behind, config := { childCacheLimit := 1 } } Path.root
    ⟨"r1"⟩).2

/-- The store says that there are three more children. -/
def Session.talkative : Session ScriptedStore :=
  .answering threeOfTwo.text

theorem Session.arises_answering (behind : String) : (Session.answering behind).Arises :=
  .add Path.root ⟨"r1"⟩ (.start (ScriptedStore.answering behind) { childCacheLimit := 1 })

/-- The root keeps one child of the two that it counts, and behind it the store answers what it was
given. -/
theorem Session.content_answering (behind : String) :
    ∃ content loaded, (Session.answering behind).content ⟨0⟩ = (.ok content, loaded) ∧
      content.children.map ChildEntry.name = ["a"] ∧ content.children.length = 1 ∧
      content.childCount = 2 ∧ ∀ requested, loaded.windowAnswer ⟨0⟩ 1 requested = .ok behind := by
  have hAttempt : (Session.answering behind).loadAnswer ⟨0⟩ =
      .ok { properties := [], children := ["a"], childCount := 2 } :=
    congrArg (Except.mapError ReadError.listing) Listing.ofString_oneOfTwo
  obtain ⟨event, hLoaded⟩ := materialize_of_ok hAttempt
  exact ⟨_, _, hLoaded, rfl, rfl, rfl, fun _ => rfl⟩

theorem Session.childCount_answering (behind : String) :
    ((Session.answering behind).childCount ⟨0⟩).1 = .ok 2 := by
  obtain ⟨content, loaded, hContent, -, -, hCount, -⟩ := Session.content_answering behind
  rw [← hCount]
  exact congrArg Prod.fst (Session.ask_of_ok hContent)

/-- A page of five is the kept child and what the store answers behind it. -/
theorem Session.entries_answering {behind : String} {names : List String}
    (hSlice : Slice.ofString behind = .ok names) (hShort : names.length ≤ 4) :
    ∃ entries, ((Session.answering behind).entries ⟨0⟩ 0 (some 5)).1 = .ok entries ∧
      entries.map ChildEntry.name = "a" :: names := by
  obtain ⟨content, loaded, hContent, hNames, hKept, hCount, hWindow⟩ :=
    Session.content_answering behind
  have hPaged := Session.paged hContent 0 (some 5)
  have hPlan := Session.pagePlan_content hContent content 0 (some 5)
  have hAll : (loaded.pagePlan content 0 (some 5)).kept = content.children := by
    rw [hPlan, PagePlan.of, List.drop_zero]
    exact List.take_of_length_le (by simp [hKept])
  have hFetch : (loaded.pagePlan content 0 (some 5)).fetch = some (1, 4) := by
    rw [hPlan, PagePlan.fetch_eq_some_iff, ← hPlan, hAll, hKept, hCount]
    exact ⟨rfl, rfl, Nat.zero_lt_succ 3, Nat.one_lt_two⟩
  have hAllowed : ¬((some 5 : Option Nat) = none ∧
      loaded.config.maxEnumerateAll < content.childCount) :=
    fun hNone => Option.some_ne_none _ hNone.1
  obtain ⟨fetched, hEntries, hFetched⟩ :=
    (hPaged.of_slice hAllowed hFetch (hWindow 4) hSlice).2 hShort
  refine ⟨_, hEntries, ?_⟩
  rw [List.map_append, hAll, hNames, hFetched]
  rfl

/-! ### What was asked for -/

/-- A page never exceeds what was asked for, whatever the store sends. A page that is answered has
what is kept of it in front, and behind that one slice or nothing. A slice that is longer than what
is missing fails the call. -/
theorem page_bounded {σ : Type} [NodeStore σ] {session loaded : Session σ} {node : SnapshotId}
    {content : Content} (hContent : session.content node = (.ok content, loaded)) (offset : Nat)
    (count : Option Nat) :
    let wanted := count.getD session.config.maxEnumerateAll
    let kept := (content.children.drop offset).take wanted
    let start := max offset content.children.length
    let missing := wanted - kept.length
    kept.length ≤ wanted ∧
    (∀ entries after, session.entries node offset count = (.ok entries, after) →
      entries.length ≤ wanted ∧
        ((entries = kept ∧ after = loaded) ∨ ∃ text fetched, entries = kept ++ fetched ∧
          loaded.windowAnswer node start missing = .ok text ∧
          Slice.ofString text = .ok (fetched.map ChildEntry.name) ∧
          after.queries.toList = loaded.queries.toList ++
            [.list (Session.windowRequest (loaded.snapshot node) start missing)
              (loaded.snapshot node).load])) ∧
    ∀ text names, ¬(count = none ∧ session.config.maxEnumerateAll < content.childCount) →
      0 < missing → session.config.childCacheLimit < content.childCount →
      loaded.windowAnswer node start missing = .ok text → Slice.ofString text = .ok names →
      missing < names.length →
        (session.entries node offset count).1 = .error (.listing (.malformed
          ⟨Text.byteLength text.toList, .moreThanRequested names.length missing⟩)) := by
  intro wanted kept start missing
  have hPaged := Session.paged hContent offset count
  have hPlan := Session.pagePlan_content hContent content offset count
  have hKept : kept.length ≤ wanted :=
    PagePlan.length_kept_le session.config content offset wanted
  refine ⟨hKept, ?_, ?_⟩
  · intro entries after hEntries
    rw [hEntries] at hPaged
    dsimp only at hPaged
    rcases hPaged.of_ok with ⟨rfl, rfl⟩ |
        ⟨first, requested, text, fetched, hContinued, rfl, hQueries⟩
    · rw [hPlan]
      exact ⟨hKept, Or.inl ⟨rfl, rfl⟩⟩
    · have hFetch := hContinued.fetch
      rw [hPlan] at hFetch ⊢
      obtain ⟨rfl, rfl, -⟩ := PagePlan.fetch_eq_some_iff.mp hFetch
      have hFew : fetched.length ≤ missing := hContinued.few
      refine ⟨?_, Or.inr ⟨text, fetched, rfl, hContinued.answer, hContinued.slice, hQueries⟩⟩
      calc
        (kept ++ fetched).length = kept.length + fetched.length := List.length_append
        _ ≤ wanted := by omega
  · intro text names hFew hMissing hLimit hText hSlice hMany
    rw [← Session.config_content hContent] at hFew
    have hFetch : (loaded.pagePlan content offset count).fetch = some (start, missing) := by
      rw [hPlan]
      exact PagePlan.fetch_eq_some_iff.mpr ⟨rfl, rfl, hMissing, hLimit⟩
    exact (hPaged.of_slice hFew hFetch hText hSlice).1 hMany

/-- Two children of the talkative store are a kept one and a fetched one, and three are too many. -/
theorem page_bounded_sample :
    (Session.talkative.entries ⟨0⟩ 0 (some 2)).1 = .error (.listing (.malformed
      ⟨Text.byteLength threeOfTwo.text.toList, .moreThanRequested 3 1⟩)) := by
  obtain ⟨content, loaded, hContent, -, hKept, hCount, hWindow⟩ :=
    Session.content_answering threeOfTwo.text
  obtain ⟨-, -, hRefused⟩ := page_bounded hContent 0 (some 2)
  have hLength : ((content.children.drop 0).take 2).length = 1 := by
    rw [List.drop_zero, List.length_take, hKept]
    rfl
  have hLimit : Session.talkative.config.childCacheLimit < content.childCount := by
    rw [hCount]
    decide
  simp only [Option.getD_some, hLength, hKept, Nat.zero_max] at hRefused
  exact hRefused _ _ (fun hNone => Option.some_ne_none _ hNone.1) (by decide) hLimit (hWindow 1)
    Slice.ofString_threeOfTwo (by decide)

/-! ### What is counted -/

/-- A page is within the number of children that its snapshot counts exactly when the window that
it asks for is, if the window is not refused as too long for the page. The number is never compared
with a window, but it is with the listing that the snapshot was loaded from. -/
theorem page_within_count_iff {σ : Type} [NodeStore σ] {session loaded : Session σ}
    (hArises : session.Arises) {node : SnapshotId} (hNode : node.index < session.snapshots.size)
    {content : Content} (hContent : session.content node = (.ok content, loaded)) (offset : Nat)
    (count : Option Nat) :
    let wanted := count.getD session.config.maxEnumerateAll
    let start := max offset content.children.length
    let missing := wanted - ((content.children.drop offset).take wanted).length
    (session.childCount node).1 = .ok content.childCount ∧
    content.children.length ≤ content.childCount ∧
    ((∀ entries, (session.entries node offset count).1 = .ok entries →
        entries.length ≤ content.childCount - offset) ↔
      ∀ text names, ¬(count = none ∧ session.config.maxEnumerateAll < content.childCount) →
        0 < missing → session.config.childCacheLimit < content.childCount →
        loaded.windowAnswer node start missing = .ok text → Slice.ofString text = .ok names →
        names.length ≤ missing → names.length ≤ content.childCount - start) := by
  intro wanted start missing
  have hPaged := Session.paged hContent offset count
  have hPlan := Session.pagePlan_content hContent content offset count
  have hConfig := Session.config_content hContent
  have hCounted : content.children.length ≤ content.childCount := by
    have hSound := (hArises.sound hNode hContent).counted
    rwa [Content.listing, List.length_map] at hSound
  refine ⟨congrArg Prod.fst (Session.ask_of_ok hContent), hCounted, ?_, ?_⟩
  · intro hBounded text names hFew hMissing hLimit hText hSlice hShort
    rw [← hConfig] at hFew
    have hFetch : (loaded.pagePlan content offset count).fetch = some (start, missing) := by
      rw [hPlan]
      exact PagePlan.fetch_eq_some_iff.mpr ⟨rfl, rfl, hMissing, hLimit⟩
    obtain ⟨fetched, hEntries, rfl⟩ := (hPaged.of_slice hFew hFetch hText hSlice).2 hShort
    have hLength := hBounded _ hEntries
    rw [hPlan, List.length_append, PagePlan.length_kept_of_missing hMissing] at hLength
    rw [List.length_map]
    omega
  · intro hWindow entries hEntries
    rw [hEntries] at hPaged
    rcases hPaged.of_ok with ⟨rfl, -⟩ | ⟨first, requested, text, fetched, hContinued, rfl, -⟩
    · rw [hPlan]
      exact Nat.le_trans PagePlan.length_kept_le_supplied (Nat.sub_le_sub_right hCounted offset)
    · obtain ⟨hFew, hFetch, hText, hSlice, hShort⟩ := hContinued
      rw [hConfig] at hFew
      rw [hPlan] at hFetch ⊢
      obtain ⟨rfl, rfl, hMissing, hLimit⟩ := PagePlan.fetch_eq_some_iff.mp hFetch
      have hLength := hWindow text _ hFew hMissing hLimit hText hSlice
        (Nat.le_trans (Nat.le_of_eq (List.length_map _)) hShort)
      rw [List.length_map] at hLength
      rw [List.length_append, PagePlan.length_kept_of_missing hMissing]
      omega

/-- A page of five has both children if the store answers the second behind the first. The talkative
store answers three there, and so the page is not within the two that are counted. -/
theorem page_within_count_iff_sample :
    (∃ entries, ((Session.answering otherOfTwo.text).entries ⟨0⟩ 0 (some 5)).1 = .ok entries ∧
      entries.map ChildEntry.name = ["a", "b"] ∧ entries.length ≤ 2) ∧
    ¬∀ entries, (Session.talkative.entries ⟨0⟩ 0 (some 5)).1 = .ok entries →
      entries.length ≤ 2 := by
  constructor
  · obtain ⟨content, loaded, hContent, -, hKept, hCount, hWindow⟩ :=
      Session.content_answering otherOfTwo.text
    obtain ⟨-, -, hIff⟩ :=
      page_within_count_iff (Session.arises_answering _) Nat.zero_lt_one hContent 0 (some 5)
    obtain ⟨entries, hEntries, hNames⟩ :=
      Session.entries_answering Slice.ofString_otherOfTwo (by decide)
    rw [hKept, hCount] at hIff
    refine ⟨entries, hEntries, hNames, hIff.mpr ?_ entries hEntries⟩
    intro text names _ _ _ hText hSlice _
    cases (hWindow _).symm.trans hText
    cases Slice.ofString_otherOfTwo.symm.trans hSlice
    decide
  · obtain ⟨content, loaded, hContent, -, hKept, hCount, hWindow⟩ :=
      Session.content_answering threeOfTwo.text
    obtain ⟨-, -, hIff⟩ :=
      page_within_count_iff (Session.arises_answering _) Nat.zero_lt_one hContent 0 (some 5)
    have hMissing : 5 - ((content.children.drop 0).take 5).length = 4 := by
      rw [List.drop_zero, List.length_take, hKept]
      rfl
    simp only [Option.getD_some, hMissing, hKept, hCount] at hIff
    intro hAll
    have hLength := hIff.mp hAll threeOfTwo.text _ (fun hNone => Option.some_ne_none _ hNone.1)
      (by decide) (by decide) (hWindow 4) Slice.ofString_threeOfTwo (by decide)
    exact absurd hLength (by decide)

/-- With the talkative store a snapshot that counts two children answers a page of four. -/
theorem page_exceeds_count :
    ∃ entries, (Session.talkative.entries ⟨0⟩ 0 (some 5)).1 = .ok entries ∧ entries.length = 4 ∧
      (Session.talkative.childCount ⟨0⟩).1 = .ok 2 := by
  obtain ⟨entries, hEntries, hNames⟩ :=
    Session.entries_answering Slice.ofString_threeOfTwo (by decide)
  have hLength := congrArg List.length hNames
  rw [List.length_map] at hLength
  exact ⟨entries, hEntries, hLength, Session.childCount_answering _⟩

end PinnedTree
