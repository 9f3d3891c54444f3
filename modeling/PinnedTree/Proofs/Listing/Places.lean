import Mathlib.Data.List.Induction
import PinnedTree.Proofs.Listing.Grammar

/-! Where the reading of a listing can be. Each place is reached on the tokens of one part of a
listing alone, and what has been read by then is what the members of that part say. -/
namespace PinnedTree.Listing

/-! ### Parts of listings -/

/-- The tokens before a name. -/
inductive Due : List Token → List Entry → Prop where
  | first {brace : Token} (hBrace : brace.kind = .leftBrace) : Due [brace] []
  | next {front : List Token} {entries : List Entry} {comma : Token}
      (hFront : Opened front entries) (hComma : comma.kind = .comma) :
      Due (front ++ [comma]) entries

/-- The tokens before the value of `name`. -/
inductive Named : String → List Token → List Entry → Prop where
  | mk {front : List Token} {entries : List Entry} {name colon : Token} (hDue : Due front entries)
      (hName : name.kind = .string) (hColon : colon.kind = .colon) :
      Named name.text (front ++ [name, colon]) entries

/-- The tokens that a place is reached on. -/
inductive Reads : Place → List Token → List Entry → Prop where
  | opening : Reads .opening [] []
  | firstMember {brace : Token} (hBrace : brace.kind = .leftBrace) : Reads .firstMember [brace] []
  | name {front : List Token} {entries : List Entry} {comma : Token}
      (hFront : Opened front entries) (hComma : comma.kind = .comma) :
      Reads .name (front ++ [comma]) entries
  | colon {front : List Token} {entries : List Entry} {name : Token} (hDue : Due front entries)
      (hName : name.kind = .string) : Reads (.colon name.text) (front ++ [name]) entries
  | total {tokens : List Token} {entries : List Entry}
      (hNamed : Named childNodeCount tokens entries) : Reads .total tokens entries
  | value {name : String} {tokens : List Token} {entries : List Entry}
      (hName : name ≠ childNodeCount) (hNamed : Named name tokens entries) :
      Reads (.value name) tokens entries
  | childEnd {name : String} {tokens : List Token} {entries : List Entry} {brace : Token}
      (hName : name ≠ childNodeCount) (hNamed : Named name tokens entries)
      (hBrace : brace.kind = .leftBrace) : Reads (.childEnd name) (tokens ++ [brace]) entries
  | firstItem {name : String} {tokens : List Token} {entries : List Entry} {bracket : Token}
      (hName : name ≠ childNodeCount) (hNamed : Named name tokens entries)
      (hBracket : bracket.kind = .leftBracket) :
      Reads (.firstItem name) (tokens ++ [bracket]) entries
  | item {name : String} {tokens items : List Token} {entries : List Entry} {values : List Scalar}
      {comma : Token} (hName : name ≠ childNodeCount) (hNamed : Named name tokens entries)
      (hItems : Items items values) (hComma : comma.kind = .comma) :
      Reads (.item name values) (tokens ++ items ++ [comma]) entries
  | itemSeparator {name : String} {tokens items : List Token} {entries : List Entry}
      {values : List Scalar} (hName : name ≠ childNodeCount) (hNamed : Named name tokens entries)
      (hItems : Items items values) : Reads (.itemSeparator name values) (tokens ++ items) entries
  | separator {tokens : List Token} {entries : List Entry} (h : Opened tokens entries) :
      Reads .separator tokens entries
  | ending {tokens : List Token} {entries : List Entry} (h : Wire tokens entries) :
      Reads .ending tokens entries
  -- the end of the text is none of its tokens, so that nothing is to be said of this place
  | finished {tokens : List Token} {entries : List Entry} : Reads .finished tokens entries

theorem Due.opened {front tokens : List Token} {entries : List Entry} {entry : Entry}
    (h : Due front entries) (hMember : Member tokens entry) :
    Opened (front ++ tokens) (entries ++ [entry]) := by
  cases h with
  | first hBrace => exact .first hBrace hMember
  | next hFront hComma =>
      rw [List.append_assoc]
      exact .next hFront hComma hMember

theorem Named.opened {name : String} {front tokens : List Token} {entries : List Entry}
    {entry : Entry} (h : Named name front entries) (hValue : Says name tokens entry) :
    Opened (front ++ tokens) (entries ++ [entry]) := by
  obtain ⟨hDue, hName, hColon⟩ := h
  rw [List.append_assoc]
  exact hDue.opened (.mk hName hColon hValue)

theorem Named.reads {name : String} {tokens : List Token} {entries : List Entry}
    (h : Named name tokens entries) : Reads (valuePlace name) tokens entries := by
  rw [valuePlace]
  split
  · rename_i hName
    exact .total (hName ▸ h)
  · rename_i hName
    exact .value hName h

/-! ### What a token changes -/

section Step

variable {tokens : List Token} {entries : List Entry} {token : Token} {next : State}

/-- The part of a listing behind one more token, and what has been read of it. -/
def Continues (tokens : List Token) (state : State) : Prop :=
  ∃ entries, Reads state.1 tokens entries ∧ state.2 = .ofEntries entries

theorem Reads.continues {place : Place} (h : Reads place tokens entries) :
    Continues tokens (place, .ofEntries entries) :=
  ⟨entries, h, rfl⟩

/-- Behind the value of a member, what it says has been read. -/
theorem Named.continues {name : String} {value : List Token} {entry : Entry}
    (h : Named name tokens entries) (hValue : Says name value entry) :
    Continues (tokens ++ value) (.separator, (Draft.ofEntries entries).take entry) :=
  ⟨entries ++ [entry], .separator (h.opened hValue), (Draft.ofEntries_concat entries entry).symm⟩

/-- A token that is not refused is of the kind that is due. -/
theorem kind_of_due {α : Type} {kind due : TokenKind} {state next : α}
    (h : (if token.kind = kind then Except.ok state else refuse due token) = .ok next) :
    token.kind = kind ∧ state = next := by
  split at h
  · rename_i hKind
    exact ⟨hKind, Except.ok.inj h⟩
  · cases h

/-- Behind the opening brace, a token that is taken continues the listing. -/
theorem continues_firstMember {brace : Token} (hBrace : brace.kind = .leftBrace)
    (h : step (.firstMember, .ofEntries []) token = .ok next) :
    Continues [brace, token] next := by
  simp only [step] at h
  split at h
  · rename_i hKind
    cases h
    exact (Reads.ending (.empty hBrace hKind)).continues
  · obtain ⟨hKind, rfl⟩ := kind_of_due h
    exact (Reads.colon (.first hBrace) hKind).continues

/-- Where the total is due, a token that is taken continues the listing. -/
theorem continues_total (hNamed : Named childNodeCount tokens entries)
    (h : step (.total, .ofEntries entries) token = .ok next) :
    Continues (tokens ++ [token]) next := by
  simp only [step] at h
  split at h
  · rename_i hKind
    split at h
    · rename_i count hCount
      cases h
      obtain ⟨hDigits, hSmall, rfl⟩ := count?_eq_some_iff.mp hCount
      exact hNamed.continues (.total rfl hKind hDigits hSmall)
    · cases h
  · cases h

/-- Behind a colon, a token that is taken continues the listing. -/
theorem continues_value {name : String} (hName : name ≠ childNodeCount)
    (hNamed : Named name tokens entries)
    (h : step (.value name, .ofEntries entries) token = .ok next) :
    Continues (tokens ++ [token]) next := by
  simp only [step] at h
  split at h
  · rename_i hKind
    cases h
    exact (Reads.childEnd hName hNamed hKind).continues
  · split at h
    · rename_i hKind
      cases h
      exact (Reads.firstItem hName hNamed hKind).continues
    · obtain ⟨value, hValue, rfl⟩ := exists_of_map_eq_ok h
      exact hNamed.continues (.one hName (scalar_eq_ok_iff.mp hValue))

/-- Behind an opening bracket, a token that is taken continues the listing. -/
theorem continues_firstItem {name : String} {bracket : Token} (hName : name ≠ childNodeCount)
    (hNamed : Named name tokens entries) (hBracket : bracket.kind = .leftBracket)
    (h : step (.firstItem name, .ofEntries entries) token = .ok next) :
    Continues (tokens ++ [bracket, token]) next := by
  simp only [step] at h
  split at h
  · rename_i hKind
    cases h
    exact hNamed.continues (.none hName hBracket hKind)
  · obtain ⟨value, hValue, rfl⟩ := exists_of_map_eq_ok h
    exact (Reads.itemSeparator hName hNamed
      (.first hBracket (scalar_eq_ok_iff.mp hValue))).continues

/-- Behind an item, a token that is taken continues the listing. -/
theorem continues_itemSeparator {name : String} {items : List Token} {values : List Scalar}
    (hName : name ≠ childNodeCount) (hNamed : Named name tokens entries)
    (hItems : Items items values)
    (h : step (.itemSeparator name values, .ofEntries entries) token = .ok next) :
    Continues (tokens ++ items ++ [token]) next := by
  simp only [step] at h
  split at h
  · rename_i hKind
    cases h
    exact (Reads.item hName hNamed hItems hKind).continues
  · obtain ⟨hKind, rfl⟩ := kind_of_due h
    rw [List.append_assoc]
    exact hNamed.continues (.many hName hItems hKind)

/-- Behind a member, a token that is taken continues the listing. -/
theorem continues_separator (hOpened : Opened tokens entries)
    (h : step (.separator, .ofEntries entries) token = .ok next) :
    Continues (tokens ++ [token]) next := by
  simp only [step] at h
  split at h
  · rename_i hKind
    cases h
    exact (Reads.name hOpened hKind).continues
  · obtain ⟨hKind, rfl⟩ := kind_of_due h
    exact (Reads.ending (.members hOpened hKind)).continues

/-- One more token leads from a part of a listing to a part of a listing. -/
theorem Reads.step {place : Place} (h : Reads place tokens entries)
    (hStep : Listing.step (place, .ofEntries entries) token = .ok next) :
    Continues (tokens ++ [token]) next := by
  cases h with
  | opening =>
      obtain ⟨hKind, rfl⟩ := kind_of_due hStep
      exact (Reads.firstMember hKind).continues
  | firstMember hBrace => exact continues_firstMember hBrace hStep
  | name hFront hComma =>
      obtain ⟨hKind, rfl⟩ := kind_of_due hStep
      exact (Reads.colon (.next hFront hComma) hKind).continues
  | colon hDue hName =>
      obtain ⟨hKind, rfl⟩ := kind_of_due hStep
      rw [List.append_assoc]
      exact (Named.mk hDue hName hKind).reads.continues
  | total hNamed => exact continues_total hNamed hStep
  | value hName hNamed => exact continues_value hName hNamed hStep
  | childEnd hName hNamed hBrace =>
      obtain ⟨hKind, rfl⟩ := kind_of_due hStep
      rw [List.append_assoc]
      exact hNamed.continues (.child hName hBrace hKind)
  | firstItem hName hNamed hBracket =>
      rw [List.append_assoc]
      exact continues_firstItem hName hNamed hBracket hStep
  | item hName hNamed hItems hComma =>
      obtain ⟨value, hValue, rfl⟩ := exists_of_map_eq_ok hStep
      rw [List.append_assoc, List.append_assoc]
      exact (Reads.itemSeparator hName hNamed
        (.next hItems hComma (scalar_eq_ok_iff.mp hValue))).continues
  | itemSeparator hName hNamed hItems =>
      exact continues_itemSeparator hName hNamed hItems hStep
  | separator hOpened => exact continues_separator hOpened hStep
  | ending =>
      obtain ⟨-, rfl⟩ := kind_of_due hStep
      exact Reads.finished.continues
  | finished => cases hStep

/-- Every place is reached on the tokens of a part of a listing. -/
theorem continues_of_foldlM {state : State}
    (h : tokens.foldlM Listing.step (.opening, {}) = .ok state) : Continues tokens state := by
  -- The last token is taken from a place that is reached on the others, so the list is taken apart
  -- from its end.
  induction tokens using List.reverseRecOn generalizing state with
  | nil =>
      cases h
      exact Reads.opening.continues
  | append_singleton front last ih =>
      obtain ⟨⟨place, draft⟩, hFront, hLast⟩ := exists_of_foldlM_concat_eq_ok h
      obtain ⟨entries, hReads, rfl⟩ := ih hFront
      exact hReads.step hLast

end Step

end PinnedTree.Listing
