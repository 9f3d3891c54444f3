import Mathlib.Data.List.Induction
import PinnedTree.Listing.Slice
import PinnedTree.Proofs.Json.Tokens
import PinnedTree.Proofs.Listing.Places
import PinnedTree.Proofs.Token.Places

/-! The grammar of the texts in which only the children are looked for: behind a name there can be
any value, and the names before empty objects are children. The reading gets to the end on exactly
the texts of this grammar, and it finds the children that they mention. -/
namespace PinnedTree.Slice

/-! ### The grammar -/

/-- What is seen of a member. -/
inductive Mention where
  | child (name : String)
  | other (name : String)
  deriving DecidableEq

namespace Mention

def name : Mention → String
  | .child name => name
  | .other name => name

def child? : Mention → Option String
  | .child name => some name
  | .other _ => none

end Mention

/-- The children that are mentioned, each as often as it is. -/
def mentioned (mentions : List Mention) : List String :=
  mentions.filterMap Mention.child?

/-- A name is among the children that are mentioned exactly when it is mentioned as a child. -/
theorem mem_mentioned {mentions : List Mention} {name : String} :
    name ∈ mentioned mentions ↔ .child name ∈ mentions := by
  rw [mentioned, List.mem_filterMap]
  constructor
  · rintro ⟨mention, hMention, hChild⟩
    cases mention with
    | child other =>
        cases hChild
        exact hMention
    | other other => cases hChild
  · intro h
    exact ⟨_, h, rfl⟩

/-- The tokens of the value of `name`, and what is seen of it. -/
inductive Says (name : String) : List Token → Mention → Prop where
  | child {left right : Token} (hLeft : left.kind = .leftBrace)
      (hRight : right.kind = .rightBrace) : Says name [left, right] (.child name)
  | other {first : Token} {rest : List Token} (hFirst : first.kind ≠ .leftBrace)
      (hValue : IsValue ((first :: rest).map Token.kind)) : Says name (first :: rest) (.other name)

/-- A name, a colon and a value. -/
inductive Member : List Token → Mention → Prop where
  | mk {name colon : Token} {tokens : List Token} {mention : Mention} (hName : name.kind = .string)
      (hColon : colon.kind = .colon) (hValue : Says name.text tokens mention) :
      Member (name :: colon :: tokens) mention

/-- An opening brace, and members with a comma behind each. -/
inductive Due : List Token → List Mention → Prop where
  | first {brace : Token} (hBrace : brace.kind = .leftBrace) : Due [brace] []
  | next {front tokens : List Token} {mentions : List Mention} {mention : Mention} {comma : Token}
      (hFront : Due front mentions) (hMember : Member tokens mention)
      (hComma : comma.kind = .comma) :
      Due (front ++ tokens ++ [comma]) (mentions ++ [mention])

/-- The tokens of a listing, and what is seen of its members. -/
inductive Wire : List Token → List Mention → Prop where
  | empty {left right : Token} (hLeft : left.kind = .leftBrace)
      (hRight : right.kind = .rightBrace) : Wire [left, right] []
  | members {front tokens : List Token} {mentions : List Mention} {mention : Mention}
      {right : Token} (hFront : Due front mentions) (hMember : Member tokens mention)
      (hRight : right.kind = .rightBrace) :
      Wire (front ++ tokens ++ [right]) (mentions ++ [mention])

/-- The tokens of a whole text are those of a listing with these mentions. -/
structure Spells (text : String) (mentions : List Mention) : Prop where
  ending : ∃ position, (Tokens.ofString text).ending = .ok position
  front : Wire (Tokens.ofString text).front mentions

/-! ### Listings are read -/

def found (mentions : List Mention) : Array String :=
  (mentioned mentions).toArray

theorem found_concat_child (mentions : List Mention) (name : String) :
    found (mentions ++ [.child name]) = (found mentions).push name := by
  simp [found, mentioned, Mention.child?]

theorem found_concat_other (mentions : List Mention) (name : String) :
    found (mentions ++ [.other name]) = found mentions := by
  simp [found, mentioned, List.filterMap_cons, Mention.child?]

variable {tokens : List Token} {mentions : List Mention}

/-- The tokens that lead to the end of a value are passed over. -/
theorem foldlM_of_leads {place : ValuePlace} {kinds : List TokenKind}
    (h : ValuePlace.Leads place kinds none) {value : List Token}
    (hKinds : value.map Token.kind = kinds) (names : Array String) :
    value.foldlM step (.inside place, names) = .ok (.separator, names) := by
  generalize hNone : (none : Option ValuePlace) = behind at h
  induction h generalizing value with
  | @last place kind behind hLast =>
      subst hNone
      obtain ⟨token, rfl, hKind⟩ := List.map_eq_singleton_iff.mp hKinds
      have hStep : step (.inside place, names) token = .ok (.separator, names) := by
        rw [step, pass, hLast token hKind]
        rfl
      rw [foldlM_cons_of_eq_ok hStep]
      rfl
  | @cons place middle kind kinds behind hFirst _ ih =>
      obtain ⟨token, rest, rfl, hKind, hRest⟩ := List.map_eq_cons_iff.mp hKinds
      have hStep : step (.inside place, names) token = .ok (.inside middle, names) := by
        rw [step, pass, hFirst token hKind]
        rfl
      rw [foldlM_cons_of_eq_ok hStep]
      exact ih hRest hNone

/-- A value that does not start with a brace is passed over from its start. -/
theorem step_value {name : String} {names : Array String} {token : Token}
    (h : token.kind ≠ .leftBrace) :
    step (.value name, names) token = step (.inside .start, names) token :=
  if_neg h

/-- The value of a member is read to its end. -/
theorem Says.read {name : String} {mention : Mention} (h : Says name tokens mention) :
    tokens.foldlM step (.value name, found mentions) =
      .ok (.separator, found (mentions ++ [mention])) := by
  cases h with
  | @child left right hLeft hRight =>
      have hOpen : step (.value name, found mentions) left = .ok (.childEnd name, found mentions) :=
        if_pos hLeft
      have hClose : step (.childEnd name, found mentions) right =
          .ok (.separator, (found mentions).push name) :=
        if_pos hRight
      rw [foldlM_cons_of_eq_ok hOpen, foldlM_cons_of_eq_ok hClose, found_concat_child]
      rfl
  | other hFirst hValue =>
      rw [List.foldlM_cons, step_value hFirst, ← List.foldlM_cons, found_concat_other]
      exact foldlM_of_leads (hValue.leads []) rfl _

/-- A member is read where a name is due, be it the first one or not. -/
theorem Member.read {mention : Mention} (h : Member tokens mention) {place : Place}
    (hPlace : place = .firstMember ∨ place = .name) :
    tokens.foldlM step (place, found mentions) =
      .ok (.separator, found (mentions ++ [mention])) := by
  obtain ⟨hName, hColon, hValue⟩ := h
  rename_i name colon tokens
  have hFirst : step (place, found mentions) name = .ok (.colon name.text, found mentions) := by
    rcases hPlace with rfl | rfl <;> simp [step, hName]
  have hSecond : step (.colon name.text, found mentions) colon =
      .ok (.value name.text, found mentions) :=
    if_pos hColon
  rw [foldlM_cons_of_eq_ok hFirst, foldlM_cons_of_eq_ok hSecond, hValue.read]

/-- Reading takes the tokens up to where a member is due, and finds the children mentioned there. -/
theorem Due.read (h : Due tokens mentions) : ∃ place, (place = .firstMember ∨ place = .name) ∧
    tokens.foldlM step (.opening, #[]) = .ok (place, found mentions) := by
  induction h with
  | @first brace hBrace =>
      have hOpen : step (.opening, #[]) brace = .ok (.firstMember, #[]) := if_pos hBrace
      exact ⟨.firstMember, Or.inl rfl, foldlM_cons_of_eq_ok hOpen []⟩
  | @next front tokens mentions mention comma _ hMember hComma ih =>
      obtain ⟨place, hPlace, hFront⟩ := ih
      have hNext : step (.separator, found (mentions ++ [mention])) comma =
          .ok (.name, found (mentions ++ [mention])) :=
        if_pos hComma
      refine ⟨.name, Or.inr rfl, ?_⟩
      rw [List.append_assoc, foldlM_append_of_eq_ok hFront,
        foldlM_append_of_eq_ok (hMember.read hPlace), foldlM_cons_of_eq_ok hNext]
      rfl

/-- The tokens of a listing are read to its end. -/
theorem Wire.read (h : Wire tokens mentions) :
    tokens.foldlM step (.opening, #[]) = .ok (.ending, found mentions) := by
  cases h with
  | @empty left right hLeft hRight =>
      have hOpen : step (.opening, #[]) left = .ok (.firstMember, #[]) := if_pos hLeft
      have hClose : step (.firstMember, #[]) right = .ok (.ending, #[]) := if_pos hRight
      rw [foldlM_cons_of_eq_ok hOpen, foldlM_cons_of_eq_ok hClose]
      rfl
  | @members front tokens mentions mention right hFront hMember hRight =>
      obtain ⟨place, hPlace, hRead⟩ := hFront.read
      have hClose : step (.separator, found (mentions ++ [mention])) right =
          .ok (.ending, found (mentions ++ [mention])) := by
        simp [step, hRight]
      rw [List.append_assoc, foldlM_append_of_eq_ok hRead,
        foldlM_append_of_eq_ok (hMember.read hPlace), foldlM_cons_of_eq_ok hClose]
      rfl

/-! ### Only listings are read -/

inductive Named : String → List Token → List Mention → Prop where
  | mk {front : List Token} {mentions : List Mention} {name colon : Token}
      (hDue : Due front mentions) (hName : name.kind = .string) (hColon : colon.kind = .colon) :
      Named name.text (front ++ [name, colon]) mentions

inductive Reads : Place → List Token → List Mention → Prop where
  | opening : Reads .opening [] []
  | firstMember {brace : Token} (hBrace : brace.kind = .leftBrace) : Reads .firstMember [brace] []
  | name {front : List Token} {mentions : List Mention} (hDue : Due front mentions) :
      Reads .name front mentions
  | colon {front : List Token} {mentions : List Mention} {name : Token} (hDue : Due front mentions)
      (hName : name.kind = .string) : Reads (.colon name.text) (front ++ [name]) mentions
  | value {name : String} {front : List Token} {mentions : List Mention}
      (hNamed : Named name front mentions) : Reads (.value name) front mentions
  | childEnd {name : String} {front : List Token} {mentions : List Mention} {brace : Token}
      (hNamed : Named name front mentions) (hBrace : brace.kind = .leftBrace) :
      Reads (.childEnd name) (front ++ [brace]) mentions
  | inside {name : String} {place : ValuePlace} {front rest : List Token} {first : Token}
      {mentions : List Mention} (hNamed : Named name front mentions)
      (hFirst : first.kind ≠ .leftBrace) (hPart : place.Reads ((first :: rest).map Token.kind)) :
      Reads (.inside place) (front ++ first :: rest) mentions
  | separator {front tokens : List Token} {mentions : List Mention} {mention : Mention}
      (hDue : Due front mentions) (hMember : Member tokens mention) :
      Reads .separator (front ++ tokens) (mentions ++ [mention])
  | ending {tokens : List Token} {mentions : List Mention} (h : Wire tokens mentions) :
      Reads .ending tokens mentions
  -- the end of the text is none of its tokens, so that nothing is to be said of this place
  | finished {tokens : List Token} {mentions : List Mention} : Reads .finished tokens mentions

section Step

variable {front : List Token} {token : Token} {next : State}

/-- The part of a listing behind one more token, and the children found in it. -/
def Continues (tokens : List Token) (state : State) : Prop :=
  ∃ mentions, Reads state.1 tokens mentions ∧ state.2 = found mentions

theorem Reads.continues {place : Place} (h : Reads place tokens mentions) :
    Continues tokens (place, found mentions) :=
  ⟨mentions, h, rfl⟩

/-- Behind the value of a member comes a separator. -/
theorem Named.separator {name : String} {mention : Mention} (h : Named name front mentions)
    (hValue : Says name tokens mention) :
    Reads .separator (front ++ tokens) (mentions ++ [mention]) := by
  obtain ⟨hDue, hName, hColon⟩ := h
  rw [List.append_assoc]
  exact .separator hDue (.mk hName hColon hValue)

/-- What is passed over leaves the children as they are. -/
theorem Named.continues_pass {name : String} {place : ValuePlace} {part rest : List Token}
    {first : Token} (h : Named name front mentions) (hPart : place.Reads (part.map Token.kind))
    (hTokens : part ++ [token] = first :: rest) (hFirst : first.kind ≠ .leftBrace)
    (hStep : (pass place token).map (fun place => (place, found mentions)) = .ok next) :
    Continues (front ++ (part ++ [token])) next := by
  obtain ⟨following, hPass, rfl⟩ := exists_of_map_eq_ok hStep
  have hKinds : part.map Token.kind ++ [token.kind] = (first :: rest).map Token.kind := by
    rw [← hTokens, List.map_append]
    rfl
  rw [hTokens]
  rw [pass] at hPass
  split at hPass
  · cases hPass
  · rename_i hEnd
    cases hPass
    have hValue := hPart.step hEnd
    rw [hKinds] at hValue
    exact ⟨_, h.separator (.other hFirst hValue), (found_concat_other mentions name).symm⟩
  · rename_i middle hMiddle
    cases hPass
    have hMore := hPart.step hMiddle
    rw [hKinds] at hMore
    exact (Reads.inside h hFirst hMore).continues

/-- Behind the opening brace, a token that is taken continues the listing. -/
theorem continues_firstMember {brace : Token} (hBrace : brace.kind = .leftBrace)
    (h : step (.firstMember, found []) token = .ok next) : Continues [brace, token] next := by
  simp only [step] at h
  split at h
  · rename_i hKind
    cases h
    exact (Reads.ending (.empty hBrace hKind)).continues
  · obtain ⟨hKind, rfl⟩ := Listing.kind_of_due h
    exact (Reads.colon (.first hBrace) hKind).continues

/-- Behind a colon, a token that is taken continues the listing. -/
theorem continues_value {name : String} (hNamed : Named name front mentions)
    (h : step (.value name, found mentions) token = .ok next) :
    Continues (front ++ [token]) next := by
  simp only [step] at h
  split at h
  · rename_i hKind
    cases h
    exact (Reads.childEnd hNamed hKind).continues
  · rename_i hFirst
    have hTokens : [] ++ [token] = [token] := rfl
    exact hNamed.continues_pass (.value .alone) hTokens hFirst h

/-- Behind a member, a token that is taken continues the listing. -/
theorem continues_separator {mention : Mention} (hDue : Due front mentions)
    (hMember : Member tokens mention)
    (h : step (.separator, found (mentions ++ [mention])) token = .ok next) :
    Continues (front ++ tokens ++ [token]) next := by
  simp only [step] at h
  split at h
  · rename_i hKind
    cases h
    exact (Reads.name (.next hDue hMember hKind)).continues
  · obtain ⟨hKind, rfl⟩ := Listing.kind_of_due h
    exact (Reads.ending (.members hDue hMember hKind)).continues

/-- One more token leads from a part of a listing to a part of a listing. -/
theorem Reads.step {place : Place} (h : Reads place tokens mentions)
    (hStep : Slice.step (place, found mentions) token = .ok next) :
    Continues (tokens ++ [token]) next := by
  cases h with
  | opening =>
      obtain ⟨hKind, rfl⟩ := Listing.kind_of_due hStep
      exact (Reads.firstMember hKind).continues
  | firstMember hBrace => exact continues_firstMember hBrace hStep
  | name hDue =>
      obtain ⟨hKind, rfl⟩ := Listing.kind_of_due hStep
      exact (Reads.colon hDue hKind).continues
  | colon hDue hName =>
      obtain ⟨hKind, rfl⟩ := Listing.kind_of_due hStep
      rw [List.append_assoc]
      exact (Reads.value (.mk hDue hName hKind)).continues
  | value hNamed => exact continues_value hNamed hStep
  | childEnd hNamed hBrace =>
      obtain ⟨hKind, rfl⟩ := Listing.kind_of_due hStep
      rw [List.append_assoc]
      exact ⟨_, hNamed.separator (.child hBrace hKind), (found_concat_child mentions _).symm⟩
  | inside hNamed hFirst hPart =>
      rw [List.append_assoc]
      exact hNamed.continues_pass hPart rfl hFirst hStep
  | separator hDue hMember => exact continues_separator hDue hMember hStep
  | ending =>
      obtain ⟨-, rfl⟩ := Listing.kind_of_due hStep
      exact Reads.finished.continues
  | finished => cases hStep

/-- Every place is reached on the tokens of a part of a listing. -/
theorem continues_of_foldlM {state : State}
    (h : tokens.foldlM Slice.step (.opening, #[]) = .ok state) : Continues tokens state := by
  induction tokens using List.reverseRecOn generalizing state with
  | nil =>
      cases h
      exact Reads.opening.continues
  | append_singleton front last ih =>
      obtain ⟨⟨place, names⟩, hFront, hLast⟩ := exists_of_foldlM_concat_eq_ok h
      obtain ⟨mentions, hReads, rfl⟩ := ih hFront
      exact hReads.step hLast

/-- No value goes on with the end of the text. -/
theorem pass_endingAt (place : ValuePlace) (position : Nat) :
    ∃ error, pass place (.endingAt position) = .error error := by
  rw [pass]
  split
  · exact ⟨_, rfl⟩
  · rename_i hEnd
    exact absurd rfl (ValuePlace.kind_ne_ending_of_step hEnd)
  · rename_i hMore
    exact absurd rfl (ValuePlace.kind_ne_ending_of_step hMore)

/-- The text may end behind a listing and nowhere else. -/
theorem step_endingAt {place : Place} {names : Array String} {position : Nat}
    (h : step (place, names) (.endingAt position) = .ok next) :
    place = .ending ∧ next = (.finished, names) := by
  cases place with
  | ending =>
      cases h
      exact ⟨rfl, rfl⟩
  | inside place =>
      obtain ⟨error, hPass⟩ := pass_endingAt place position
      rw [step, hPass] at h
      cases h
  | _ => cases h

end Step

/-! ### Whole texts -/

/-- The children in a text are those that it mentions. A text that does not have the grammar is
refused. -/
theorem ofString_eq_ok_iff {text : String} {names : List String} :
    ofString text = .ok names ↔ ∃ mentions, Spells text mentions ∧ mentioned mentions = names := by
  constructor
  · intro h
    obtain ⟨state, hRun, rfl⟩ := exists_of_map_eq_ok h
    obtain ⟨⟨place, names⟩, hFront, hEnd⟩ := exists_of_bind_eq_ok hRun
    split at hEnd
    · rename_i position hEnding
      obtain ⟨rfl, rfl⟩ := step_endingAt hEnd
      obtain ⟨mentions, hReads, rfl⟩ := continues_of_foldlM hFront
      cases hReads with
      | ending hWire => exact ⟨mentions, ⟨⟨position, hEnding⟩, hWire⟩, rfl⟩
    · cases hEnd
  · rintro ⟨mentions, ⟨⟨position, hEnding⟩, hWire⟩, rfl⟩
    rw [ofString, Tokens.run, hWire.read, hEnding]
    rfl

/-- What is read of a text is what it mentions. -/
theorem Spells.names_eq {text : String} (h : Spells text mentions) {names : List String}
    (hRead : ofString text = .ok names) : names = mentioned mentions :=
  Except.ok.inj (hRead.symm.trans (ofString_eq_ok_iff.mpr ⟨mentions, h, rfl⟩))

/-! ### A text for given mentions -/

/-- A member that is seen like this. What is no child is null. -/
def Mention.member : Mention → String × Json
  | .child name => (name, .object [])
  | .other name => (name, .null)

def document (mentions : List Mention) : Json :=
  .object (mentions.map Mention.member)

theorem member_tokens (mention : Mention) (offset : Nat) :
    Member (Json.memberTokens offset [mention.member]) mention := by
  cases mention with
  | child name => exact .mk rfl rfl (.child rfl rfl)
  | other name => exact .mk rfl rfl (.other nofun (.atom rfl))

/-- More members go between the ones before them and the closing brace. -/
theorem Due.wire {front : List Token} (h : Due front mentions) (first : Mention)
    (rest : List Mention) (offset : Nat) {right : Token} (hRight : right.kind = .rightBrace) :
    Wire (front ++ Json.memberTokens offset ((first :: rest).map Mention.member) ++ [right])
      (mentions ++ first :: rest) := by
  induction rest generalizing front mentions first offset with
  | nil => exact .members h (member_tokens first offset) hRight
  | cons second rest ih =>
      have hFront (start : Nat) : Due
          (front ++ Json.memberTokens offset [first.member] ++ [⟨.comma, ",", start⟩])
          (mentions ++ [first]) :=
        .next h (member_tokens first offset) rfl
      have hRest (start : Nat) := ih (hFront start) second
      simp only [List.append_assoc, List.singleton_append] at hRest
      rw [List.map_cons, List.map_cons, Json.memberTokens_cons, List.append_assoc,
        List.append_assoc, List.cons_append]
      exact hRest _ _

/-- For all mentions there is a text that has them. -/
theorem spells_document (mentions : List Mention) : Spells (document mentions).text mentions := by
  refine ⟨⟨_, congrArg Tokens.ending (Json.ofString_text _)⟩, ?_⟩
  rw [congrArg Tokens.front (Json.ofString_text _), document, Json.tokens]
  cases mentions with
  | nil => exact .empty rfl rfl
  | cons first rest =>
      have hBrace : (⟨.leftBrace, "\x7b", 0⟩ : Token).kind = .leftBrace := rfl
      exact (Due.first hBrace).wire first rest 1 rfl

end PinnedTree.Slice
