import PinnedTree.Proofs.Listing.Places

/-! Tokens that a listing can start with. They are those that the reading takes, and what they leave
to come decides at which place the reading is after them. -/
namespace PinnedTree.Listing

open Text

/-- The tokens of a listing with the end of its text. -/
inductive Sentence : List Token → Prop where
  | mk {tokens : List Token} {entries : List Entry} {ending : Token} (hWire : Wire tokens entries)
      (hEnding : ending.kind = .ending) : Sentence (tokens ++ [ending])

/-- Some listing starts with these tokens. -/
def Viable (tokens : List Token) : Prop :=
  ∃ rest, Sentence (tokens ++ rest)

/-- The value of a member comes next, and it is not the number of children. -/
def ValueDue (front : List Token) : Prop :=
  ∃ name entries, name ≠ childNodeCount ∧ Named name front entries

/-- The number of children comes next. -/
def TotalDue (front : List Token) : Prop :=
  ∃ entries, Named childNodeCount front entries

/-- A scalar of an array comes next. It may be left out only right behind the bracket. -/
inductive ItemDue : List Token → Prop where
  | first {name : String} {tokens : List Token} {entries : List Entry} {bracket : Token}
      (hName : name ≠ childNodeCount) (hNamed : Named name tokens entries)
      (hBracket : bracket.kind = .leftBracket) : ItemDue (tokens ++ [bracket])
  | next {name : String} {tokens items : List Token} {entries : List Entry} {values : List Scalar}
      {comma : Token} (hName : name ≠ childNodeCount) (hNamed : Named name tokens entries)
      (hItems : Items items values) (hComma : comma.kind = .comma) :
      ItemDue (tokens ++ items ++ [comma])

def sample (kind : TokenKind) : Token :=
  ⟨kind, "", 0⟩

theorem kind_sample (kind : TokenKind) : (sample kind).kind = kind := rfl

variable {tokens front : List Token} {entries : List Entry} {token : Token}

/-! ### Tokens that are taken can go on -/

/-- The start of what a listing starts with is one too. -/
theorem Viable.of_append {rest : List Token} (h : Viable (front ++ rest)) : Viable front := by
  obtain ⟨more, hSentence⟩ := h
  rw [List.append_assoc] at hSentence
  exact ⟨rest ++ more, hSentence⟩

theorem Wire.viable (h : Wire tokens entries) : Viable tokens :=
  ⟨[.endingAt 0], .mk h rfl⟩

theorem Opened.viable (h : Opened tokens entries) : Viable tokens := by
  have hClosed := Wire.members h (kind_sample .rightBrace)
  exact hClosed.viable.of_append

/-- Every name can have a value. -/
theorem exists_says (name : String) : ∃ value entry, Says name value entry := by
  by_cases hName : name = childNodeCount
  · have hCount : digitsValue "0".toList < UInt64.size := by decide
    exact ⟨[⟨.number, "0", 0⟩], _, .total hName rfl (by decide) hCount⟩
  · exact ⟨_, _, .child hName (kind_sample .leftBrace) (kind_sample .rightBrace)⟩

/-- Behind a name, a value and the closing brace make a listing. -/
theorem Named.viable {name : String} (h : Named name tokens entries) : Viable tokens := by
  obtain ⟨value, entry, hValue⟩ := exists_says name
  exact (h.opened hValue).viable.of_append

/-- Where a member is due, one more and the closing brace make a listing. -/
theorem Due.viable (h : Due tokens entries) : Viable tokens := by
  have hNamed := Named.mk h (kind_sample .string) (kind_sample .colon)
  exact hNamed.viable.of_append

/-- An array that has been read up to a scalar can be read to its end. -/
theorem Items.viable {name : String} {items : List Token} {values : List Scalar}
    (h : Items items values) (hName : name ≠ childNodeCount) (hNamed : Named name tokens entries) :
    Viable (tokens ++ items) := by
  have hArray := Says.many hName h (kind_sample .rightBracket)
  have hOpened := hNamed.opened hArray
  rw [← List.append_assoc] at hOpened
  exact hOpened.viable.of_append

/-- Every place before the end of the text lies in a listing. -/
theorem Reads.viable {place : Place} (h : Reads place tokens entries) (hPlace : place ≠ .finished) :
    Viable tokens := by
  cases h with
  | opening => exact (Due.first (kind_sample .leftBrace)).viable.of_append
  | firstMember hBrace => exact (Due.first hBrace).viable
  | name hFront hComma => exact (Due.next hFront hComma).viable
  | colon hDue hName =>
      have hNamed := Named.mk hDue hName (kind_sample .colon)
      rw [List.append_cons] at hNamed
      exact hNamed.viable.of_append
  | total hNamed | value hName hNamed => exact hNamed.viable
  | childEnd hName hNamed hBrace =>
      have hChild := Says.child hName hBrace (kind_sample .rightBrace)
      have hOpened := hNamed.opened hChild
      rw [List.append_cons] at hOpened
      exact hOpened.viable.of_append
  | firstItem hName hNamed hBracket =>
      have hNone := Says.none hName hBracket (kind_sample .rightBracket)
      have hOpened := hNamed.opened hNone
      rw [List.append_cons] at hOpened
      exact hOpened.viable.of_append
  | item hName hNamed hItems hComma =>
      have hNext := Items.next hItems hComma (.true (kind_sample .true))
      have hViable := hNext.viable hName hNamed
      rw [← List.append_assoc, List.append_cons] at hViable
      exact hViable.of_append
  | itemSeparator hName hNamed hItems => exact hItems.viable hName hNamed
  | separator hOpened => exact hOpened.viable
  | ending hWire => exact hWire.viable
  | finished => exact absurd rfl hPlace

/-- The reading is finished by the end of the text alone. -/
theorem kind_of_finished {place : Place} {draft after : Draft}
    (h : step (place, draft) token = .ok (.finished, after)) : token.kind = .ending := by
  cases place with
  | ending => exact (kind_of_due h).1
  | value name =>
      simp only [step] at h
      split at h
      · cases h
      · split at h
        · cases h
        · obtain ⟨value, -, hState⟩ := exists_of_map_eq_ok h
          cases hState
  | firstItem name =>
      simp only [step] at h
      split at h
      · cases h
      · obtain ⟨value, -, hState⟩ := exists_of_map_eq_ok h
        cases hState
  | item name items =>
      obtain ⟨value, -, hState⟩ := exists_of_map_eq_ok h
      cases hState
  | colon name =>
      obtain ⟨-, hState⟩ := kind_of_due h
      have hPlace : valuePlace name = .finished := congrArg Prod.fst hState
      rw [valuePlace] at hPlace
      split at hPlace
      · cases hPlace
      · cases hPlace
  | _ =>
      simp only [step, refuse] at h
      repeat' split at h
      all_goals cases h

/-- As long as the text has not ended, the tokens that are taken can go on to a listing. -/
theorem viable_of_foldlM {state : State} (hTokens : ∀ token ∈ tokens, token.kind ≠ .ending)
    (h : tokens.foldlM step (.opening, {}) = .ok state) : Viable tokens := by
  obtain ⟨place, draft⟩ := state
  obtain ⟨entries, hReads, -⟩ := continues_of_foldlM h
  refine hReads.viable ?_
  rintro rfl
  -- The last token would be the end of the text.
  cases hSplit : tokens using List.reverseRecOn with
  | nil =>
      rw [hSplit] at h
      cases h
  | append_singleton front last =>
      rw [hSplit] at h
      obtain ⟨middle, -, hLast⟩ := exists_of_foldlM_concat_eq_ok h
      exact hTokens last (by simp [hSplit]) (kind_of_finished hLast)

/-! ### Tokens that are refused cannot -/

/-- The decoder takes all tokens of a listing. -/
theorem Sentence.read (h : Sentence tokens) :
    ∃ state, tokens.foldlM step (.opening, {}) = .ok state := by
  obtain ⟨hWire, hEnding⟩ := h
  rename_i front entries ending
  have hStep : step (.ending, .ofEntries entries) ending =
      .ok (.finished, .ofEntries entries) := if_pos hEnding
  exact ⟨_, (foldlM_append_of_eq_ok hWire.read [ending]).trans (foldlM_cons_of_eq_ok hStep [])⟩

/-- The decoder takes all tokens that a listing can start with. -/
theorem Viable.read (h : Viable tokens) :
    ∃ state, tokens.foldlM step (.opening, {}) = .ok state := by
  obtain ⟨rest, hSentence⟩ := h
  obtain ⟨state, hRead⟩ := hSentence.read
  rw [List.foldlM_append] at hRead
  obtain ⟨middle, hTokens, -⟩ := exists_of_bind_eq_ok hRead
  exact ⟨middle, hTokens⟩

/-- No listing goes on with a token that is refused. -/
theorem not_viable_of_error {state : State} {error : ListingError}
    (hFront : front.foldlM step (.opening, {}) = .ok state) (h : step state token = .error error) :
    ¬ Viable (front ++ [token]) := by
  intro hViable
  obtain ⟨after, hRead⟩ := hViable.read
  obtain ⟨middle, hMiddle, hLast⟩ := exists_of_foldlM_concat_eq_ok hRead
  obtain rfl := Except.ok.inj (hFront.symm.trans hMiddle)
  cases h.symm.trans hLast

/-! ### What comes next -/

theorem Due.read (h : Due front entries) : ∃ place, (place = .firstMember ∨ place = .name) ∧
    front.foldlM step (.opening, {}) = .ok (place, .ofEntries entries) := by
  cases h with
  | @first brace hBrace =>
      have hOpen : step (.opening, {}) brace = .ok (.firstMember, {}) := by simp [step, hBrace]
      exact ⟨_, Or.inl rfl, foldlM_cons_of_eq_ok hOpen []⟩
  | @next front entries comma hFront hComma =>
      have hNext : step (.separator, .ofEntries entries) comma =
          .ok (.name, .ofEntries entries) := by
        simp [step, hComma]
      exact ⟨_, Or.inr rfl, (foldlM_append_of_eq_ok hFront.read [comma]).trans
        (foldlM_cons_of_eq_ok hNext [])⟩

theorem Named.read {name : String} (h : Named name front entries) :
    front.foldlM step (.opening, {}) = .ok (valuePlace name, .ofEntries entries) := by
  obtain ⟨hDue, hName, hColon⟩ := h
  rename_i front name colon
  obtain ⟨place, hPlace, hFront⟩ := hDue.read
  have hFirst : step (place, .ofEntries entries) name =
      .ok (.colon name.text, .ofEntries entries) := by
    rcases hPlace with rfl | rfl
    · simp [step, hName]
    · simp [step, hName]
  have hSecond : step (.colon name.text, .ofEntries entries) colon =
      .ok (valuePlace name.text, .ofEntries entries) := by
    simp [step, hColon, valuePlace]
  rw [foldlM_append_of_eq_ok hFront, foldlM_cons_of_eq_ok hFirst, foldlM_cons_of_eq_ok hSecond]
  rfl

section Next

variable {place : Place} {draft : Draft}

/-- A value is due exactly where the decoder is at the place for one. -/
theorem valueDue_iff (h : front.foldlM step (.opening, {}) = .ok (place, draft)) :
    ValueDue front ↔ ∃ name, place = .value name := by
  constructor
  · rintro ⟨name, entries, hName, hNamed⟩
    have hSame := Except.ok.inj (h.symm.trans hNamed.read)
    rw [valuePlace, if_neg hName] at hSame
    exact ⟨name, congrArg Prod.fst hSame⟩
  · rintro ⟨name, rfl⟩
    obtain ⟨entries, hReads, -⟩ := continues_of_foldlM h
    cases hReads with
    | value hName hNamed => exact ⟨name, entries, hName, hNamed⟩

/-- The total is due exactly where the decoder is at the place for it. -/
theorem totalDue_iff (h : front.foldlM step (.opening, {}) = .ok (place, draft)) :
    TotalDue front ↔ place = .total := by
  constructor
  · rintro ⟨entries, hNamed⟩
    have hSame := Except.ok.inj (h.symm.trans hNamed.read)
    rw [valuePlace, if_pos rfl] at hSame
    exact congrArg Prod.fst hSame
  · rintro rfl
    obtain ⟨entries, hReads, -⟩ := continues_of_foldlM h
    cases hReads with
    | total hNamed => exact ⟨entries, hNamed⟩

/-- An item is due exactly where the decoder is at a place for one. -/
theorem itemDue_iff (h : front.foldlM step (.opening, {}) = .ok (place, draft)) :
    ItemDue front ↔ (∃ name, place = .firstItem name) ∨ ∃ name items, place = .item name items := by
  constructor
  · intro hDue
    cases hDue with
    | @first name tokens entries bracket hName hNamed hBracket =>
        have hOpen : step (.value name, .ofEntries entries) bracket =
            .ok (.firstItem name, .ofEntries entries) := by
          simp [step, hBracket]
        have hRead := hNamed.read
        rw [valuePlace, if_neg hName] at hRead
        rw [foldlM_append_of_eq_ok hRead, foldlM_cons_of_eq_ok hOpen] at h
        cases h
        exact Or.inl ⟨name, rfl⟩
    | @next name tokens items entries values comma hName hNamed hItems hComma =>
        have hNext : step (.itemSeparator name values, .ofEntries entries) comma =
            .ok (.item name values, .ofEntries entries) := by
          simp [step, hComma]
        have hRead := hNamed.read
        rw [valuePlace, if_neg hName] at hRead
        rw [List.append_assoc, foldlM_append_of_eq_ok hRead,
          foldlM_append_of_eq_ok (hItems.read name), foldlM_cons_of_eq_ok hNext] at h
        cases h
        exact Or.inr ⟨name, values, rfl⟩
  · obtain ⟨entries, hReads, -⟩ := continues_of_foldlM h
    rintro (⟨name, rfl⟩ | ⟨name, items, rfl⟩)
    · cases hReads with
      | firstItem hName hNamed hBracket => exact .first hName hNamed hBracket
    · cases hReads with
      | item hName hNamed hItems hComma => exact .next hName hNamed hItems hComma

end Next

end PinnedTree.Listing
