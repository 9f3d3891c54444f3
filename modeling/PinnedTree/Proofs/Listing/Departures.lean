import PinnedTree.Proofs.Listing.Acceptance
import PinnedTree.Proofs.Listing.Viable
import PinnedTree.Proofs.Token.Reached

/-! Where a text departs from the grammar. A text that is no listing is refused at the first token
with which no listing goes on. What stood before that token decides whether the error names the
token or only its place, and what stands behind it does not matter. -/
namespace PinnedTree

namespace Listing

open Text

/-! ### Values that are not allowed -/

/-- A token begins a scalar, whether or not it can be held as one. -/
def BeginsScalar (token : Token) : Prop :=
  token.kind = .string ∨ token.kind = .number ∨ token.kind = .true ∨ token.kind = .false

/-- A token begins the value of a member. -/
def BeginsValue (token : Token) : Prop :=
  token.kind = .leftBrace ∨ token.kind = .leftBracket ∨ BeginsScalar token

/-- An integer that no scalar holds. -/
structure OutOfRange (token : Token) : Prop where
  kind : token.kind = .number
  whole : ¬ IsFractional token.text
  range : ∃ value, integer? token.text.toList = some value ∧ ¬ Scalar.InLongRange value

/-- A number that counts nothing, or more than a word can count. -/
structure NoCount (token : Token) : Prop where
  kind : token.kind = .number
  count : ¬(IsDigits token.text.toList ∧ digitsValue token.text.toList < UInt64.size)

/-- A token that is refused as the value, or as a part of the value, that comes next. -/
inductive Unfit (front : List Token) (token : Token) : Prop where
  | value (hDue : ValueDue front) (hEnding : token.kind ≠ .ending) (hBegins : ¬ BeginsValue token)
  | item (hDue : ItemDue front) (hEnding : token.kind ≠ .ending) (hBegins : ¬ BeginsScalar token)
  | outOfRange (hDue : ValueDue front ∨ ItemDue front) (hRange : OutOfRange token)
  | total (hDue : TotalDue front) (hCount : NoCount token)

/-- What is refused as a value at this place. -/
def Place.Misfits (place : Place) (token : Token) : Prop :=
  match place with
  | .value _ => token.kind ≠ .ending ∧ ¬ BeginsValue token ∨ OutOfRange token
  | .firstItem _ | .item _ _ => token.kind ≠ .ending ∧ ¬ BeginsScalar token ∨ OutOfRange token
  | .total => NoCount token
  | _ => False

variable {front : List Token} {token : Token} {place : Place} {draft : Draft}
  {error : ListingError}

/-- The place of the reading says what is refused as a value. -/
theorem unfit_iff (h : front.foldlM step (.opening, {}) = .ok (place, draft)) :
    Unfit front token ↔ place.Misfits token := by
  constructor
  · intro hUnfit
    cases hUnfit with
    | value hDue hEnding hBegins =>
        obtain ⟨name, rfl⟩ := (valueDue_iff h).mp hDue
        exact Or.inl ⟨hEnding, hBegins⟩
    | item hDue hEnding hBegins =>
        obtain ⟨name, rfl⟩ | ⟨name, items, rfl⟩ := (itemDue_iff h).mp hDue
        · exact Or.inl ⟨hEnding, hBegins⟩
        · exact Or.inl ⟨hEnding, hBegins⟩
    | outOfRange hDue hRange =>
        rw [valueDue_iff h, itemDue_iff h] at hDue
        obtain ⟨name, rfl⟩ | ⟨name, rfl⟩ | ⟨name, items, rfl⟩ := hDue
        · exact Or.inr hRange
        · exact Or.inr hRange
        · exact Or.inr hRange
    | total hDue hCount =>
        obtain rfl := (totalDue_iff h).mp hDue
        exact hCount
  · intro hMisfits
    cases place with
    | value name =>
        have hDue := (valueDue_iff h).mpr ⟨name, rfl⟩
        rcases hMisfits with ⟨hEnding, hBegins⟩ | hRange
        · exact .value hDue hEnding hBegins
        · exact .outOfRange (Or.inl hDue) hRange
    | firstItem name =>
        have hDue := (itemDue_iff h).mpr (Or.inl ⟨name, rfl⟩)
        rcases hMisfits with ⟨hEnding, hBegins⟩ | hRange
        · exact .item hDue hEnding hBegins
        · exact .outOfRange (Or.inr hDue) hRange
    | item name items =>
        have hDue := (itemDue_iff h).mpr (Or.inr ⟨name, items, rfl⟩)
        rcases hMisfits with ⟨hEnding, hBegins⟩ | hRange
        · exact .item hDue hEnding hBegins
        · exact .outOfRange (Or.inr hDue) hRange
    | total => exact .total ((totalDue_iff h).mpr rfl) hMisfits
    | _ => exact hMisfits.elim

/-! ### Tokens that are refused -/

/-- An error is either about a token as a value, and names it, or about its place. -/
def Blames (token : Token) (unfit : Prop) (error : ListingError) : Prop :=
  unfit ∧ error = .unexpectedToken token.text ∨
    ¬ unfit ∧ ∃ fault, error = .malformed ⟨token.start, fault⟩

/-- When a token is refused for its kind, the error is about its place. -/
theorem blames_refuse {α : Type} {kind : TokenKind} {unfit : Prop} (hFit : ¬ unfit)
    (h : (refuse kind token : Except ListingError α) = .error error) :
    Blames token unfit error := by
  cases h
  exact Or.inr ⟨hFit, _, rfl⟩

/-- What is not a scalar is named, unless it is the end of the text. -/
theorem scalar_eq_error
    (hNumber : token.kind = .number → number? token.text = none → OutOfRange token)
    (h : scalar token = .error error) :
    (token.kind = .ending ∧ ∃ fault, error = .malformed ⟨token.start, fault⟩) ∨
      (token.kind ≠ .ending ∧ ¬ BeginsScalar token ∨ OutOfRange token) ∧
        error = .unexpectedToken token.text := by
  simp only [scalar] at h
  split at h
  · rename_i hKind
    split at h
    · cases h
    · rename_i hNone
      cases h
      exact Or.inr ⟨Or.inr (hNumber hKind hNone), rfl⟩
  · cases h
  · cases h
  · cases h
  · rename_i hKind
    cases h
    exact Or.inl ⟨hKind, _, rfl⟩
  · rename_i hNoNumber hNotTrue hNotFalse hNoString hNotEnding
    cases h
    exact Or.inr ⟨Or.inl ⟨hNotEnding, by simp_all [BeginsScalar]⟩, rfl⟩

theorem OutOfRange.kind_ne_ending (h : OutOfRange token) : token.kind ≠ .ending := by
  rw [h.kind]
  exact nofun

/-- A refused scalar is blamed where no more than a scalar may begin. -/
theorem blames_scalar
    (hNumber : token.kind = .number → number? token.text = none → OutOfRange token)
    (h : scalar token = .error error) :
    Blames token (token.kind ≠ .ending ∧ ¬ BeginsScalar token ∨ OutOfRange token) error := by
  rcases scalar_eq_error hNumber h with ⟨hEnding, hPlace⟩ | hNamed
  · refine Or.inr ⟨?_, hPlace⟩
    rintro (⟨hOther, -⟩ | hRange)
    · exact hOther hEnding
    · exact hRange.kind_ne_ending hEnding
  · exact Or.inl hNamed

theorem error_of_map {α β : Type} {change : α → β} {result : Except ListingError α}
    (h : result.map change = .error error) : result = .error error := by
  cases result with
  | error found => exact congrArg Except.error (Except.error.inj h)
  | ok value => cases h

/-- Every place blames the token that it refuses. -/
theorem blames_step
    (hNumber : token.kind = .number → number? token.text = none → OutOfRange token)
    (h : step (place, draft) token = .error error) :
    Blames token (place.Misfits token) error := by
  cases place with
  | total =>
      simp only [step] at h
      split at h
      · rename_i hKind
        split at h
        · cases h
        · rename_i hNone
          cases h
          refine Or.inl ⟨⟨hKind, ?_⟩, rfl⟩
          rintro ⟨hDigits, hSmall⟩
          cases hNone.symm.trans (count?_eq_some_iff.mpr ⟨hDigits, hSmall, rfl⟩)
      · rename_i hKind
        exact blames_refuse (fun hCount => hKind hCount.kind) h
  | value name =>
      simp only [step] at h
      split at h
      · cases h
      · rename_i hBrace
        split at h
        · cases h
        · rename_i hBracket
          have hScalar := blames_scalar hNumber (error_of_map h)
          have hBegins : BeginsValue token ↔ BeginsScalar token := by
            simp [BeginsValue, hBrace, hBracket]
          rw [← hBegins] at hScalar
          exact hScalar
  | firstItem name =>
      simp only [step] at h
      split at h
      · cases h
      · exact blames_scalar hNumber (error_of_map h)
  | item name items => exact blames_scalar hNumber (error_of_map h)
  | _ =>
      simp only [step] at h
      repeat' split at h
      all_goals first
        | cases h; done
        | exact blames_refuse id h

/-! ### Numbers of a text -/

/-- Without a point and without a mark of an exponent, a number is whole digits with an optional
minus. -/
theorem whole_of_mem {text : String} (h : token ∈ (Tokens.ofString text).front)
    (hKind : token.kind = .number) (hWhole : ¬ IsFractional token.text) :
    ∃ parts : NumberParts, parts.WellSpelled ∧ token.text.toList = parts.spell ∧
      parts.fractionText = [] ∧ parts.exponentText = [] := by
  obtain ⟨parts, hParts, hText⟩ := Tokens.number_of_mem h hKind
  rw [IsFractional, hText] at hWhole
  refine ⟨parts, hParts, hText, ?_, ?_⟩
  · cases hDigits : parts.fraction with
    | none => simp [NumberParts.fractionText, hDigits]
    | some digits =>
        refine absurd ⟨'.', ?_, Or.inl rfl⟩ hWhole
        simp [NumberParts.spell, NumberParts.fractionText, hDigits]
  · cases hParts' : parts.exponent with
    | none => simp [NumberParts.exponentText, hParts']
    | some exponent =>
        refine absurd ⟨exponent.mark, ?_, Or.inr (hParts.exponent exponent hParts').mark⟩ hWhole
        simp [NumberParts.spell, NumberParts.exponentText, hParts', ExponentParts.spell]

/-- Every number without a fraction and an exponent can be read as an integer. -/
theorem exists_integer {text : String} (h : token ∈ (Tokens.ofString text).front)
    (hKind : token.kind = .number) (hWhole : ¬ IsFractional token.text) :
    ∃ value, integer? token.text.toList = some value := by
  obtain ⟨parts, hParts, hText, hFraction, hExponent⟩ := whole_of_mem h hKind hWhole
  refine ⟨if parts.negative then -(digitsValue parts.whole : Int) else digitsValue parts.whole, ?_⟩
  rw [integer?, hText, NumberParts.splitSign_spell hParts, hFraction, hExponent]
  simp [natural?_of_isDigits hParts.whole]

/-- A number of a text that no scalar holds is an integer out of range. -/
theorem outOfRange_of_mem {text : String} (h : token ∈ (Tokens.ofString text).front)
    (hKind : token.kind = .number) (hNone : number? token.text = none) : OutOfRange token := by
  by_cases hFractional : IsFractional token.text
  · obtain ⟨value, hRead⟩ := Tokens.exists_double h hKind
    rw [number?_of_fractional hFractional, hRead] at hNone
    cases hNone
  · obtain ⟨value, hRead⟩ := exists_integer h hKind hFractional
    refine ⟨hKind, hFractional, value, hRead, fun hRange => ?_⟩
    rw [number?_of_whole hFractional, hRead] at hNone
    cases hNone.symm.trans (long?_eq_some_iff.mpr ⟨hRange, rfl⟩)

/-! ### The first departure -/

/-- Some listing starts with the tokens `front` of a text, and none goes on with what the text has
next. -/
structure Departs (text : String) (front : List Token) (next : Except ParseError Token) :
    Prop where
  reaches : (Tokens.ofString text).Reaches front next
  viable : Viable front
  departs : ∀ token, next = .ok token → ¬ Viable (front ++ [token])

/-- A text departs from the grammar once. -/
theorem Departs.unique {text : String} {other : List Token}
    {next following : Except ParseError Token} (h : Departs text front next)
    (hOther : Departs text other following) : other = front ∧ following = next := by
  rcases h.reaches.comparable hOther.reaches with
    ⟨hFront, hNext⟩ | ⟨token, hNext, rest, hRest⟩ | ⟨token, hNext, rest, hRest⟩
  · exact ⟨hFront.symm, hNext.symm⟩
  · have hViable := hOther.viable
    rw [← hRest] at hViable
    exact absurd hViable.of_append (h.departs token hNext)
  · have hViable := h.viable
    rw [← hRest] at hViable
    exact absurd hViable.of_append (hOther.departs token hNext)

/-- An error among the tokens is the answer whatever the limit is. -/
theorem ofString_eq_error {text : String}
    (h : (Tokens.ofString text).run step .malformed (.opening, {}) = .error error) (limit : Nat) :
    ofString limit text = .error error := by
  rw [ofString, Listing.draft, h]
  rfl

/-- A text is refused because it lists too many children, or by the run over its tokens. -/
theorem refused_by_counts_or_run {limit : Nat} {text : String}
    (h : ofString limit text = .error error) :
    (∃ entries, Spells text entries ∧ ¬ Fits limit entries) ∨
      (Tokens.ofString text).run step .malformed (.opening, {}) = .error error := by
  cases hRun : (Tokens.ofString text).run step .malformed (.opening, {}) with
  | error found =>
      obtain rfl := Except.error.inj ((ofString_eq_error hRun limit).symm.trans h)
      exact Or.inr rfl
  | ok state =>
      have hDraft : Listing.draft (.ofString text) = .ok state.2 := by
        rw [Listing.draft, hRun]
        rfl
      obtain ⟨entries, hSpells⟩ := exists_spells hDraft
      refine Or.inl ⟨entries, hSpells, fun hFits => ?_⟩
      obtain ⟨listing, hListing⟩ := hSpells.exists_listing hFits
      cases h.symm.trans hListing

/-- Where reading fails behind tokens that it has taken, the text departs from all listings. -/
theorem departs_of_advance {text : String} {next : Except ParseError Token}
    (hReaches : (Tokens.ofString text).Reaches front next)
    (hFront : front.foldlM step (.opening, {}) = .ok (place, draft))
    (hNext : Tokens.advance step .malformed (place, draft) next = .error error) :
    Departs text front next := by
  obtain ⟨rest, hText, -⟩ := id hReaches
  refine ⟨hReaches, viable_of_foldlM (fun token hToken => ?_) hFront, ?_⟩
  · exact Tokens.kind_ne_ending_of_mem (hText ▸ List.mem_append_left rest hToken)
  · rintro token rfl
    exact not_viable_of_error hFront hNext

end Listing

/-- A text that is refused is a listing with too many children, or there is one token at which it
departs from the grammar: some listing starts with the tokens before it, and none goes on with it.
If the token is misspelled, the error says so at the byte where it starts. If not, the error names
the token exactly if it is refused as a value, and else it has the byte where the token starts; and
every text that has the same tokens up to this one is refused with the same error. -/
theorem refused_at_departure {limit : Nat} {text : String} {error : ListingError}
    (h : Listing.ofString limit text = .error error) :
    (∃ entries, Listing.Spells text entries ∧ ¬ Listing.Fits limit entries) ∨
      ∃ front next, Listing.Departs text front next ∧
        (∀ other following, Listing.Departs text other following →
          other = front ∧ following = next) ∧
        (∀ misspelling, next = .error misspelling →
          Tokens.Misspelled 0 text.toList misspelling ∧ error = .malformed misspelling) ∧
        ∀ token, next = .ok token →
          ((Listing.Unfit front token ∧ error = .unexpectedToken token.text) ∨
            ¬ Listing.Unfit front token ∧ ∃ fault, error = .malformed ⟨token.start, fault⟩) ∧
          ∀ bound other, (Tokens.ofString other).Reaches front (.ok token) →
            Listing.ofString bound other = .error error := by
  rcases Listing.refused_by_counts_or_run h with hCounts | hRun
  · exact Or.inl hCounts
  · obtain ⟨front, next, ⟨place, draft⟩, hReaches, hFront, hNext⟩ :=
      Tokens.exists_of_run_eq_error hRun
    have hDeparts := Listing.departs_of_advance hReaches hFront hNext
    refine Or.inr ⟨front, next, hDeparts, fun _ _ => hDeparts.unique, ?_, ?_⟩
    · rintro misspelling rfl
      exact ⟨Tokens.misspelled_of_scan hReaches.ending, (Except.error.inj hNext).symm⟩
    · rintro token rfl
      refine ⟨?_, fun bound other hOther =>
        Listing.ofString_eq_error (hOther.run_eq_error hFront hNext) bound⟩
      rw [Listing.unfit_iff hFront]
      refine Listing.blames_step (fun hKind hNone => ?_) hNext
      rcases hReaches.mem with hMem | hEnding
      · exact Listing.outOfRange_of_mem hMem hKind hNone
      · cases hKind.symm.trans hEnding

/-- A null stands where a value is due, and is named. -/
theorem refused_at_departure_sample :
    Listing.ofString 5 (Json.object [("a", .null)]).text = .error (.unexpectedToken "null") ∧
      ∃ front token, Listing.Departs (Json.object [("a", .null)]).text front (.ok token) ∧
        Listing.Unfit front token ∧ token.text = "null" := by
  have hDraft : Listing.draft (.ofString (Json.object [("a", .null)]).text) =
      .error (.unexpectedToken "null") := by
    rw [Json.ofString_text]
    rfl
  have hRefused : Listing.ofString 5 (Json.object [("a", .null)]).text =
      .error (.unexpectedToken "null") := by
    rw [Listing.ofString, hDraft]
    rfl
  refine ⟨hRefused, ?_⟩
  rcases refused_at_departure hRefused with ⟨entries, hSpells, -⟩ | ⟨front, next, hDeparts, -,
    hMisspelled, hToken⟩
  · cases hSpells.draft.symm.trans hDraft
  · cases next with
    | error misspelling => cases (hMisspelled misspelling rfl).2
    | ok token =>
        obtain ⟨⟨hUnfit, hNamed⟩ | ⟨-, fault, hPlace⟩, -⟩ := hToken token rfl
        · exact ⟨front, token, hDeparts, hUnfit, (ListingError.unexpectedToken.inj hNamed).symm⟩
        · cases hPlace

end PinnedTree
