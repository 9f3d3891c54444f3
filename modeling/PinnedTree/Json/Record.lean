import PinnedTree.Json.Reader
import PinnedTree.Token.Value

/-!
Records in JSON text: known fields, all of which may be missing. A record is an object, or an array
of the fields in order. A known field that comes twice is refused; an unknown one is passed over,
and its value only has to keep the grammar of JSON.
-/

namespace PinnedTree.Json.Record

/-- What follows a string that has been opened. Escaped code units need not make up characters. -/
def skimString? : List Char → Option (List Char)
  | [] => none
  | c :: rest =>
    if c = '"' then some rest
    else if c = '\\' then
      match _hShape : rest with
      | [] => none
      | mark :: more =>
        if (Lexeme.shortEscape? mark).isSome then skimString? more
        else if mark = 'u' ∧ (Lexeme.codeUnit? more).isSome then skimString? (more.drop 4)
        else none
    else if c.toNat < 0x20 then none
    else skimString? rest
  termination_by text => text.length
  decreasing_by
    · simp only [List.length_cons]
      omega
    · simp only [List.length_cons, List.length_drop]
      omega
    · simp

theorem skimString?_length {text rest : List Char} (hSkim : skimString? text = some rest) :
    rest.length < text.length := by
  fun_induction skimString? text <;> simp_all <;> omega

/-- The kind of the next token of a value that is passed over, and what follows it. -/
def skimToken? (text : List Char) : Option (TokenKind × List Char) :=
  match text.dropWhile Lexeme.isBlank with
  | [] => none
  | c :: rest =>
    if c = '"' then (skimString? rest).map fun rest => (.string, rest)
    else match Lexeme.ofText c rest with
      | .error _ => none
      | .ok lexeme => if lexeme.kind = .identifier then none else some (lexeme.kind, lexeme.rest)

theorem skimToken?_length {text rest : List Char} {kind : TokenKind}
    (hSkim : skimToken? text = some (kind, rest)) : rest.length < text.length := by
  have hShorter := (List.dropWhile_suffix (l := text) Lexeme.isBlank).length_le
  unfold skimToken? at hSkim
  split at hSkim
  · simp at hSkim
  rename_i c tail hBehind
  rw [hBehind, List.length_cons] at hShorter
  split at hSkim
  · obtain ⟨left, hString, hSame⟩ := Option.map_eq_some_iff.1 hSkim
    cases hSame
    have hLeft := skimString?_length hString
    omega
  · split at hSkim
    · simp at hSkim
    · rename_i lexeme hLexeme
      have hLeft := Lexeme.ofText_rest_lt hLexeme
      split at hSkim
      · simp at hSkim
      · cases hSkim
        omega

/-- What follows a value that has been read up to some place. -/
def skimFrom? (place : ValuePlace) (text : List Char) : Option (List Char) :=
  match _hSkim : skimToken? text with
  | none => none
  | some (kind, rest) =>
    match place.step ⟨kind, "", 0⟩ with
    | .error _ => none
    | .ok none => some rest
    | .ok (some next) => skimFrom? next rest
  termination_by text.length
  decreasing_by exact skimToken?_length _hSkim

variable {α : Type}

/-- The members of an object up to its end, at least one, after the known fields read before. -/
def readMembers? (fields : List String) (convert : Json → Option α) :
    Nat → Members α → List Char → Option (Members α × List Char)
  | 0, _, _ => none
  | fuel + 1, known, text => do
    let (name, rest) ← readString? text
    let rest ← after? .colon rest
    let (known, rest) ←
      if name ∈ fields then
        if name ∈ known.names then none
        else do
          let (value, rest) ← valueAt? rest
          let value ← convert value
          some (known.put name value, rest)
      else do
        let rest ← skimFrom? .start rest
        some (known, rest)
    match after? .comma rest with
    | some rest => readMembers? fields convert fuel known rest
    | none =>
      let rest ← after? .rightBrace rest
      some (known, rest)

/-- The items of an array up to its end, at least one, as the fields in order. -/
def readItems? (convert : Json → Option α) :
    List String → Members α → List Char → Option (Members α × List Char)
  | [], _, _ => none
  | field :: fields, known, text => do
    let (value, rest) ← valueAt? text
    let value ← convert value
    let known := known.put field value
    match after? .comma rest with
    | some rest => readItems? convert fields known rest
    | none =>
      let rest ← after? .rightBracket rest
      some (known, rest)

/-- Reads the record that fills a text: the fields that it gives. -/
def read? (fields : List String) (convert : Json → Option α) (text : List Char) :
    Option (Members α) := do
  let start ← lexeme? text
  let (known, rest) ←
    match start.kind with
    | .leftBrace =>
      match after? .rightBrace start.rest with
      | some rest => some ([], rest)
      | none => readMembers? fields convert start.rest.length [] start.rest
    | .leftBracket =>
      match after? .rightBracket start.rest with
      | some rest => some ([], rest)
      | none => readItems? convert fields [] start.rest
    | _ => none
  if isExhausted rest then some known else none

end PinnedTree.Json.Record
