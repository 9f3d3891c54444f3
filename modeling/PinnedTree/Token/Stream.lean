import PinnedTree.Token.Spelling

/-!
All tokens of a text. Blanks before a token are skipped; the tokens end at the end of the text, or
at the first one that is misspelled.
-/

namespace PinnedTree

def Token.endingAt (position : Nat) : Token :=
  ⟨.ending, "", position⟩

def Lexeme.token (lexeme : Lexeme) (start : Nat) : Token :=
  ⟨lexeme.kind, String.ofList lexeme.text, start⟩

/-- A token cut off a text, with the rest of the text and the byte at which that starts. -/
structure TokenStep where
  token : Token
  offset : Nat
  rest : List Char
  deriving DecidableEq, Repr

def tokenStart (offset : Nat) (text : List Char) : Nat :=
  offset + Text.byteLength (text.takeWhile Lexeme.isBlank)

/-- The next token of a text that starts at the byte `offset`. -/
def nextToken (offset : Nat) (text : List Char) : Except ParseError TokenStep :=
  let start := tokenStart offset text
  match text.dropWhile Lexeme.isBlank with
  | [] => .ok ⟨.endingAt start, start, []⟩
  | c :: rest =>
    match Lexeme.ofText c rest with
    | .error fault => .error ⟨start, fault⟩
    | .ok lexeme =>
      .ok ⟨lexeme.token start, start + Text.byteLength lexeme.spelling, lexeme.rest⟩

theorem length_dropWhile_le {α : Type} (p : α → Bool) (list : List α) :
    (list.dropWhile p).length ≤ list.length :=
  (List.dropWhile_suffix p).length_le

/-- A token other than the end leaves less text than there was. -/
theorem nextToken_rest_lt {offset : Nat} {text : List Char} {step : TokenStep}
    (hRead : nextToken offset text = .ok step) (hKind : step.token.kind ≠ .ending) :
    step.rest.length < text.length := by
  have hShorter := length_dropWhile_le Lexeme.isBlank text
  simp only [nextToken] at hRead
  split at hRead
  · cases hRead
    exact absurd rfl hKind
  · rename_i c rest hBehind
    rw [hBehind, List.length_cons] at hShorter
    split at hRead
    · simp at hRead
    · rename_i lexeme hLexeme
      cases hRead
      exact Nat.lt_of_lt_of_le (Lexeme.ofText_rest_lt hLexeme) hShorter

/-- The tokens of a text, and then the byte at which it ends or the error that ends the tokens. -/
structure Tokens where
  front : List Token
  ending : Except ParseError Nat

namespace Tokens

def cons (token : Token) (tokens : Tokens) : Tokens :=
  { tokens with front := token :: tokens.front }

/-- The tokens of a text that starts at the byte `offset`. -/
def scan (offset : Nat) (text : List Char) : Tokens :=
  let start := tokenStart offset text
  match _hBehind : text.dropWhile Lexeme.isBlank with
  | [] => ⟨[], .ok start⟩
  | c :: rest =>
    match _hLexeme : Lexeme.ofText c rest with
    | .error fault => ⟨[], .error ⟨start, fault⟩⟩
    | .ok lexeme =>
      cons (lexeme.token start) (scan (start + Text.byteLength lexeme.spelling) lexeme.rest)
  termination_by text.length
  decreasing_by
    have hShorter := length_dropWhile_le Lexeme.isBlank text
    rw [_hBehind, List.length_cons] at hShorter
    exact Nat.lt_of_lt_of_le (Lexeme.ofText_rest_lt _hLexeme) hShorter

def ofString (text : String) : Tokens :=
  scan 0 text.toList

variable {ε σ : Type}

/-- Runs a machine over the tokens and over the end. A misspelled token is an error of its own. -/
def run (step : σ → Token → Except ε σ) (misspelled : ParseError → ε) (tokens : Tokens)
    (start : σ) : Except ε σ := do
  let last ← tokens.front.foldlM step start
  match tokens.ending with
  | .ok position => step last (.endingAt position)
  | .error error => .error (misspelled error)

end Tokens

end PinnedTree
