import PinnedTree.Proofs.Token.Lookahead

/-! How far a machine gets in a text. A run that fails has taken some tokens and is refused at the
one behind them, or that one is misspelled. What comes after it does not matter. -/
namespace PinnedTree

namespace Tokens

/-- The text has these tokens first, and then `next`, which is an error if it is misspelled. -/
def Reaches (tokens : Tokens) (front : List Token) (next : Except ParseError Token) : Prop :=
  ∃ rest, tokens.front = front ++ rest ∧ Tokens.next ⟨rest, tokens.ending⟩ = next

theorem reaches_nil (tokens : Tokens) : tokens.Reaches [] tokens.next :=
  ⟨tokens.front, rfl, rfl⟩

/-- A token in front of a text is reached first. -/
theorem Reaches.cons {tokens : Tokens} {front : List Token} {next : Except ParseError Token}
    (h : tokens.Reaches front next) (token : Token) :
    (Tokens.cons token tokens).Reaches (token :: front) next := by
  obtain ⟨rest, hFront, hNext⟩ := h
  exact ⟨rest, congrArg (token :: ·) hFront, hNext⟩

/-- A token that is reached is one of the text, or the end. -/
theorem Reaches.mem {tokens : Tokens} {front : List Token} {token : Token}
    (h : tokens.Reaches front (.ok token)) : token ∈ tokens.front ∨ token.kind = .ending := by
  obtain ⟨rest, hFront, hNext⟩ := h
  cases rest with
  | nil =>
      obtain ⟨position, -, rfl⟩ := exists_of_map_eq_ok hNext
      exact Or.inr rfl
  | cons first rest =>
      cases hNext
      exact Or.inl (hFront ▸ List.mem_append_right front List.mem_cons_self)

theorem Reaches.ending {tokens : Tokens} {front : List Token} {error : ParseError}
    (h : tokens.Reaches front (.error error)) : tokens.ending = .error error := by
  obtain ⟨rest, -, hNext⟩ := h
  cases rest with
  | nil =>
      cases hEnding : tokens.ending with
      | ok position =>
          simp only [next, hEnding] at hNext
          cases hNext
      | error found =>
          simp only [next, hEnding] at hNext
          exact congrArg Except.error (Except.error.inj hNext)
  | cons first rest => cases hNext

/-- One of two stretches of a text goes on with what the other one reaches. -/
theorem Reaches.comparable {tokens : Tokens} {front other : List Token}
    {next following : Except ParseError Token} (h : tokens.Reaches front next)
    (hOther : tokens.Reaches other following) :
    (front = other ∧ next = following) ∨
      (∃ token, next = .ok token ∧ front ++ [token] <+: other) ∨
      ∃ token, following = .ok token ∧ other ++ [token] <+: front := by
  obtain ⟨rest, hFront, rfl⟩ := h
  obtain ⟨more, hMore, rfl⟩ := hOther
  rcases List.append_eq_append_iff.mp (hFront.symm.trans hMore) with
    ⟨middle, rfl, rfl⟩ | ⟨middle, rfl, rfl⟩
  · cases middle with
    | nil => exact Or.inl ⟨(List.append_nil front).symm, rfl⟩
    | cons token middle => exact Or.inr (Or.inl ⟨token, rfl, by simp⟩)
  · cases middle with
    | nil => exact Or.inl ⟨List.append_nil other, rfl⟩
    | cons token middle => exact Or.inr (Or.inr ⟨token, rfl, by simp⟩)

/-! ### Runs that fail -/

section Run

variable {ε σ : Type} {step : σ → Token → Except ε σ} {misspelled : ParseError → ε}

/-- What a machine makes of the next token. -/
def advance (step : σ → Token → Except ε σ) (misspelled : ParseError → ε) (state : σ)
    (next : Except ParseError Token) : Except ε σ :=
  (next.mapError misspelled).bind (step state)

theorem run_nil (ending : Except ParseError Nat) (start : σ) :
    run step misspelled ⟨[], ending⟩ start =
      advance step misspelled start (Tokens.next ⟨[], ending⟩) := by
  cases ending <;> rfl

/-- A run fails at the first token that the machine does not take. -/
theorem exists_of_run_eq_error {tokens : Tokens} {start : σ} {error : ε}
    (h : tokens.run step misspelled start = .error error) :
    ∃ front next state, tokens.Reaches front next ∧ front.foldlM step start = .ok state ∧
      advance step misspelled state next = .error error := by
  obtain ⟨list, ending⟩ := tokens
  induction list generalizing start with
  | nil =>
      rw [run_nil] at h
      exact ⟨[], _, start, reaches_nil _, rfl, h⟩
  | cons token rest ih =>
      cases hStep : step start token with
      | error found =>
          refine ⟨[], _, start, reaches_nil _, rfl, ?_⟩
          rw [run, List.foldlM_cons, hStep] at h
          cases h
          exact hStep
      | ok state =>
          rw [run, foldlM_cons_of_eq_ok hStep] at h
          obtain ⟨front, next, last, hReaches, hFront, hNext⟩ := ih h
          exact ⟨token :: front, next, last, hReaches.cons token,
            (foldlM_cons_of_eq_ok hStep front).trans hFront, hNext⟩

/-- A run that comes to such a token fails there, whatever follows it. -/
theorem Reaches.run_eq_error {tokens : Tokens} {front : List Token}
    {next : Except ParseError Token} (h : tokens.Reaches front next) {start state : σ}
    (hFront : front.foldlM step start = .ok state) {error : ε}
    (hNext : advance step misspelled state next = .error error) :
    tokens.run step misspelled start = .error error := by
  obtain ⟨list, ending⟩ := tokens
  obtain ⟨rest, rfl, rfl⟩ := h
  rw [run, foldlM_append_of_eq_ok hFront]
  cases rest with
  | nil =>
      rw [← run_nil] at hNext
      exact hNext
  | cons token rest =>
      have hStep : step state token = .error error := hNext
      rw [List.foldlM_cons, hStep]
      rfl

end Run

/-! ### Misspelled tokens -/

/-- In a text that starts at the byte `offset`, a token starts where the error is, and cannot be
spelled so. -/
def Misspelled (offset : Nat) (text : List Char) (error : ParseError) : Prop :=
  ∃ before c rest, text = before ++ c :: rest ∧ Lexeme.isBlank c = false ∧
    error.position = offset + Text.byteLength before ∧ Lexeme.ofText c rest = .error error.fault

/-- The tokens end early only where a token starts that cannot be spelled. -/
theorem misspelled_of_scan {offset : Nat} {text : List Char} {error : ParseError}
    (h : (scan offset text).ending = .error error) :
    Misspelled offset text error := by
  induction offset, text using scan.induct with
  | case1 offset text hBlank =>
      rw [scan_eq, nextToken] at h
      simp [hBlank, Token.endingAt] at h
  | case2 offset text c rest hText fault hFault =>
      rw [scan_eq, nextToken] at h
      simp only [hText, hFault] at h
      obtain rfl := Except.error.inj h
      have hFirst := List.head?_dropWhile_not Lexeme.isBlank text
      rw [hText] at hFirst
      refine ⟨text.takeWhile Lexeme.isBlank, c, rest, ?_, hFirst, rfl, hFault⟩
      rw [← hText, List.takeWhile_append_dropWhile]
  | case3 offset text start c rest hText lexeme hLexeme ih =>
      have hKind : (lexeme.token (tokenStart offset text)).kind ≠ .ending :=
        Lexeme.kind_ne_ending hLexeme
      rw [scan_eq, nextToken] at h
      simp only [hText, hLexeme, if_neg hKind] at h
      obtain ⟨before, first, others, hRest, hBlank, hPosition, hFault⟩ := ih h
      have hSplit : text = text.takeWhile Lexeme.isBlank ++ (lexeme.spelling ++ lexeme.rest) := by
        rw [(Lexeme.ofText_spelling hLexeme).1, ← hText, List.takeWhile_append_dropWhile]
      refine ⟨text.takeWhile Lexeme.isBlank ++ (lexeme.spelling ++ before), first, others, ?_,
        hBlank, ?_, hFault⟩
      · rw [List.append_assoc, List.append_assoc, ← hRest]
        exact hSplit
      · rw [hPosition, Text.byteLength_append, Text.byteLength_append]
        simp only [start, tokenStart, Nat.add_assoc]

/-- Among the tokens of a text is not its end. -/
theorem kind_ne_ending_of_mem {text : String} {token : Token}
    (h : token ∈ (ofString text).front) : token.kind ≠ .ending :=
  forall_scan (P := fun token => token.kind ≠ .ending)
    (fun _ _ _ _ hLexeme => Lexeme.kind_ne_ending hLexeme) 0 text.toList token h

end Tokens

end PinnedTree
