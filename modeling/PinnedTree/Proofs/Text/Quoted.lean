import PinnedTree.Proofs.Json.Characters
import PinnedTree.Proofs.Number.Spelling
import PinnedTree.Text.Quoted

/-! Quoted text delimits itself. How a character is written tells where its spelling ends, and no
spelling starts with the quote, so the quoted text and what follows it can be told apart. -/
namespace PinnedTree.Text

/-! ### Hexadecimal digits -/

def hexValue (digits : List Char) : Nat :=
  digits.foldl (fun value digit => value * 16 + (Lexeme.hexDigit? digit).getD 0) 0

theorem hexValue_concat (digits : List Char) {value : Nat} (h : value < 16) :
    hexValue (digits ++ [Nat.digitChar value]) = hexValue digits * 16 + value := by
  rw [hexValue, List.foldl_append, List.foldl_cons, List.foldl_nil,
    (Lexeme.hexDigit?_digitChar value h).1, Option.getD_some]
  rfl

/-- The digits of a number are its last digit behind those of the rest, so what holds of one digit
and is kept by one more holds of all of them. -/
theorem toDigits_induction {P : Nat → List Char → Prop}
    (hOne : ∀ digit < 16, P digit [Nat.digitChar digit])
    (hNext : ∀ value digits, P value digits → ∀ digit < 16,
      P (value * 16 + digit) (digits ++ [Nat.digitChar digit])) (value : Nat) :
    P value (Nat.toDigits 16 value) := by
  induction value using Nat.strongRecOn with
  | ind value ih =>
      by_cases hSmall : value < 16
      · rw [Nat.toDigits_of_lt_base hSmall]
        exact hOne value hSmall
      · have hRest := ih (value / 16) (Nat.div_lt_self (by omega) (by omega))
        have hStep := hNext _ _ hRest (value % 16) (Nat.mod_lt value (by omega))
        rwa [← Nat.toDigits_of_base_le (by omega) (Nat.le_of_not_lt hSmall),
          Nat.div_add_mod'] at hStep

/-- The hexadecimal digits of a number are read as the number. -/
theorem hexValue_toDigits (value : Nat) : hexValue (Nat.toDigits 16 value) = value := by
  refine toDigits_induction (P := fun value digits => hexValue digits = value) ?_ ?_ value
  · intro digit hDigit
    exact (hexValue_concat [] hDigit).trans (Nat.zero_add digit)
  · rintro value digits rfl digit hDigit
    exact hexValue_concat digits hDigit

theorem digitChar_ne_brace : ∀ digit < 16, Nat.digitChar digit ≠ '}' := by
  decide

theorem brace_notMem_toDigits (value : Nat) : '}' ∉ Nat.toDigits 16 value := by
  refine toDigits_induction (P := fun _ digits => '}' ∉ digits) ?_ ?_ value
  · intro digit hDigit hMem
    exact digitChar_ne_brace digit hDigit (List.mem_singleton.mp hMem).symm
  · intro value digits hDigits digit hDigit hMem
    rcases List.mem_append.mp hMem with hFront | hLast
    · exact hDigits hFront
    · exact digitChar_ne_brace digit hDigit (List.mem_singleton.mp hLast).symm

/-! ### Reading one character back -/

def marked (mark : Char) : Char :=
  if mark = 'n' then '\n'
  else if mark = 'r' then '\r'
  else if mark = 't' then '\t'
  else if mark = '0' then '\x00'
  else mark

/-- The character at the start of quoted text, and what follows its spelling. -/
def unescape? : List Char → Option (Char × List Char)
  | '\\' :: 'u' :: '{' :: rest =>
    some (Char.ofNat (hexValue (rest.takeWhile (· ≠ '}'))), (rest.dropWhile (· ≠ '}')).tail)
  | '\\' :: mark :: rest => some (marked mark, rest)
  | c :: rest => some (c, rest)
  | [] => none

/-- The escape of a code point is read as its character. -/
theorem unescape?_codePointEscape (c : Char) (rest : List Char) :
    unescape? (codePointEscape c ++ rest) = some (c, rest) := by
  have hText : codePointEscape c ++ rest =
      '\\' :: 'u' :: '{' :: (Nat.toDigits 16 c.toNat ++ '}' :: rest) := by
    simp [codePointEscape]
  have hDigits : ∀ digit ∈ Nat.toDigits 16 c.toNat, decide (digit ≠ '}') = true :=
    fun digit hDigit => decide_eq_true (ne_of_mem_of_not_mem hDigit (brace_notMem_toDigits _))
  have hStop : StopsAt (fun digit => decide (digit ≠ '}')) ('}' :: rest) := stopsAt_cons rfl rest
  rw [hText, unescape?, takeWhile_append hDigits hStop, dropWhile_append hDigits hStop,
    hexValue_toDigits, Char.ofNat_toNat]
  rfl

/-- A character other than the backslash stands for itself. -/
theorem unescape?_plain {c : Char} (h : c ≠ '\\') (rest : List Char) :
    unescape? (c :: rest) = some (c, rest) := by
  simp [unescape?, h]

/-- A character is read back from how it is written, whatever follows. -/
theorem unescape?_escape (c : Char) (rest : List Char) :
    unescape? (escape '"' c ++ rest) = some (c, rest) := by
  rw [escape]
  split
  · rename_i hSpecial
    rcases hSpecial with rfl | rfl <;> rfl
  · rename_i hSpecial
    repeat' split
    · subst_vars
      rfl
    · subst_vars
      rfl
    · subst_vars
      rfl
    · subst_vars
      rfl
    · exact unescape?_plain (fun h => hSpecial (.inr h)) rest
    · exact unescape?_codePointEscape c rest

/-- No spelling starts with the quote. -/
theorem escape_append_ne (c : Char) (rest behind : List Char) :
    escape '"' c ++ rest ≠ '"' :: behind := by
  intro hSame
  have hRead := unescape?_escape c rest
  rw [hSame, unescape?_plain (by decide)] at hRead
  cases hRead
  cases hSame

/-! ### Whole texts -/

/-- Quoted text tells its characters and where it ends. -/
theorem flatMap_escape_inj {left right rest behind : List Char}
    (h : left.flatMap (escape '"') ++ '"' :: rest = right.flatMap (escape '"') ++ '"' :: behind) :
    left = right ∧ rest = behind := by
  induction left generalizing right with
  | nil =>
      cases right with
      | nil => exact ⟨rfl, (List.cons.inj h).2⟩
      | cons c right =>
          rw [List.flatMap_cons, List.append_assoc] at h
          exact absurd h.symm (escape_append_ne c _ rest)
  | cons c left ih =>
      cases right with
      | nil =>
          rw [List.flatMap_cons, List.append_assoc] at h
          exact absurd h (escape_append_ne c _ behind)
      | cons d right =>
          rw [List.flatMap_cons, List.flatMap_cons, List.append_assoc, List.append_assoc] at h
          have hRead := congrArg unescape? h
          rw [unescape?_escape, unescape?_escape] at hRead
          obtain ⟨rfl, hTail⟩ := Prod.mk.inj (Option.some.inj hRead)
          obtain ⟨rfl, hRest⟩ := ih hTail
          exact ⟨rfl, hRest⟩

/-- A quoted text tells the text and what follows the closing quote. -/
theorem quoted_append_inj {left right rest behind : List Char}
    (h : quoted left ++ rest = quoted right ++ behind) : left = right ∧ rest = behind := by
  rw [quoted, quoted, List.cons_append, List.cons_append, List.append_assoc, List.append_assoc] at h
  exact flatMap_escape_inj (List.cons.inj h).2

end PinnedTree.Text
