import PinnedTree.Text.Alphanumeric
import PinnedTree.Text.Numeral
import PinnedTree.Text.Utf8
import PinnedTree.Token

/-!
From text to tokens. A lexeme is a token together with the characters that spell it, so the
spellings and the blanks between them make up the text again. An error is found at the first
character of the token that it spoils.
-/

namespace PinnedTree

/-- One token cut off a text. -/
structure Lexeme where
  kind : TokenKind
  /-- The text that the token stands for. -/
  text : List Char
  /-- The characters that spell it. -/
  spelling : List Char
  /-- What follows. -/
  rest : List Char
  deriving DecidableEq, Repr

namespace Lexeme

def isBlank (c : Char) : Bool :=
  c = ' ' || c = '\t' || c = '\n' || c = '\r'

def isWordCharacter (c : Char) : Bool :=
  Text.isAlphanumeric c || c = '_' || c = '$'

def hexDigit? (c : Char) : Option Nat :=
  if '0' ≤ c ∧ c ≤ '9' then some (c.toNat - '0'.toNat)
  else if 'a' ≤ c ∧ c ≤ 'f' then some (c.toNat - 'a'.toNat + 10)
  else if 'A' ≤ c ∧ c ≤ 'F' then some (c.toNat - 'A'.toNat + 10)
  else none

/-- The code unit that four hexadecimal digits at the start of a text spell. -/
def codeUnit? : List Char → Option Nat
  | a :: b :: c :: d :: _ => do
    let a ← hexDigit? a
    let b ← hexDigit? b
    let c ← hexDigit? c
    let d ← hexDigit? d
    some (((a * 16 + b) * 16 + c) * 16 + d)
  | _ => none

/-- The first code unit of a pair. -/
def isHighSurrogate (unit : Nat) : Bool :=
  0xD800 ≤ unit && unit < 0xDC00

/-- The second code unit of a pair. -/
def isLowSurrogate (unit : Nat) : Bool :=
  0xDC00 ≤ unit && unit < 0xE000

def pairedCharacter (high low : Nat) : Char :=
  Char.ofNat (0x10000 + (high - 0xD800) * 0x400 + (low - 0xDC00))

/-- The code unit of an escape of the form `\uXXXX` at the start of a text. -/
def escapedUnit? : List Char → Option Nat
  | '\\' :: 'u' :: digits => codeUnit? digits
  | _ => none

def shortEscape? (c : Char) : Option Char :=
  if c = '"' ∨ c = '\\' ∨ c = '/' then some c
  else if c = 'b' then some '\x08'
  else if c = 'f' then some '\x0c'
  else if c = 'n' then some '\n'
  else if c = 'r' then some '\r'
  else if c = 't' then some '\t'
  else none

/-- The character that is escaped by what follows a backslash, and the length of its spelling
without the backslash. -/
def unescape : List Char → Except ParseFault (Char × Nat)
  | [] => .error .invalidEscape
  | mark :: digits =>
    match shortEscape? mark with
    | some c => .ok (c, 1)
    | none =>
      if mark ≠ 'u' then .error .invalidEscape
      else match codeUnit? digits with
        | none => .error .invalidEscape
        | some unit =>
          if isHighSurrogate unit then
            match escapedUnit? (digits.drop 4) with
            | none => .error .unpairedSurrogate
            | some low =>
              if isLowSurrogate low then .ok (pairedCharacter unit low, 11)
              else .error .invalidEscape
          else if isLowSurrogate unit then .error .invalidEscape
          else .ok (Char.ofNat unit, 5)

def prepend (c : Char) (spelling : List Char) (tail : Lexeme) : Lexeme :=
  { tail with text := c :: tail.text, spelling := spelling ++ tail.spelling }

/-- The rest of a string after its opening quote, up to and with the closing one. -/
def stringTail : List Char → Except ParseFault Lexeme
  | [] => .error .unterminatedString
  | c :: rest =>
    if c = '"' then .ok { kind := .string, text := [], spelling := ['"'], rest }
    else if c = '\\' then
      match unescape rest with
      | .error fault => .error fault
      | .ok (escaped, length) =>
        (stringTail (rest.drop length)).map (prepend escaped (c :: rest.take length))
    else (stringTail rest).map (prepend c [c])
  termination_by text => text.length
  decreasing_by
    · simp only [List.length_drop, List.length_cons]
      omega
    · simp

/-- The digits of a whole number: a single zero, or digits that do not start with one. -/
def wholeDigits (text : List Char) : Except ParseFault (List Char) :=
  let digits := text.takeWhile Char.isDigit
  if digits.head? = some '0' ∧ digits.length ≠ 1 then .error .leadingZero else .ok digits

/-- A point and at least one digit, or nothing when there is no point. -/
def fractionPart : List Char → Except ParseFault (List Char)
  | [] => .ok []
  | c :: rest =>
    if c ≠ '.' then .ok []
    else
      let digits := rest.takeWhile Char.isDigit
      if digits = [] then .error .missingFraction else .ok (c :: digits)

def exponentSign (text : List Char) : List Char :=
  (text.take 1).filter fun c => c = '+' || c = '-'

/-- An exponent mark, an optional sign and at least one digit, or nothing without a mark. -/
def exponentPart : List Char → Except ParseFault (List Char)
  | [] => .ok []
  | c :: rest =>
    if c ≠ 'e' ∧ c ≠ 'E' then .ok []
    else
      let sign := exponentSign rest
      let digits := (rest.drop sign.length).takeWhile Char.isDigit
      if digits = [] then .error .missingExponent else .ok (c :: sign ++ digits)

def numberSpelling (text : List Char) : Except ParseFault (List Char) := do
  let sign := (text.take 1).filter (· = '-')
  let whole ← wholeDigits (text.drop sign.length)
  let fraction ← fractionPart (text.drop (sign ++ whole).length)
  let exponent ← exponentPart (text.drop (sign ++ whole ++ fraction).length)
  return sign ++ whole ++ fraction ++ exponent

def startsNumber (c : Char) (rest : List Char) : Bool :=
  c.isDigit || (c = '-' && (rest.take 1).any Char.isDigit)

/-- The token at the start of a text that does not start with a blank. -/
def ofText (c : Char) (rest : List Char) : Except ParseFault Lexeme :=
  match TokenKind.ofMark? c with
  | some kind => .ok { kind, text := [c], spelling := [c], rest }
  | none =>
    if c = '"' then (stringTail rest).map fun tail => { tail with spelling := c :: tail.spelling }
    else if startsNumber c rest then
      (numberSpelling (c :: rest)).map fun spelling =>
        { kind := .number, text := spelling, spelling, rest := (c :: rest).drop spelling.length }
    else if isWordCharacter c then
      let word := (c :: rest).takeWhile isWordCharacter
      .ok {
        kind := TokenKind.ofWord word, text := word, spelling := word
        rest := (c :: rest).dropWhile isWordCharacter }
    else .error (.unexpectedCharacter c)

end Lexeme

end PinnedTree
