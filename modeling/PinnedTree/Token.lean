import PinnedTree.Text.Quoted

/-!
Tokens of listing text: the marks and words of JSON, with bare words allowed as well. A token keeps
its text and the byte at which it starts.
-/

namespace PinnedTree

inductive TokenKind where
  | leftBrace
  | rightBrace
  | leftBracket
  | rightBracket
  | comma
  | colon
  | string
  | number
  | true
  | false
  | null
  | identifier
  | ending
  deriving DecidableEq, Repr

namespace TokenKind

/-- How a kind is named in messages: marks and fixed words in quotes. -/
def label : TokenKind → String
  | leftBrace => "'\x7b'"
  | rightBrace => "'\x7d'"
  | leftBracket => "'['"
  | rightBracket => "']'"
  | comma => "','"
  | colon => "':'"
  | string => "string"
  | number => "number"
  | true => "'true'"
  | false => "'false'"
  | null => "'null'"
  | identifier => "identifier"
  | ending => "end of input"

/-- The kind of a mark, for the characters that are one. -/
def ofMark? (c : Char) : Option TokenKind :=
  if c = '{' then some leftBrace
  else if c = '}' then some rightBrace
  else if c = '[' then some leftBracket
  else if c = ']' then some rightBracket
  else if c = ',' then some comma
  else if c = ':' then some colon
  else none

def ofWord (word : List Char) : TokenKind :=
  if word = ['t', 'r', 'u', 'e'] then true
  else if word = ['f', 'a', 'l', 's', 'e'] then false
  else if word = ['n', 'u', 'l', 'l'] then null
  else identifier

/-- Whether a token of this kind is a complete value. -/
def isAtom : TokenKind → Bool
  | string | number | true | false | null | identifier => .true
  | _ => .false

end TokenKind

/-- A token: its kind, its text (for a string the text that it spells), and its first byte. -/
structure Token where
  kind : TokenKind
  text : String
  start : Nat
  deriving DecidableEq, Repr

/-- How a token that was not expected is named in messages. -/
def Token.describe (token : Token) : String :=
  match token.kind with
  | .string => "string " ++ Text.quote token.text
  | .number | .identifier => Text.quote token.text
  | kind => kind.label

/-- What is wrong with a text at one place. -/
inductive ParseFault where
  | unexpectedCharacter (c : Char)
  | unterminatedString
  | invalidEscape
  | unpairedSurrogate
  | leadingZero
  | missingFraction
  | missingExponent
  | unexpectedEnd
  | expected (kind : TokenKind) (found : Token)
  | expectedValue (found : TokenKind)
  | moreThanCounted (listed count : Nat)
  | moreThanRequested (listed limit : Nat)
  | remark (message : String)
  deriving DecidableEq, Repr

/-- A fault and the byte where it was found. -/
structure ParseError where
  position : Nat
  fault : ParseFault
  deriving DecidableEq, Repr

namespace ParseFault

/-- Whether a fault lies in the spelling of a single token. -/
def isLexical : ParseFault → Bool
  | unexpectedCharacter _ | unterminatedString | invalidEscape | unpairedSurrogate | leadingZero
  | missingFraction | missingExponent => true
  | _ => false

def message : ParseFault → String
  | unexpectedCharacter c => "unexpected character " ++ String.ofList (Text.quotedChar c)
  | unterminatedString => "unterminated string"
  | invalidEscape => "invalid escape sequence"
  | unpairedSurrogate => "unpaired surrogate in unicode escape"
  | leadingZero => "invalid number: leading zero"
  | missingFraction => "invalid number: expected digits after decimal point"
  | missingExponent => "invalid number: expected digits in exponent"
  | unexpectedEnd => "unexpected end of input"
  | expected kind found => "expected " ++ kind.label ++ ", found " ++ found.describe
  | expectedValue found => "expected a value, found " ++ found.label
  | moreThanCounted listed count =>
    toString listed ++ " children listed but :childNodeCount is " ++ toString count
  | moreThanRequested listed limit =>
    toString listed ++ " children listed but at most " ++ toString limit ++ " were requested"
  | remark message => message

end ParseFault

def ParseError.message (error : ParseError) : String :=
  "parse error at position " ++ toString error.position ++ ": " ++ error.fault.message

end PinnedTree
