import PinnedTree.Token.Lexer
import PinnedTree.Toml
import PinnedTree.Toml.Word

/-!
TOML documents read from text, line by line: blank lines and comments, headers of tables, and keys
with their values. A text that breaks a rule anywhere is no document.
-/

namespace PinnedTree.Toml

def isBlank (c : Char) : Bool :=
  c = ' ' || c = '\t'

def skipBlanks (text : List Char) : List Char :=
  text.dropWhile isBlank

/-- The characters that may stand in comments and strings as they are. -/
def isPlain (c : Char) : Bool :=
  c = '\t' || (0x20 ≤ c.toNat && c.toNat ≠ 0x7F)

/-- What follows the end of a line: a line feed, or one after a carriage return. -/
def afterNewline? : List Char → Option (List Char)
  | '\n' :: rest => some rest
  | '\r' :: '\n' :: rest => some rest
  | _ => none

def skipComment : List Char → List Char
  | '#' :: rest => rest.dropWhile isPlain
  | text => text

/-- What follows the rest of a line that may hold a comment and nothing else. -/
def afterLine? (text : List Char) : Option (List Char) :=
  match skipComment (skipBlanks text) with
  | [] => some []
  | rest => afterNewline? rest

def skipLines : Nat → List Char → List Char
  | 0, text => text
  | fuel + 1, text =>
    let rest := skipComment (skipBlanks text)
    match afterNewline? rest with
    | some rest => skipLines fuel rest
    | none => rest

def hexValue? (digits : List Char) : Option Nat :=
  digits.foldlM (fun value c => (Lexeme.hexDigit? c).map (value * 16 + ·)) 0

def codePoint? (width : Nat) (text : List Char) : Option (Char × List Char) := do
  let digits := text.take width
  let value ← hexValue? digits
  if digits.length = width ∧ value.isValidChar then some (Char.ofNat value, text.drop width)
  else none

def unescape? : List Char → Option (Char × List Char)
  | [] => none
  | c :: rest =>
    if c = 'b' then some ('\x08', rest)
    else if c = 't' then some ('\t', rest)
    else if c = 'n' then some ('\n', rest)
    else if c = 'f' then some ('\x0c', rest)
    else if c = 'r' then some ('\r', rest)
    else if c = '"' || c = '\\' then some (c, rest)
    else if c = 'u' then codePoint? 4 rest
    else if c = 'U' then codePoint? 8 rest
    else none

/-- The rest of a string in double quotes on one line, and what follows it. -/
def basicString? : Nat → List Char → Option (List Char × List Char)
  | 0, _ => none
  | _, [] => none
  | fuel + 1, c :: rest =>
    if c = '"' then some ([], rest)
    else if c = '\\' then do
      let (escaped, rest) ← unescape? rest
      let (text, rest) ← basicString? fuel rest
      some (escaped :: text, rest)
    else if isPlain c then do
      let (text, rest) ← basicString? fuel rest
      some (c :: text, rest)
    else none

/-- The rest of a string in single quotes on one line, and what follows it. -/
def literalString? (text : List Char) : Option (List Char × List Char) :=
  match text.dropWhile (fun c => isPlain c && c ≠ '\'') with
  | '\'' :: rest => some (text.takeWhile (fun c => isPlain c && c ≠ '\''), rest)
  | _ => none

def skipSpace : Nat → List Char → List Char
  | 0, text => text
  | fuel + 1, text =>
    match afterNewline? (skipBlanks text) with
    | some rest => skipSpace fuel rest
    | none => skipBlanks text

/-- What follows a string of several lines that has been opened by three quotes. Up to two more
quotes may stand before the three that close it. -/
def afterLines? (quote : Char) (escapes : Bool) : Nat → List Char → Option (List Char)
  | 0, _ => none
  | _, [] => none
  | fuel + 1, c :: rest =>
    if c = quote then
      let quotes := 1 + (rest.takeWhile (· = quote)).length
      if quotes < 3 then afterLines? quote escapes fuel ((c :: rest).drop quotes)
      else some ((c :: rest).drop (min quotes 5))
    else if escapes && c = '\\' then
      match afterNewline? (skipBlanks rest) with
      | some rest => afterLines? quote escapes fuel (skipSpace rest.length rest)
      | none => do
        let (_, rest) ← unescape? rest
        afterLines? quote escapes fuel rest
    else if isPlain c then afterLines? quote escapes fuel rest
    else do
      let rest ← afterNewline? (c :: rest)
      afterLines? quote escapes fuel rest

/-- What follows a string of any kind, from its first quote on. -/
def afterString? : List Char → Option (List Char)
  | '"' :: '"' :: '"' :: rest => afterLines? '"' true (rest.length + 1) rest
  | '\'' :: '\'' :: '\'' :: rest => afterLines? '\'' false (rest.length + 1) rest
  | '"' :: rest => (basicString? (rest.length + 1) rest).map Prod.snd
  | '\'' :: rest => (literalString? rest).map Prod.snd
  | _ => none

def isBareKey (c : Char) : Bool :=
  c.isAlphanum || c = '_' || c = '-'

def simpleKey? : List Char → Option (String × List Char)
  | '"' :: rest => (basicString? (rest.length + 1) rest).map fun (key, rest) => (.ofList key, rest)
  | '\'' :: rest => (literalString? rest).map fun (key, rest) => (.ofList key, rest)
  | text =>
    if text.takeWhile isBareKey = [] then none
    else some (.ofList (text.takeWhile isBareKey), text.dropWhile isBareKey)

/-- The parts of a key with dots between them and blanks around them, and what follows it. -/
def key? : Nat → List Char → Option (List String × List Char)
  | 0, _ => none
  | fuel + 1, text => do
    let (part, rest) ← simpleKey? (skipBlanks text)
    match skipBlanks rest with
    | '.' :: rest =>
      let (parts, rest) ← key? fuel rest
      some (part :: parts, rest)
    | rest => some ([part], rest)

/-- Arrays, inline tables and the parts of a key are nested less deeply than this. -/
def depthLimit : Nat := 80

def dottedKey? (text : List Char) : Option (List String × List Char) :=
  key? (depthLimit - 1) text

def endsWord (c : Char) : Bool :=
  isBlank c || c = '\n' || c = '\r' || c = ',' || c = ']' || c = '}' || c = '#'

/-- A number, truth value, date or time, and what follows it. -/
def word? (text : List Char) : Option (TomlItem × List Char) :=
  let word := text.takeWhile (!endsWord ·)
  let rest := text.dropWhile (!endsWord ·)
  match integer? word with
  | some value => some (.integer value, rest)
  | none =>
    if isDate word then
      match rest with
      | ' ' :: time =>
        if isZonedTime (time.takeWhile (!endsWord ·)) then
          some (.otherValue, time.dropWhile (!endsWord ·))
        else some (.otherValue, rest)
      | _ => some (.otherValue, rest)
    else if isFloat word || isMoment word || isTruth word then some (.otherValue, rest)
    else none

mutual

/-- A value, and what follows it. -/
def value? : Nat → Nat → List Char → Option (TomlItem × List Char)
  | 0, _, _ => none
  | _, _, [] => none
  | fuel + 1, depth, c :: rest =>
    if c = '"' || c = '\'' then (afterString? (c :: rest)).map fun rest => (.otherValue, rest)
    else if c = '[' then
      if depth = 0 then none
      else (afterItems? fuel (depth - 1) rest).map fun rest => (.otherValue, rest)
    else if c = '{' then
      if depth = 0 then none
      else match skipBlanks rest with
        | '}' :: rest => some (.otherValue, rest)
        | rest => (afterPairs? fuel (depth - 1) [] rest).map fun rest => (.otherValue, rest)
    else word? (c :: rest)

def afterItems? : Nat → Nat → List Char → Option (List Char)
  | 0, _, _ => none
  | fuel + 1, depth, text =>
    match skipLines text.length text with
    | ']' :: rest => some rest
    | text => do
      let (_, rest) ← value? fuel depth text
      match skipLines rest.length rest with
      | ',' :: rest => afterItems? fuel depth rest
      | ']' :: rest => some rest
      | _ => none

/-- What follows the keys and values of an inline table, at least one, and its end. -/
def afterPairs? : Nat → Nat → TomlTable → List Char → Option (List Char)
  | 0, _, _, _ => none
  | fuel + 1, depth, table, text => do
    let (key, rest) ← dottedKey? text
    let rest ← afterMark? (· = '=') rest
    let (value, rest) ← value? fuel depth (skipBlanks rest)
    let table ← table.define key value
    match skipBlanks rest with
    | ',' :: rest => afterPairs? fuel depth table rest
    | '}' :: rest => some rest
    | _ => none

end

/-- A document part of the way through its lines. -/
structure Draft where
  document : TomlTable := []
  /-- The header that the next keys stand below. -/
  header : List String := []

/-- Reads one line that is not blank, or several when a value takes several. -/
def entry? (draft : Draft) : List Char → Option (Draft × List Char)
  | '[' :: '[' :: rest => do
    let (header, rest) ← dottedKey? rest
    let rest ← afterMark? (· = ']') rest
    let rest ← afterMark? (· = ']') rest
    let document ← draft.document.openElement header
    some ({ document, header }, rest)
  | '[' :: rest => do
    let (header, rest) ← dottedKey? rest
    let rest ← afterMark? (· = ']') rest
    let document ← draft.document.openTable header
    some ({ document, header }, rest)
  | text => do
    let (key, rest) ← dottedKey? text
    let rest ← afterMark? (· = '=') rest
    let (value, rest) ← value? (2 * rest.length + 2) (depthLimit - 1) (skipBlanks rest)
    let document ← draft.document.defineBelow draft.header key value
    some ({ draft with document }, rest)

def entries? (draft : Draft) : Nat → List Char → Option TomlTable
  | 0, _ => none
  | fuel + 1, text =>
    match skipLines text.length text with
    | [] => some draft.document
    | text => do
      let (draft, rest) ← entry? draft text
      let rest ← afterLine? rest
      entries? draft fuel rest

/-- Reads a document. A mark of the byte order may stand before it. -/
def ofString? (text : String) : Option TomlTable :=
  match text.toList with
  | '\uFEFF' :: rest => entries? {} (rest.length + 2) rest
  | text => entries? {} (text.length + 2) text

end PinnedTree.Toml
