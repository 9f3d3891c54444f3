import PinnedTree.Double.Reading

/-!
The words of TOML that stand for numbers, truth values, dates and times.
-/

namespace PinnedTree.Toml

/-- Drops the underscores of a run of digits. Each must stand between two digits. -/
def joinDigits? (isDigit : Char → Bool) : List Char → Option (List Char)
  | [] => none
  | [c] => if isDigit c then some [c] else none
  | c :: d :: rest =>
    if !isDigit c then none
    else if d = '_' then (joinDigits? isDigit rest).map (c :: ·)
    else (joinDigits? isDigit (d :: rest)).map (c :: ·)

def digitValue (c : Char) : Nat :=
  if c.isDigit then c.toNat - '0'.toNat else c.toLower.toNat - 'a'.toNat + 10

def isDigitOf (base : Nat) (c : Char) : Bool :=
  (c.isDigit || ('a' ≤ c.toLower && c.toLower ≤ 'f')) && digitValue c < base

/-- The digits of a decimal integer without sign, which does not start with a zero. -/
def decimalDigits? (text : List Char) : Option (List Char) :=
  match joinDigits? Char.isDigit text with
  | none => none
  | some digits => if digits.head? = some '0' ∧ digits.length ≠ 1 then none else some digits

def prefixedInteger? (base : Nat) (text : List Char) : Option Int :=
  (joinDigits? (isDigitOf base) text).map fun digits =>
    ((digits.foldl (fun value c => value * base + digitValue c) 0 : Nat) : Int)

def wholeNumber? : List Char → Option Int
  | '0' :: 'x' :: digits => prefixedInteger? 16 digits
  | '0' :: 'o' :: digits => prefixedInteger? 8 digits
  | '0' :: 'b' :: digits => prefixedInteger? 2 digits
  | text =>
    let (negative, unsigned) := Text.splitSign text
    (decimalDigits? unsigned).map fun digits =>
      let value : Int := Text.digitsValue digits
      if negative then -value else value

def integer? (text : List Char) : Option Int :=
  (wholeNumber? text).filter fun value =>
    Int64.minValue.toInt ≤ value && value ≤ Int64.maxValue.toInt

def splitAtFirst (isMark : Char → Bool) (text : List Char) : List Char × List Char :=
  (text.takeWhile (!isMark ·), text.dropWhile (!isMark ·))

/-- Whether an exponent mark is followed by digits, or there is nothing. -/
def isExponent : List Char → Bool
  | [] => true
  | _ :: rest => (joinDigits? Char.isDigit (Text.splitSign rest).2).isSome

/-- Whether a text is a number with a point or an exponent. A number that is too large and positive
is none. -/
def isFloat (text : List Char) : Bool :=
  let (_, unsigned) := Text.splitSign text
  if unsigned = ['i', 'n', 'f'] || unsigned = ['n', 'a', 'n'] then true
  else
    let (number, exponent) := splitAtFirst (fun c => c = 'e' || c = 'E') unsigned
    let (whole, fraction) := splitAtFirst (· = '.') number
    (decimalDigits? whole).isSome && (fraction ≠ [] || exponent ≠ [])
      && (fraction = [] || (joinDigits? Char.isDigit fraction.tail).isSome)
      && isExponent exponent
      && Double.read? (text.filter (· ≠ '_')) ≠ some (.infinite false)

/-- Reads a fixed number of digits between two bounds, and answers what follows. -/
def field? (width low high : Nat) (text : List Char) : Option (Nat × List Char) := do
  let digits := text.take width
  let value ← Text.natural? digits
  if digits.length = width ∧ low ≤ value ∧ value ≤ high then some (value, text.drop width) else none

def afterMark? (isMark : Char → Bool) : List Char → Option (List Char)
  | [] => none
  | c :: rest => if isMark c then some rest else none

def daysOf (year month : Nat) : Nat :=
  if month = 2 then
    if year % 4 = 0 ∧ (year % 100 ≠ 0 ∨ year % 400 = 0) then 29 else 28
  else if month = 4 ∨ month = 6 ∨ month = 9 ∨ month = 11 then 30
  else 31

def afterDate? (text : List Char) : Option (List Char) := do
  let (year, rest) ← field? 4 0 9999 text
  let rest ← afterMark? (· = '-') rest
  let (month, rest) ← field? 2 1 12 rest
  let rest ← afterMark? (· = '-') rest
  let (_, rest) ← field? 2 1 (daysOf year month) rest
  some rest

def afterTime? (text : List Char) : Option (List Char) := do
  let (_, rest) ← field? 2 0 23 text
  let rest ← afterMark? (· = ':') rest
  let (_, rest) ← field? 2 0 59 rest
  let rest ← afterMark? (· = ':') rest
  let (_, rest) ← field? 2 0 60 rest
  match rest with
  | '.' :: fraction =>
    if (fraction.takeWhile Char.isDigit).isEmpty then none
    else some (fraction.dropWhile Char.isDigit)
  | _ => some rest

/-- Whether a text is a distance from universal time, or empty. -/
def isZone (text : List Char) : Bool :=
  match text with
  | [] => true
  | c :: rest =>
    if c = 'Z' || c = 'z' then rest.isEmpty
    else if c = '+' || c = '-' then
      (do
        let (_, rest) ← field? 2 0 23 rest
        let rest ← afterMark? (· = ':') rest
        let (_, rest) ← field? 2 0 59 rest
        some rest) = some []
    else false

def isZonedTime (text : List Char) : Bool :=
  (afterTime? text).any isZone

def isDate (text : List Char) : Bool :=
  afterDate? text = some []

/-- Whether a text is a date, a time of day, or a date and a time. -/
def isMoment (text : List Char) : Bool :=
  isDate text || afterTime? text = some []
    || (do
      let rest ← afterDate? text
      let time ← afterMark? (fun c => c = 'T' || c = 't') rest
      some (isZonedTime time)) = some true

def isTruth (text : List Char) : Bool :=
  text = ['t', 'r', 'u', 'e'] || text = ['f', 'a', 'l', 's', 'e']

end PinnedTree.Toml
