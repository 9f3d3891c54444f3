/-!
Patterns for names. `?` stands for any one character and `*` for any text, the separator `/`
included; `[...]` stands for one character of a set and `[!...]` for one outside it. `**` must be a
whole component between separators, and stands for any number of components. Every other character
stands for itself.
-/

namespace PinnedTree

/-- A part of a set of characters. -/
inductive GlobRange where
  | single (c : Char)
  | between (low high : Char)
  deriving DecidableEq, Repr

/-- A part of a pattern. -/
inductive GlobPart where
  | literal (c : Char)
  | anyCharacter
  | anyText
  | anyComponents
  | oneOf (ranges : List GlobRange)
  | noneOf (ranges : List GlobRange)
  deriving DecidableEq, Repr

structure Glob where
  parts : List GlobPart
  deriving DecidableEq, Repr

inductive GlobFault where
  | wildcards
  | recursiveWildcards
  | range
  deriving DecidableEq, Repr

structure GlobError where
  position : Nat
  fault : GlobFault
  deriving DecidableEq, Repr

def GlobFault.message : GlobFault → String
  | wildcards => "wildcards are either regular `*` or recursive `**`"
  | recursiveWildcards => "recursive wildcards must form a single path component"
  | range => "invalid range pattern"

def GlobError.message (error : GlobError) : String :=
  "Pattern syntax error near position " ++ toString error.position ++ ": " ++ error.fault.message

namespace Glob

/-- The ranges of a set: a dash between two characters joins them, any other dash is itself. -/
def ranges : List Char → List GlobRange
  | low :: '-' :: high :: rest => .between low high :: ranges rest
  | c :: rest => .single c :: ranges rest
  | [] => []

def beforeBracket? (text : List Char) : Option (List Char × List Char) :=
  match text.dropWhile (· ≠ ']') with
  | [] => none
  | _ :: rest => some (text.takeWhile (· ≠ ']'), rest)

/-- The set that starts a text after its opening bracket, and what follows it. The first character
of a set is part of it even if it is a closing bracket. -/
def set? : List Char → Option (GlobPart × List Char)
  | '!' :: first :: more =>
    (beforeBracket? more).map fun (inner, rest) => (.noneOf (ranges (first :: inner)), rest)
  | '!' :: [] => none
  | first :: more =>
    (beforeBracket? more).map fun (inner, rest) => (.oneOf (ranges (first :: inner)), rest)
  | [] => none

/-- The part for a run of stars, and what follows it. The run starts after `position` characters,
the last of which is `previous`, and its first star has been taken from the text. -/
def stars (position : Nat) (previous : Option Char) (text : List Char) :
    Except GlobError (GlobPart × List Char) :=
  let more := (text.takeWhile (· = '*')).length
  let rest := text.dropWhile (· = '*')
  if 1 < more then .error ⟨position + 2, .wildcards⟩
  else if more = 0 then .ok (.anyText, rest)
  else if previous.any (· ≠ '/') then .error ⟨position - 1, .recursiveWildcards⟩
  else match rest with
    | [] => .ok (.anyComponents, [])
    | c :: more =>
      if c = '/' then .ok (.anyComponents, more) else .error ⟨position + 2, .recursiveWildcards⟩

/-- The first part of a text that is not empty, and what follows it. -/
def part (position : Nat) (previous : Option Char) (c : Char) (rest : List Char) :
    Except GlobError (GlobPart × List Char) :=
  if c = '?' then .ok (.anyCharacter, rest)
  else if c = '*' then stars position previous rest
  else if c = '[' then
    match set? rest with
    | some found => .ok found
    | none => .error ⟨position, .range⟩
  else .ok (.literal c, rest)

theorem beforeBracket?_length {text inner rest : List Char}
    (hSplit : beforeBracket? text = some (inner, rest)) : rest.length < text.length := by
  have hShorter := (List.dropWhile_suffix (l := text) (· ≠ ']')).length_le
  unfold beforeBracket? at hSplit
  split at hSplit
  · simp at hSplit
  · rename_i hBehind
    rw [hBehind, List.length_cons] at hShorter
    cases hSplit
    exact hShorter

theorem set?_length {text rest : List Char} {part : GlobPart}
    (hSet : set? text = some (part, rest)) : rest.length < text.length := by
  unfold set? at hSet
  split at hSet
  · obtain ⟨⟨inner, left⟩, hSplit, hSame⟩ := Option.map_eq_some_iff.1 hSet
    cases hSame
    have hLeft := beforeBracket?_length hSplit
    simp only [List.length_cons]
    omega
  · simp at hSet
  · obtain ⟨⟨inner, left⟩, hSplit, hSame⟩ := Option.map_eq_some_iff.1 hSet
    cases hSame
    have hLeft := beforeBracket?_length hSplit
    simp only [List.length_cons]
    omega
  · simp at hSet

theorem stars_length {position : Nat} {previous : Option Char} {rest left : List Char}
    {part : GlobPart} (hStars : stars position previous rest = .ok (part, left)) :
    left.length ≤ rest.length := by
  have hShorter := (List.dropWhile_suffix (l := rest) (· = '*')).length_le
  simp only [stars] at hStars
  split at hStars
  · simp at hStars
  split at hStars
  · cases hStars
    exact hShorter
  split at hStars
  · simp at hStars
  split at hStars
  · cases hStars
    simp
  · rename_i hBehind
    rw [hBehind, List.length_cons] at hShorter
    split at hStars
    · cases hStars
      omega
    · simp at hStars

/-- Every part takes at least one character. -/
theorem part_length {position : Nat} {previous : Option Char} {c : Char} {rest left : List Char}
    {found : GlobPart} (hPart : part position previous c rest = .ok (found, left)) :
    left.length ≤ rest.length := by
  unfold part at hPart
  split at hPart
  · cases hPart
    exact Nat.le_refl _
  split at hPart
  · exact stars_length hPart
  split at hPart
  · split at hPart
    · rename_i hSet
      cases hPart
      exact Nat.le_of_lt (set?_length hSet)
    · simp at hPart
  · cases hPart
    exact Nat.le_refl _

/-- The parts of a text that comes after `position` characters, the last of them `previous`. -/
def parse (position : Nat) (previous : Option Char) : List Char → Except GlobError (List GlobPart)
  | [] => .ok []
  | c :: rest =>
    match _hPart : part position previous c rest with
    | .error error => .error error
    | .ok (found, left) =>
      let used := (c :: rest).take (rest.length + 1 - left.length)
      (parse (position + used.length) used.getLast? left).map (found :: ·)
  termination_by text => text.length
  decreasing_by
    have hLeft := part_length _hPart
    simp only [List.length_cons]
    omega

def ofString (text : String) : Except GlobError Glob :=
  (parse 0 none text.toList).map Glob.mk

end Glob

end PinnedTree
