import PinnedTree.Glob

/-!
What a pattern accepts. `matchesParts` says it by the first part of the pattern, and tries every
way of dividing a text among the parts. `row` takes the parts from the last one on, and answers for
all ends of the text at once, so that its time is the product of the two lengths. The main
statement, `accepts_eq_matchesParts`, is that both agree.
-/

namespace PinnedTree

def GlobRange.holds (c : Char) : GlobRange → Bool
  | single only => c = only
  | between low high => low ≤ c && c ≤ high

def GlobPart.takes (c : Char) : GlobPart → Bool
  | literal only => c = only
  | anyCharacter => true
  | oneOf ranges => ranges.any (·.holds c)
  | noneOf ranges => !ranges.any (·.holds c)
  | anyText | anyComponents => false

namespace Glob

/-- Whether some end of the text has a property, the whole text and the empty one included. -/
def someSuffix (holds : List Char → Bool) : List Char → Bool
  | [] => holds []
  | c :: rest => holds (c :: rest) || someSuffix holds rest

/-- Whether what follows a first separator has a property, or the empty text has it. -/
def afterSeparator (holds : List Char → Bool) : List Char → Bool
  | [] => holds []
  | c :: rest => c = '/' && holds rest

def matchesParts : List GlobPart → List Char → Bool
  | [], text => text.isEmpty
  | .anyText :: parts, text => someSuffix (matchesParts parts) text
  | .anyComponents :: parts, text =>
    matchesParts parts text || someSuffix (afterSeparator (matchesParts parts)) text
  | _ :: _, [] => false
  | part :: parts, c :: rest => part.takes c && matchesParts parts rest

/-- The ends of a text, from the whole text to the empty one. -/
def ends : List Char → List (List Char)
  | [] => [[]]
  | c :: rest => (c :: rest) :: ends rest

/-- For each place of a row, whether that place or a later one is set. -/
def orLater : List Bool → List Bool
  | [] => []
  | here :: later =>
    let below := orLater later
    (here || below.headD false) :: below

/-- For each end of a text, whether it starts with a character of some kind and the next place of
its row is set. The empty end has an answer of its own. -/
def afterOne (kind : Char → Bool) (empty : Bool) : List Char → List Bool → List Bool
  | [], _ => [empty]
  | c :: rest, row => (kind c && row.tail.headD false) :: afterOne kind empty rest row.tail

/-- For each end of a text, whether the parts stand for it. -/
def row : List GlobPart → List Char → List Bool
  | [], text => (ends text).map List.isEmpty
  | .anyText :: parts, text => orLater (row parts text)
  | .anyComponents :: parts, text =>
    let rest := row parts text
    rest.zipWith or (orLater (afterOne (· = '/') (rest.getLastD false) text rest))
  | part :: parts, text => afterOne part.takes false text (row parts text)

/-- Whether a pattern stands for a whole name. -/
def accepts (glob : Glob) (name : String) : Bool :=
  (row glob.parts name.toList).headD false

theorem headD_map_ends (holds : List Char → Bool) (text : List Char) :
    ((ends text).map holds).headD false = holds text := by
  cases text <;> rfl

theorem getLastD_map_ends (holds : List Char → Bool) (text : List Char) :
    ((ends text).map holds).getLastD false = holds [] := by
  induction text with
  | nil => rfl
  | cons c rest ih =>
    cases rest with
    | nil => rfl
    | cons next rest => simpa [ends] using ih

/-- Looking at all later places is looking at all later ends. -/
theorem orLater_map_ends (holds : List Char → Bool) (text : List Char) :
    orLater ((ends text).map holds) = (ends text).map (someSuffix holds) := by
  induction text with
  | nil => simp [ends, orLater, someSuffix]
  | cons c rest ih => simp only [ends, List.map_cons, orLater, ih, headD_map_ends, someSuffix]

/-- Looking at the next place is taking one character away. -/
theorem afterOne_map_ends (kind : Char → Bool) (empty : Bool) (holds : List Char → Bool)
    (text : List Char) :
    afterOne kind empty text ((ends text).map holds) =
      (ends text).map fun
        | [] => empty
        | c :: rest => kind c && holds rest := by
  induction text with
  | nil => rfl
  | cons c rest ih =>
    simp only [ends, List.map_cons, afterOne, List.tail_cons, headD_map_ends, ih]

/-- Looking at the next place after a separator is looking for the end after it. -/
theorem afterOne_separator (holds : List Char → Bool) (text : List Char) :
    afterOne (· = '/') (holds []) text ((ends text).map holds) =
      (ends text).map (afterSeparator holds) := by
  rw [afterOne_map_ends]
  exact List.map_congr_left fun rest _ => by cases rest <;> rfl

/-- The row of some parts answers for every end of a text. -/
theorem row_eq_map_ends (parts : List GlobPart) (text : List Char) :
    row parts text = (ends text).map (matchesParts parts) := by
  induction parts with
  | nil => rfl
  | cons part parts ih =>
    cases part with
    | anyText =>
      rw [row, ih, orLater_map_ends]
      rfl
    | anyComponents =>
      rw [row, ih, getLastD_map_ends, afterOne_separator, orLater_map_ends, List.zipWith_map,
        List.zipWith_self]
      rfl
    | _ =>
      simp only [row, ih, afterOne_map_ends]
      exact List.map_congr_left fun rest _ => by cases rest <;> rfl

/-- The answer for the whole text is the meaning of the pattern. -/
theorem accepts_eq_matchesParts (glob : Glob) (name : String) :
    glob.accepts name = matchesParts glob.parts name.toList := by
  rw [accepts, row_eq_map_ends, headD_map_ends]

end Glob

end PinnedTree
