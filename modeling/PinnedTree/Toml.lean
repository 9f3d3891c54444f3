import PinnedTree.Members

/-!
TOML documents as far as whole numbers are wanted from them: every table is kept with its keys, and
of the values the integers; any other value is only known to be there. A document defines every
key and every table once. Dotted keys and headers may pass through tables that have been implied by
others, and what a value holds can never be added to.
-/

namespace PinnedTree

/-- What a key of a document stands for. -/
inductive TomlItem where
  | integer (value : Int)
  /-- A value of any other kind. -/
  | otherValue
  /-- A table. It is implied when no header has named it, and dotted when a dotted key made it. -/
  | table (implied dotted : Bool) (members : List (String × TomlItem))
  /-- An array of tables, the last one first. -/
  | tables (elements : List (List (String × TomlItem)))

abbrev TomlTable := Members TomlItem

namespace TomlTable

/-- Changes the table at the end of a path, making the tables on the way that are missing. `change`
is told whether a dotted key made the table. A dotted path does not enter a table that has a header
of its own. -/
def update (dotted : Bool) (change : Bool → TomlTable → Option TomlTable) :
    Bool → List String → TomlTable → Option TomlTable
  | madeByDots, [], members => change madeByDots members
  | _, key :: path, members =>
    match members.find? key with
    | none => do
      let inner ← update dotted change dotted path []
      some (members.put key (.table true dotted inner))
    | some (.table implied madeByDots inner) =>
      if dotted && !implied then none
      else do
        let inner ← update dotted change madeByDots path inner
        some (members.put key (.table implied madeByDots inner))
    | some (.tables (last :: before)) => do
      let last ← update dotted change false path last
      some (members.put key (.tables (last :: before)))
    | some _ => none

def splitLast? (path : List String) : Option (List String × String) :=
  path.getLast?.map fun last => (path.dropLast, last)

/-- Gives a value to a key, which may be dotted and must be new. -/
def define (path : List String) (value : TomlItem) (table : TomlTable) : Option TomlTable := do
  let (outer, key) ← splitLast? path
  update true (fun madeByDots members =>
    if madeByDots == outer.isEmpty || key ∈ members.names then none
    else some (members.put key value)) false outer table

/-- Opens the table of a header. It must not have been opened or made by dotted keys. -/
def openTable (path : List String) (document : TomlTable) : Option TomlTable := do
  let (outer, key) ← splitLast? path
  update false (fun _ members =>
    match members.find? key with
    | none => some (members.put key (.table false false []))
    | some (.table true false inner) => some (members.put key (.table false false inner))
    | some _ => none) false outer document

/-- Opens one more table of an array of tables. -/
def openElement (path : List String) (document : TomlTable) : Option TomlTable := do
  let (outer, key) ← splitLast? path
  update false (fun _ members =>
    match members.find? key with
    | none => some (members.put key (.tables [[]]))
    | some (.tables elements) => some (members.put key (.tables ([] :: elements)))
    | some _ => none) false outer document

/-- Gives a value to a key below the header at `path`. -/
def defineBelow (header path : List String) (value : TomlItem) (document : TomlTable) :
    Option TomlTable :=
  update false (fun _ members => define path value members) false header document

end TomlTable

end PinnedTree
