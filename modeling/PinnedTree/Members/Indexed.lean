import PinnedTree.Members

/-!
Named members in an array, with an index beside it that says where the member of each name stands.
A look-up asks the index only. That the array has the position is not checked before, so an index
that is wrong makes it fail.
-/

namespace PinnedTree

/-- A position that an array of `size` entries does not have. -/
structure OutOfBounds where
  position : Nat
  size : Nat
  deriving DecidableEq, Repr

/-- Members in order, and the position of each name. -/
structure IndexedMembers (α : Type) where
  entries : Array (String × α) := #[]
  positions : Members Nat := []

namespace IndexedMembers

variable {α : Type}

def names (table : IndexedMembers α) : List String :=
  Members.names table.entries.toList

def entry (table : IndexedMembers α) (position : Nat) : Except OutOfBounds (String × α) :=
  match table.entries[position]? with
  | some member => .ok member
  | none => .error ⟨position, table.entries.size⟩

/-- The member called `name`, if the index has the name. -/
def find? (name : String) (table : IndexedMembers α) : Except OutOfBounds (Option (String × α)) :=
  match table.positions.find? name with
  | some position => (table.entry position).map some
  | none => .ok none

/-- Writes `value` under `name`: at the position that the index has for the name, else at the end
of the array. -/
def put (name : String) (value : α) (table : IndexedMembers α) :
    Except OutOfBounds (IndexedMembers α) :=
  match table.positions.find? name with
  | some position =>
    if hBound : position < table.entries.size then
      .ok { table with entries := table.entries.set position (name, value) }
    else .error ⟨position, table.entries.size⟩
  | none =>
    .ok
      { entries := table.entries.push (name, value)
        positions := table.positions.put name table.entries.size }

end IndexedMembers

end PinnedTree
