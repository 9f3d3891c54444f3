import PinnedTree.Text.Quoted

/-!
Absolute paths of nodes. The root is `/`; every other path is a sequence of non-empty names, each
after one `/`. Paths and names are plain strings that are checked where they enter.
-/

namespace PinnedTree

/-- Why a text is refused as a path or as the name of a node. -/
inductive NameError where
  | invalidPath (path : String)
  | invalidName (name : String)
  deriving DecidableEq, Repr

/-- A path is shown as it is, a name in quotes. -/
def NameError.message : NameError → String
  | .invalidPath path => "invalid path: " ++ path
  | .invalidName name => "invalid node name: " ++ Text.quote name

namespace Path

def root : String := "/"

/-- The path of the child `name` below `parent`. The root takes no second separator. -/
def child (parent name : String) : String :=
  if parent = root then root ++ name else parent ++ "/" ++ name

/-- The names along a path from the root down. Empty names are skipped. -/
def segments (path : String) : List String :=
  ((path.toList.splitOn '/').filter (· ≠ [])).map String.ofList

/-- A name is one segment of a path: not empty, and without a separator. -/
def IsName (name : String) : Prop :=
  name ≠ "" ∧ '/' ∉ name.toList

instance (name : String) : Decidable (IsName name) :=
  inferInstanceAs (Decidable (_ ∧ _))

/-- A path is the root, or names that each follow one separator. -/
def IsPath (path : String) : Prop :=
  path = root ∨
    path.toList.head? = some '/' ∧ ∀ segment ∈ path.toList.tail.splitOn '/', segment ≠ []

instance (path : String) : Decidable (IsPath path) :=
  inferInstanceAs (Decidable (_ ∨ _ ∧ _))

def checkName (name : String) : Except NameError Unit :=
  if IsName name then .ok () else .error (.invalidName name)

def check (path : String) : Except NameError Unit :=
  if IsPath path then .ok () else .error (.invalidPath path)

theorem checkName_eq_ok_iff {name : String} : checkName name = .ok () ↔ IsName name := by
  unfold checkName
  split <;> simp_all

theorem check_eq_ok_iff {path : String} : check path = .ok () ↔ IsPath path := by
  unfold check
  split <;> simp_all

end Path

end PinnedTree
