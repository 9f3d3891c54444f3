import PinnedTree.Glob.Matching
import PinnedTree.Json.Record
import PinnedTree.Text.Quoted

/-!
Filters that say which names a listing shows. A name passes a list of rules when no excluding
pattern accepts it and an including one does; a list without including patterns includes every
name.
-/

namespace PinnedTree

structure NameRules where
  including : List Glob := []
  excluding : List Glob := []
  deriving DecidableEq, Repr

inductive FilterError where
  /-- The text is not JSON for a filter. -/
  | malformed
  | badPattern (pattern : String) (error : GlobError)
  deriving DecidableEq, Repr

namespace NameRules

def passes (rules : NameRules) (name : String) : Bool :=
  !rules.excluding.any (·.accepts name)
    && (rules.including.isEmpty || rules.including.any (·.accepts name))

/-- Adds a pattern to the rules. A dash in front makes it an excluding one. -/
def add (rules : NameRules) (pattern : String) : Except FilterError NameRules :=
  let (excludes, source) :=
    match pattern.toList with
    | '-' :: source => (true, String.ofList source)
    | _ => (false, pattern)
  match Glob.ofString source with
  | .error error => .error (.badPattern pattern error)
  | .ok glob =>
    if excludes then .ok { rules with excluding := rules.excluding ++ [glob] }
    else .ok { rules with including := rules.including ++ [glob] }

/-- The rules for a list of patterns. The first bad pattern is the error. -/
def ofPatterns (patterns : List String) : Except FilterError NameRules :=
  patterns.foldlM add {}

end NameRules

/-- Rules for the names of children and for the names of properties. -/
structure NameFilter where
  nodes : NameRules := {}
  properties : NameRules := {}
  deriving DecidableEq, Repr

namespace NameFilter

def ofPatterns (nodes properties : List String) : Except FilterError NameFilter := do
  let nodes ← NameRules.ofPatterns nodes
  let properties ← NameRules.ofPatterns properties
  return { nodes, properties }

def fields : List String := ["nodes", "properties"]

def ofJson (text : String) : Except FilterError NameFilter :=
  match Json.Record.read? fields Json.strings? text.toList with
  | none => .error .malformed
  | some known => ofPatterns ((known.find? "nodes").getD []) ((known.find? "properties").getD [])

end NameFilter

def FilterError.message : FilterError → String
  | malformed => "invalid filter: not a record of two lists of patterns"
  | badPattern pattern error => "invalid filter: " ++ Text.quote pattern ++ ": " ++ error.message

end PinnedTree
