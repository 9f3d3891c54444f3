import PinnedTree.Config
import PinnedTree.Revision
import PinnedTree.Text.Lines

/-!
Events worth an entry in a log. An entry is made of a message and fields; only what has happened is
logged, not what was tried. The fields hold names and paths as they are, so that an entry can take
more than one line.
-/

namespace PinnedTree

inductive Event where
  | committed (revision : Revision) (nodeCount : Nat)
  | materialized (path : String) (revision : Revision) (properties childCount cached : Nat)
  | checkedChild (path : String) (revision : Revision) (found : Bool)
  | fetchedChildren (path : String) (revision : Revision) (offset requested returned : Nat)
  | loadedConfig (path : String) (config : Config)
  deriving DecidableEq, Repr

namespace Event

def entry : Event → String
  | committed revision nodeCount =>
    "DEBUG committed revision revision=" ++ revision.token ++ " node_count=" ++ toString nodeCount
  | materialized path revision properties childCount cached =>
    "DEBUG materialized node path=" ++ path ++ " revision=" ++ revision.token
      ++ " properties=" ++ toString properties ++ " child_count=" ++ toString childCount
      ++ " cached=" ++ toString cached
  | checkedChild path revision found =>
    "DEBUG checked uncached child path=" ++ path ++ " revision=" ++ revision.token
      ++ " exists=" ++ (if found then "true" else "false")
  | fetchedChildren path revision offset requested returned =>
    "DEBUG fetched children beyond cached prefix path=" ++ path ++ " revision=" ++ revision.token
      ++ " offset=" ++ toString offset ++ " requested=" ++ toString requested
      ++ " returned=" ++ toString returned
  | loadedConfig path config =>
    "DEBUG loaded config path=" ++ path ++ " config=" ++ config.inspect

/-- The lines of the entry for an event, without the blanks around them. -/
def lines (event : Event) : List String :=
  (((Text.lines event.entry.toList).map Text.trim).filter (· ≠ [])).map String.ofList

end Event

end PinnedTree
