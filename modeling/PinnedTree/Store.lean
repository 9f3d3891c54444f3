import PinnedTree.NameFilter
import PinnedTree.Path
import PinnedTree.Revision

/-!
Stores of trees. A store answers two questions about a node at a revision: what its listing is, and
whether it is there. Answers may change the state of a store, so that one may fail or speak
differently from call to call.
-/

namespace PinnedTree

/-- What a listing is asked for. -/
structure ListRequest where
  path : String
  revision : Revision
  /-- The number of levels of content below the node. -/
  depth : Nat := 0
  /-- The number of children to skip. -/
  offset : Nat := 0
  /-- The greatest number of children, all when there is none. -/
  max : Option Nat := none
  filter : Option NameFilter := none
  deriving DecidableEq, Repr

/-- Why a store does not answer. -/
inductive StoreError where
  | revisionNotFound (revision : Revision)
  | nodeNotFound (path : String) (revision : Revision)
  | badPath (error : NameError)
  | serialization (message : String)
  | unavailable (message : String)
  deriving DecidableEq, Repr

def StoreError.message : StoreError → String
  | revisionNotFound revision => "revision not found: " ++ revision.token
  | nodeNotFound path revision => "node not found: " ++ path ++ " at revision " ++ revision.token
  | badPath error => error.message
  | serialization message => "serialization error: " ++ message
  | unavailable message => "store unavailable: " ++ message

/-- The questions that a store with states `σ` answers. -/
class NodeStore (σ : Type) where
  /-- The latest revision. -/
  head : σ → Except StoreError Revision
  /-- The text of a listing. -/
  list : ListRequest → σ → Except StoreError String × σ
  /-- Whether there is a node at a path. -/
  holds : String → Revision → σ → Except StoreError Bool × σ

end PinnedTree
