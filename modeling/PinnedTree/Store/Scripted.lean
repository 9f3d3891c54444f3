import PinnedTree.Store

/-!
A store that answers from a script: for a path, and perhaps an offset, it has answers that it gives
one after the other, the last one again and again.
-/

namespace PinnedTree

/-- The answers to the listings of one path, or of one path at one offset. -/
structure ScriptEntry where
  path : String
  offset : Option Nat
  answers : List (Except StoreError String)

structure ScriptedStore where
  latest : Revision
  entries : List ScriptEntry
  existence : List (String × Except StoreError Bool)

namespace ScriptEntry

/-- The present answer, and the entry with the answers left. -/
def answer? (entry : ScriptEntry) : Option (Except StoreError String × ScriptEntry) :=
  match entry.answers with
  | [] => none
  | [only] => some (only, entry)
  | next :: rest => some (next, { entry with answers := rest })

end ScriptEntry

namespace ScriptedStore

/-- The answer of the first entry of a kind, and the entries after it has been given. -/
def answerFrom? (applies : ScriptEntry → Bool) :
    List ScriptEntry → Option (Except StoreError String × List ScriptEntry)
  | [] => none
  | entry :: rest =>
    if applies entry then entry.answer?.map fun (answer, entry) => (answer, entry :: rest)
    else (answerFrom? applies rest).map fun (answer, rest) => (answer, entry :: rest)

/-- A listing is answered by the entry for its path and offset, else by one for its path. -/
def list (request : ListRequest) (store : ScriptedStore) :
    Except StoreError String × ScriptedStore :=
  let exact := answerFrom?
    (fun entry => entry.path = request.path && entry.offset = some request.offset) store.entries
  let general := answerFrom?
    (fun entry => entry.path = request.path && entry.offset = none) store.entries
  match exact.or general with
  | some (answer, entries) => (answer, { store with entries })
  | none => (.error (.nodeNotFound request.path request.revision), store)

/-- A path that the script does not name does not exist. -/
def holds (path : String) (store : ScriptedStore) : Except StoreError Bool :=
  ((store.existence.find? fun entry => entry.1 = path).map Prod.snd).getD (.ok false)

instance : NodeStore ScriptedStore where
  head store := .ok store.latest
  list := list
  holds path _ store := (store.holds path, store)

end ScriptedStore

end PinnedTree
