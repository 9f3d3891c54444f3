import PinnedTree.Json.Record

/-!
How far snapshots read ahead and how much they will enumerate.
-/

namespace PinnedTree

/-- The limits that snapshots keep to. -/
structure Config where
  /-- The number of children that a node asks for and keeps when it is read. -/
  childCacheLimit : Nat := 1000
  /-- The greatest number of children for which all children may be asked for. -/
  maxEnumerateAll : Nat := 2147483647
  deriving DecidableEq, Repr, Inhabited

namespace Config

def fields : List String := ["child_cache_limit", "max_enumerate_all"]

/-- The limits that a record gives, with the others at their defaults. -/
def ofFields (known : Members Nat) : Config :=
  let default : Config := {}
  { childCacheLimit := (known.find? "child_cache_limit").getD default.childCacheLimit
    maxEnumerateAll := (known.find? "max_enumerate_all").getD default.maxEnumerateAll }

def ofJson? (text : String) : Option Config :=
  (Json.Record.read? fields Json.natural? text.toList).map ofFields

def toJson (config : Config) : Json :=
  .object [
    ("child_cache_limit", .atom (.number (.integer config.childCacheLimit))),
    ("max_enumerate_all", .atom (.number (.integer config.maxEnumerateAll)))]

def inspect (config : Config) : String :=
  "KernelConfig \x7b child_cache_limit: " ++ toString config.childCacheLimit
    ++ ", max_enumerate_all: " ++ toString config.maxEnumerateAll ++ " \x7d"

end Config

end PinnedTree
