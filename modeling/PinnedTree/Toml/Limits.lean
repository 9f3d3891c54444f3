import PinnedTree.Config
import PinnedTree.Toml.Reader

/-!
The limits of snapshots read from a TOML document. Keys that are not known are passed over.
-/

namespace PinnedTree.Config

/-- The natural number that a key gives, or the default where the key is missing. -/
def natural? (document : TomlTable) (key : String) (default : Nat) : Option Nat :=
  match document.find? key with
  | none => some default
  | some (.integer (.ofNat value)) => some value
  | some _ => none

def ofToml? (text : String) : Option Config := do
  let document ← Toml.ofString? text
  let default : Config := {}
  let childCacheLimit ← natural? document "child_cache_limit" default.childCacheLimit
  let maxEnumerateAll ← natural? document "max_enumerate_all" default.maxEnumerateAll
  some { childCacheLimit, maxEnumerateAll }

end PinnedTree.Config
