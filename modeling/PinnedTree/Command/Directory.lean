import PinnedTree.Command
import PinnedTree.Text.Utf8

/-!
The directory that a command works in, and the paths that lead to its files. A path is followed
component by component, from the root or from the directory. An empty component and `.` stay in a
directory, `..` goes up to the one above, which above the root is the root itself, and nothing can
follow a file.
-/

namespace PinnedTree

/-- A directory that holds some files, given by their paths in it. A later file replaces an earlier
one of the same path. -/
structure Directory where
  files : List (String × String)

/-- A place in the tree of all files: the names from the root down, as far as they are known. -/
abbrev Place := List (Option (List Char))

namespace Directory

/-- A path has fewer bytes than this. -/
def pathLimit : Nat := 4096

/-- The directory is two levels below the root, under names that are not known. -/
def home : Place := [none, none]

def components (path : String) : List (List Char) :=
  path.toList.splitOn '/'

def placeOf (path : String) : Place :=
  home ++ ((components path).filter fun name => name ≠ [] ∧ name ≠ ['.']).map some

/-- The place of the null device, which is in every tree of files and has no contents. -/
def nullDevice : Place := [some "dev".toList, some "null".toList]

def known (directory : Directory) : List (Place × String) :=
  (nullDevice, "") :: directory.files.map fun (path, contents) => (placeOf path, contents)

/-- Whether a place lies on the way to the directory or to a file that is known. -/
def isDirectory (directory : Directory) (place : Place) : Bool :=
  place.isPrefixOf home || directory.known.any fun (file, _) =>
    place.isPrefixOf file && place.length < file.length

/-- The place that some components lead to, if they pass directories only. -/
def follow (directory : Directory) (place : Place) : List (List Char) → Option Place
  | [] => some place
  | component :: rest =>
    if directory.isDirectory place then
      if component = [] ∨ component = ['.'] then directory.follow place rest
      else if component = ['.', '.'] then directory.follow place.dropLast rest
      else directory.follow (place ++ [some component]) rest
    else none

def read? (directory : Directory) (path : String) : Option String :=
  if Text.byteLength path.toList < pathLimit then do
    let start := if path.toList.head? = some '/' then [] else home
    let place ← directory.follow start (components path)
    directory.known.reverse.lookup place
  else none

end Directory

end PinnedTree
