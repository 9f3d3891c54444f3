import PinnedTree.Text.CodePoints

/-!
Lines of text, and blanks around them. A line ends with a line feed, before which a carriage return
may stand; what follows the last line feed is a line only if it is not empty.
-/

namespace PinnedTree.Text

/-- Every code point with the property White_Space. -/
def blankPoints : CodePoints :=
  ⟨[(0x0009, 0x000D), (0x0020, 0x0020), (0x0085, 0x0085), (0x00A0, 0x00A0), (0x1680, 0x1680),
    (0x2000, 0x200A), (0x2028, 0x2029), (0x202F, 0x202F), (0x205F, 0x205F), (0x3000, 0x3000)]⟩

def trim (text : List Char) : List Char :=
  ((text.dropWhile blankPoints.contains).reverse.dropWhile blankPoints.contains).reverse

def withoutReturn (line : List Char) : List Char :=
  if line.getLast? = some '\r' then line.dropLast else line

def lines (text : List Char) : List (List Char) :=
  let pieces := text.splitOn '\n'
  pieces.dropLast.map withoutReturn ++ pieces.getLast?.toList.filter (· ≠ [])

end PinnedTree.Text
