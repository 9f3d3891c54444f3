import PinnedTree.Double
import PinnedTree.Text.Numeral

/-!
Doubles read from decimal text. Every numeral stands for the double nearest to it; magnitudes out
of range become infinite. The infinities and what is not a number have names, in any case of
letters.
-/

namespace PinnedTree.Double

def ofNumeral (numeral : Text.Numeral) : Double :=
  ofDecimal numeral.negative numeral.digits numeral.power

/-- The doubles that are named and not spelled in digits. -/
def named? (text : List Char) : Option Double :=
  let (negative, name) := Text.splitSign text
  let lower := name.map Char.toLower
  if lower = ['i', 'n', 'f'] ∨ lower = ['i', 'n', 'f', 'i', 'n', 'i', 't', 'y'] then
    some (.infinite negative)
  else if lower = ['n', 'a', 'n'] then some .nan
  else none

def read? (text : List Char) : Option Double :=
  ((Text.Numeral.read? text).map ofNumeral).or (named? text)

end PinnedTree.Double
