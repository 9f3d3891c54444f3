import PinnedTree.Text.Visible

/-!
Text written between quotes so that it can be read off a single line. The quote, the backslash and
what would not show are escaped, all else stands as it is.
-/

namespace PinnedTree.Text

def codePointEscape (c : Char) : List Char :=
  ['\\', 'u', '{'] ++ Nat.toDigits 16 c.toNat ++ ['}']

/-- How `c` is written between two `quote` characters. -/
def escape (quote c : Char) : List Char :=
  if c = quote ∨ c = '\\' then ['\\', c]
  else if c = '\n' then ['\\', 'n']
  else if c = '\r' then ['\\', 'r']
  else if c = '\t' then ['\\', 't']
  else if c = '\x00' then ['\\', '0']
  else if isVisible c then [c]
  else codePointEscape c

def quoted (text : List Char) : List Char :=
  '"' :: text.flatMap (escape '"') ++ ['"']

/-- One character in single quotes. -/
def quotedChar (c : Char) : List Char :=
  '\'' :: escape '\'' c ++ ['\'']

def quote (s : String) : String :=
  String.ofList (quoted s.toList)

end PinnedTree.Text
