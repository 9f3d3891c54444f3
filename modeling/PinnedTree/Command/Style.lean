/-!
Text in colours for a terminal. A style is switched on before the text and everything is switched
off after it; where the text itself switches everything off, the style is switched on again.
-/

namespace PinnedTree

inductive Style where
  | bold
  | dimmed
  | yellow
  | blue
  | boldBlue
  deriving DecidableEq, Repr

namespace Style

def reset : List Char := ['\x1b', '[', '0', 'm']

def code : Style → List Char
  | bold => ['1']
  | dimmed => ['2']
  | yellow => ['3', '3']
  | blue => ['3', '4']
  | boldBlue => ['1', ';', '3', '4']

def opening (style : Style) : List Char :=
  ['\x1b', '['] ++ style.code ++ ['m']

/-- Switches a style on again wherever a text switches everything off. -/
def reopen (opening : List Char) : List Char → List Char
  | '\x1b' :: '[' :: '0' :: 'm' :: rest => reset ++ opening ++ reopen opening rest
  | c :: rest => c :: reopen opening rest
  | [] => []

/-- A text in a style, or as it is when there are no colours. -/
def paint (colored : Bool) (style : Style) (text : String) : String :=
  if colored then
    String.ofList (style.opening ++ reopen style.opening text.toList ++ reset)
  else text

end Style

end PinnedTree
