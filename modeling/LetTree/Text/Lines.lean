/-!
# Lines of a text

A line ends at a line feed, which is not part of it, and neither is one carriage return right before
that line feed. What follows the last line feed is a line only if it is not empty, and it keeps a
carriage return at its end.
-/

namespace LetTree.Text

/-- Removes a carriage return from the end of a line given in reverse. -/
def dropReturn : List Char → List Char
  | '\r' :: line => line
  | line => line

/-- The lines of a text whose first line has already begun with the reverse of `begun`. -/
def linesFrom (begun : List Char) : List Char → List (List Char)
  | [] => if begun.isEmpty then [] else [begun.reverse]
  | '\n' :: cs => (dropReturn begun).reverse :: linesFrom [] cs
  | c :: cs => linesFrom (c :: begun) cs

def lines (cs : List Char) : List (List Char) :=
  linesFrom [] cs

end LetTree.Text
