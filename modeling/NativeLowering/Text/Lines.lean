/-!
# Lines of a text

A line ends at a line feed, and one carriage return right before that line feed (or at the very
end of the text) belongs to the line break, not to the line. A text always has at least one
line, and a text that ends in a line feed has an empty last line.
-/

set_option autoImplicit false

namespace NativeLowering.Text

/-- A line without the one carriage return it may end with. -/
def dropReturn (line : List Char) : List Char :=
  if line.getLast? = some '\r' then line.dropLast else line

/-- The lines of a text given as characters. -/
def charLines (cs : List Char) : List (List Char) := (cs.splitOn '\n').map dropReturn

/-- The lines of a text, without their line breaks. -/
def lines (s : String) : List String := (charLines s.toList).map String.ofList

end NativeLowering.Text
