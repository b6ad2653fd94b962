/-!
# Blank characters and trimming

A character is blank when Unicode gives it the property `White_Space`; that is a larger set than
the one `Char.isWhitespace` tests, and it is the set that separates words in the texts this
library lays out. The file holds the table of that property and the functions that cut blanks
off the ends of a text.
-/

set_option autoImplicit false

namespace NativeLowering.Text

/-- The code points with the property `White_Space`, as inclusive ranges in ascending order. -/
def blankRanges : List (Nat × Nat) :=
  [(0x09, 0x0D), (0x20, 0x20), (0x85, 0x85), (0xA0, 0xA0), (0x1680, 0x1680), (0x2000, 0x200A),
   (0x2028, 0x2029), (0x202F, 0x202F), (0x205F, 0x205F), (0x3000, 0x3000)]

/-- Whether a character is blank. -/
def isBlank (c : Char) : Bool :=
  blankRanges.any fun range => range.1 ≤ c.toNat && c.toNat ≤ range.2

/-- The characters without the blanks they start with. -/
def dropBlanks (cs : List Char) : List Char := cs.dropWhile isBlank

/-- The characters without the blanks they end with. -/
def dropEndBlanks (cs : List Char) : List Char := (dropBlanks cs.reverse).reverse

/-- The text without the blanks it ends with. -/
def trimEnd (s : String) : String := String.ofList (dropEndBlanks s.toList)

/-- The text without the blanks at either end. -/
def trim (s : String) : String := String.ofList (dropEndBlanks (dropBlanks s.toList))

end NativeLowering.Text
