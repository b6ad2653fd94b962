import NativeLowering.Text.Lines
import NativeLowering.Vocabulary.Spelling

/-!
# Text buffers

Written source is collected in buffers. A buffer knows how deep it is indented, and each text that
is appended says for itself whether its lines are indented and whether a line ending follows. A
text that spans lines is taken apart and laid out line by line; empty lines are not indented.
-/

set_option autoImplicit false

namespace NativeLowering

/-- What ends a line of written source. -/
inductive LineEnding where
  /-- What is usual on the platform: a line feed. -/
  | platform
  | lf
  | crlf
  deriving DecidableEq

/-- The characters of a line ending. -/
def LineEnding.text : LineEnding → String
  | .platform => "\n"
  | .lf => "\n"
  | .crlf => "\r\n"

/-- How written source is laid out. -/
structure Layout where
  /-- Spaces per level of indentation. -/
  indentWidth : Nat := Spelling.indentWidth
  lineEnding : LineEnding := .platform
  deriving DecidableEq

/-- How one text is appended. -/
inductive AppendMode where
  /-- A line of its own: indented, and ended. -/
  | line
  /-- A piece of the current line. -/
  | inline
  /-- The start of a line: indented, and not ended. -/
  | start
  /-- The end of the current line. -/
  | finish
  deriving DecidableEq

namespace AppendMode

/-- Whether lines are indented. -/
def indents : AppendMode → Bool
  | .line | .start => true
  | .inline | .finish => false

/-- Whether a line ending follows. -/
def ends : AppendMode → Bool
  | .line | .finish => true
  | .inline | .start => false

end AppendMode

namespace Layout

/-- The characters of the line ending. -/
def newline (layout : Layout) : String := layout.lineEnding.text

/-- Two line endings, which leave a blank line between two texts. -/
def blankLine (layout : Layout) : String := layout.newline ++ layout.newline

/-- The indentation at a depth. -/
def indentation (layout : Layout) (depth : Nat) : String :=
  String.ofList (List.replicate (layout.indentWidth * depth) ' ')

/-- A line at a depth. -/
def indentLine (layout : Layout) (depth : Nat) (line : String) : String :=
  if line = "" then line else layout.indentation depth ++ line

/-- A text laid out at a depth. -/
def format (layout : Layout) (depth : Nat) (mode : AppendMode) (text : String) : String :=
  let lines := Text.lines text
  let lines := if mode.indents then lines.map (layout.indentLine depth) else lines
  layout.newline.intercalate lines ++ if mode.ends then layout.newline else ""

end Layout

/-- A buffer of written source. -/
structure Buffer where
  text : String
  depth : Nat
  layout : Layout

namespace Buffer

/-- An empty buffer, indented to a depth. -/
def atDepth (layout : Layout) (depth : Nat) : Buffer := { text := "", depth, layout }

/-- An empty buffer. -/
def new (layout : Layout) : Buffer := atDepth layout 0

/-- Whether nothing has been written. -/
def isEmpty (buffer : Buffer) : Bool := buffer.text == ""

/-- Appends a text that has been laid out already. -/
def write (buffer : Buffer) (text : String) : Buffer :=
  { buffer with text := buffer.text ++ text }

/-- Appends a text. -/
def append (buffer : Buffer) (text : String) (mode : AppendMode) : Buffer :=
  buffer.write (buffer.layout.format buffer.depth mode text)

/-- Indents one level deeper. -/
def indent (buffer : Buffer) : Buffer := { buffer with depth := buffer.depth + 1 }

/-- Indents one level less, where there is one. -/
def dedent (buffer : Buffer) : Buffer := { buffer with depth := buffer.depth - 1 }

end Buffer

end NativeLowering
