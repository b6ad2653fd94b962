import NativeLowering.Layout.Buffer
import NativeLowering.Pass.Selection

/-!
# Options

What can be chosen about the written source. Every option has a usual value.
-/

set_option autoImplicit false

namespace NativeLowering

/-- The order of the sections after the includes. -/
inductive OutputOrder where
  | functionsFirst
  | classesFirst
  deriving DecidableEq

/-- The choices to be made about the written source. -/
structure Options where
  /-- What mangled names start with. -/
  mangling : String := Spelling.mangling
  indentWidth : Nat := Spelling.indentWidth
  lineEnding : LineEnding := .platform
  outputOrder : OutputOrder := .functionsFirst
  /-- The passes that run over every body. -/
  passes : PassSet := .standard
  destructorPolicy : DestructorPolicy := .allClasses

namespace Options

/-- The layout that the options ask for. -/
def layout (options : Options) : Layout :=
  { indentWidth := options.indentWidth, lineEnding := options.lineEnding }

end Options

end NativeLowering
