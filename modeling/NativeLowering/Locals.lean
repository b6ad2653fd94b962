import NativeLowering.Model.Type

/-!
# Local bindings

The variables in scope at a point of a function body, with their types, in a stack of frames that
follows the nesting of blocks. A name means its innermost binding, and within a frame its latest.

The frames are kept innermost first and the bindings of a frame latest first, so that lookup is a
search from the front.
-/

set_option autoImplicit false

namespace NativeLowering

/-- What a frame of local bindings belongs to. -/
inductive FrameKind where
  /-- The parameters and outermost variables of a function. -/
  | function
  | block
  /-- The body of a loop, which breaks and continues leave. -/
  | loop
  deriving DecidableEq

/-- The bindings of one block. -/
structure Frame where
  kind : FrameKind
  /-- The bindings, latest first. -/
  bindings : List (String × Ty)

/-- The local bindings at a point of a body. -/
structure Locals where
  /-- The open frames, innermost first. -/
  frames : List Frame
  /-- The class whose instance the body runs on, if any. -/
  thisClass : Option String

namespace Locals

/-- The locals at the start of a body: one frame, with nothing in it. -/
def start (thisClass : Option String) : Locals :=
  { frames := [{ kind := .function, bindings := [] }], thisClass }

/-- How many frames are open. -/
def depth (locals : Locals) : Nat := locals.frames.length

/-- Opens a frame. -/
def push (locals : Locals) (kind : FrameKind) : Locals :=
  { locals with frames := { kind, bindings := [] } :: locals.frames }

/-- Closes the innermost frame and hands it back. -/
def pop (locals : Locals) : Option Frame × Locals :=
  match locals.frames with
  | [] => (none, locals)
  | frame :: frames => (some frame, { locals with frames })

/-- Binds a name in the innermost frame; without a frame nothing is bound. -/
def declare (locals : Locals) (name : String) (type : Ty) : Locals :=
  match locals.frames with
  | [] => locals
  | frame :: frames =>
    { locals with frames := { frame with bindings := (name, type) :: frame.bindings } :: frames }

/-- Every binding in scope, the one that a lookup meets first in front. -/
def visible (locals : Locals) : List (String × Ty) := locals.frames.flatMap Frame.bindings

/-- The type of a name, if it is bound. -/
def lookup? (locals : Locals) (name : String) : Option Ty := locals.visible.lookup name

/-- Whether a name is bound. -/
def binds (locals : Locals) (name : String) : Bool := (locals.lookup? name).isSome

end Locals

end NativeLowering
