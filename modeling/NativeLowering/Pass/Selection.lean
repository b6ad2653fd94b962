/-!
# Selecting passes

Three passes can run over a function body before it is written. Whichever are selected, they run
in one fixed order.
-/

set_option autoImplicit false

namespace NativeLowering

/-- A pass over a function body. -/
inductive Pass where
  /-- Adds destructor calls where blocks are left. -/
  | destructors
  /-- Turns method calls into calls of functions that take the receiver. -/
  | receiver
  /-- Gives a variable to operands whose address is taken and that have none. -/
  | materialize
  deriving DecidableEq

namespace Pass

/-- Every pass, in the order they run. -/
def order : List Pass := [.destructors, .receiver, .materialize]

/-- The name a pass is selected by. -/
def spelling : Pass → String
  | .destructors => "destructors"
  | .receiver => "receiver"
  | .materialize => "materialize"

/-- The pass of a name. -/
def ofString? (name : String) : Option Pass := order.find? fun pass => pass.spelling == name

/-- What is said of a name that is no pass. -/
def unknownMessage (name : String) : String :=
  s!"unknown pass `{name}` (expected one of: destructors, receiver, materialize)"

/-- A pass is found under its own name. -/
theorem ofString?_spelling (pass : Pass) : ofString? pass.spelling = some pass := by
  cases pass <;> rfl

end Pass

/-- A selection of passes. -/
structure PassSet where
  destructors : Bool := false
  receiver : Bool := false
  materialize : Bool := false
  deriving DecidableEq

namespace PassSet

/-- No pass. -/
def empty : PassSet := {}

/-- Every pass. -/
def all : PassSet := { destructors := true, receiver := true, materialize := true }

/-- The passes that run unless something else is asked for. -/
def standard : PassSet := { destructors := true, materialize := true }

/-- Sets whether a pass is selected. -/
def set (passes : PassSet) (pass : Pass) (selected : Bool) : PassSet :=
  match pass with
  | .destructors => { passes with destructors := selected }
  | .receiver => { passes with receiver := selected }
  | .materialize => { passes with materialize := selected }

/-- Adds a pass. -/
def insert (passes : PassSet) (pass : Pass) : PassSet := passes.set pass true

/-- Takes a pass out. -/
def erase (passes : PassSet) (pass : Pass) : PassSet := passes.set pass false

/-- Whether a pass is selected. -/
def contains (passes : PassSet) : Pass → Bool
  | .destructors => passes.destructors
  | .receiver => passes.receiver
  | .materialize => passes.materialize

/-- The selected passes, in the order they run. -/
def toList (passes : PassSet) : List Pass := Pass.order.filter passes.contains

/-- The selection of the passes in a list. -/
def ofList (list : List Pass) : PassSet := list.foldl insert empty

end PassSet

/-- Which variables destructor calls are added for. -/
inductive DestructorPolicy where
  /-- Those of every class with a destructor. -/
  | allClasses
  /-- Those of classes with a destructor whose instances are shared. -/
  | sharedHeapOnly
  deriving DecidableEq

end NativeLowering
