/-!
# Paths

A path is a row of steps from a directory. Each part between slashes is one step, and slashes in
a row count as one. A step does not say whether it can be taken: `m/..` leads to where it starts
only if `m` is a directory.
-/

set_option autoImplicit false

namespace NativeLowering.Command

/-- One step of a path. -/
inductive Step where
  /-- Stays in the directory. -/
  | stay
  /-- Goes to the directory around it. -/
  | up
  /-- Goes to what has a name in the directory. -/
  | enter (name : String)
  deriving DecidableEq

/-- The step that a part between slashes stands for. -/
def Step.ofPart? : String → Option Step
  | "" => none
  | "." => some .stay
  | ".." => some .up
  | name => some (.enter name)

/-- A path, cut into its steps. -/
structure Path where
  /-- Whether it starts at the root of the file system, not in the working directory. -/
  fromRoot : Bool
  steps : List Step
  /-- Whether its last character is a slash, so that it asks for a directory. -/
  endsInSlash : Bool

/-- The path that a text spells. -/
def Path.ofString (text : String) : Path :=
  let cs := text.toList
  { fromRoot := cs.head? == some '/'
    steps := (cs.splitOn '/').filterMap fun part => Step.ofPart? (String.ofList part)
    endsInSlash := cs.getLast? == some '/' }

/-- A place in a file system: its own name, then those of the directories around it, up to the
root, which is the empty list. -/
abbrev Place := List String

namespace Place

/-- Where a step leads to from a directory. The root has nothing around it but itself. -/
def move (here : Place) : Step → Place
  | .stay => here
  | .up => here.tail
  | .enter name => name :: here

/-- The directories around a place, the next one first. -/
def around : Place → List Place
  | [] => []
  | _ :: outer => outer :: around outer

end Place

end NativeLowering.Command
