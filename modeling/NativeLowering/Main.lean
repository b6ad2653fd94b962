import NativeLowering.Command.Run

/-!
# The program

Runs the command line against the real files.
-/

set_option autoImplicit false

namespace NativeLowering.Command

/-- The number of an error. Some calls of the system give it with its sign turned. -/
def errorNumber (code : UInt32) : Nat := (min code (0 - code)).toNat

/-- The fault that has a number. -/
def faultOf? : Nat → Option FileFault
  | 2 => some .absent
  | 20 => some .throughFile
  | 21 => some .isDirectory
  | 28 => some .noRoom
  | 36 => some .tooLong
  | _ => none

/-- The number of a failure, with what the system says of it. -/
def detailsOf? : IO.Error → Option (Nat × String)
  | .noFileOrDirectory _ code details | .inappropriateType _ code details
  | .permissionDenied _ code details | .invalidArgument _ code details
  | .resourceExhausted _ code details => some (errorNumber code, details)
  | _ => none

/-- The fault that a failure comes from, if it is one of those known. -/
def failureFault? (failure : IO.Error) : Option FileFault :=
  (detailsOf? failure).bind fun details => faultOf? details.1

/-- The reason that the system gives for a failure. -/
def reasonOf (failure : IO.Error) : String :=
  match failureFault? failure, detailsOf? failure with
  | some fault, _ => fault.reason
  | none, some (number, details) => s!"{details} (os error {number})"
  | none, none => toString failure

/-- The text of the file at a path. -/
def readReal (path : String) : IO (Except ReadError String) := do
  try
    let text ← IO.FS.readFile path
    return .ok text
  catch failure =>
    match failureFault? failure with
    | some .absent | some .throughFile | some .tooLong =>
      return .error (.inaccessible (reasonOf failure))
    | _ => return .error (.unreadable (reasonOf failure))

/-- Writes a text to a path. -/
def writeReal (path text : String) : IO (Except String Unit) := do
  try
    IO.FS.writeFile path text
    return .ok ()
  catch failure => return .error (reasonOf failure)

/-- Access to the real files. -/
def realFiles : FileAccess IO := { read := readReal, write := writeReal }

end NativeLowering.Command

/-- Runs the command line that the words spell. -/
def main (args : List String) : IO UInt32 := do
  let report ← NativeLowering.Command.run NativeLowering.Command.realFiles args
  IO.print report.stdout
  IO.eprint report.stderr
  return report.exit.toUInt32
