import NativeLowering.Command.Args
import NativeLowering.Command.Files
import NativeLowering.Generate

/-!
# Running a command

What a command line prints, and the code it leaves with: 0 if it did what it was asked, 1 if a
file could not be lowered, read or written, and 2 if it asked for nothing that makes sense.
-/

set_option autoImplicit false

namespace NativeLowering.Command

/-- What a command leaves behind, besides files. -/
structure Report where
  exit : Nat
  stdout : String := ""
  stderr : String := ""

namespace Report

/-- The report of a command that failed. -/
def failure (message : String) : Report := { exit := 1, stderr := message ++ "\n" }

end Report

/-- The line that names the program and its version. -/
def versionLine : String := "tscc " ++ Spelling.version ++ "\n"

/-- How the commands are used. -/
def usage : String :=
  "Lower typed ASTs to C++\n" ++
  "\n" ++
  "Usage: tscc emit [OPTIONS] <FILE>\n" ++
  "       tscc check [OPTIONS] <FILE>\n" ++
  "\n" ++
  "Options:\n" ++
  "      --prelude <FILE>       Declarations to lower against; may be repeated\n" ++
  "      --line-ending <END>    platform, lf or crlf\n" ++
  "      --classes-first        Print classes before free functions\n" ++
  "      --enable-pass <PASS>   destructors, receiver or materialize\n" ++
  "      --disable-pass <PASS>  destructors, receiver or materialize\n" ++
  "      --destructors <WHICH>  all or shared-heap\n" ++
  "      --prefix <PREFIX>      What mangled names start with\n" ++
  "  -o, --output <OUT>         Where emit writes the source\n" ++
  "  -h, --help                 Print help\n"

/-- What is said of a command line that makes no sense. -/
def UsageError.message : UsageError → String
  | .nothingAsked | .help => usage
  | .version => versionLine
  | .unknownCommand => "error: unrecognized subcommand\n"
  | .missingFile => "error: the file to lower is not given\n"
  | .unknownArgument => "error: unexpected argument\n"
  | .surplusValue => "error: unexpected value for a flag that takes none\n"
  | .invalidValue => "error: invalid or missing value\n"
  | .unknownPass => "error: unknown pass\n"
  | .repeated => "error: an argument cannot be used multiple times\n"

/-- The report on a command line that asks for no lowering. -/
def UsageError.report (reason : UsageError) : Report :=
  match reason with
  | .help | .version => { exit := 0, stdout := reason.message }
  | _ => { exit := 2, stderr := reason.message }

/-- What is said of a file that cannot be read. -/
def ReadError.message (path : String) : ReadError → String
  | .inaccessible reason => s!"Cannot access file '{path}': {reason}"
  | .unreadable reason => s!"Error reading file '{path}': {reason}"

/-- What is said below the line that names the file. -/
def describeFailure : GenerationError → String
  | .decode => "the text is not a program"
  | .lowering cause =>
    let advice := match cause.help? with
      | some text => "\nhelp: " ++ text
      | none => ""
    cause.code ++ ": " ++ cause.message ++ advice

variable {m : Type → Type} [Monad m]

/-- The text of the file at a path. -/
def readText (files : FileAccess m) (path : String) : m (Except String String) := do
  let result ← files.read path
  return result.mapError (ReadError.message path)

/-- The texts of the files at some paths, up to the first that cannot be read. -/
def readTexts (files : FileAccess m) : List String → m (Except String (List String))
  | [] => return .ok []
  | path :: paths => do
    match ← readText files path with
    | .error message => return .error message
    | .ok text =>
      match ← readTexts files paths with
      | .error message => return .error message
      | .ok texts => return .ok (text :: texts)

/-- The source that an invocation asks for. The file is read before its preludes. -/
def Invocation.lower (files : FileAccess m) (invocation : Invocation) :
    m (Except String String) := do
  match ← readText files invocation.file with
  | .error message => return .error message
  | .ok program =>
    match ← readTexts files invocation.preludes with
    | .error message => return .error message
    | .ok preludes =>
      match generateText invocation.options program preludes with
      | .ok text => return .ok text
      | .error reason =>
        let file := invocation.file
        let detail := describeFailure reason
        return .error s!"error in '{file}':\n{detail}"

/-- Puts the source where an invocation wants it. -/
def Invocation.deliver (files : FileAccess m) (invocation : Invocation) (text : String) :
    m Report := do
  match invocation.verb, invocation.output with
  | .check, _ => return { exit := 0, stdout := "✓ Lowering succeeded\n" }
  | .emit, none => return { exit := 0, stdout := text }
  | .emit, some path =>
    match ← files.write path text with
    | .ok () => return { exit := 0 }
    | .error reason => return .failure s!"Error writing file '{path}': {reason}"

/-- Runs a command line. -/
def run (files : FileAccess m) (args : List String) : m Report := do
  match parse args with
  | .error reason => return reason.report
  | .ok invocation =>
    match ← invocation.lower files with
    | .error message => return .failure message
    | .ok text => invocation.deliver files text

end NativeLowering.Command
