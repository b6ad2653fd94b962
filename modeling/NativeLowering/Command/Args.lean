import NativeLowering.Options

/-!
# The command line

Two commands lower a file: `emit` writes the source, `check` only says whether there is any. Both
take the file, preludes and the choices of `Options`.

Words are read from left to right. What a word gives is settled only when the next word needs it
to be, or at the end; so of two mistakes the one that shows first is not always the one that
stands first. A word that no command understands is reported before a mistake that is still
pending.
-/

set_option autoImplicit false

namespace NativeLowering.Command

/-- Why a command line asks for no lowering. -/
inductive UsageError where
  /-- There is nothing on it. -/
  | nothingAsked
  /-- It asks for help. -/
  | help
  /-- It asks for the version. -/
  | version
  | unknownCommand
  | missingFile
  | unknownArgument
  /-- A value is attached to a word that takes none. -/
  | surplusValue
  /-- A value is missing, empty where it names a file, or not one of those listed. -/
  | invalidValue
  | unknownPass
  /-- What can be chosen once is chosen twice. -/
  | repeated
  deriving DecidableEq

/-- The two commands. -/
inductive Verb where
  | emit
  | check
  deriving DecidableEq

/-- The command of a name. -/
def Verb.ofString? : String → Option Verb
  | "emit" => some .emit
  | "check" => some .check
  | _ => none

/-- A choice that takes a value. -/
inductive Setting where
  | output | preludeFile | lineEnding | enablePass | disablePass | destructors | mangling
  deriving DecidableEq

namespace Setting

/-- The setting of a long name, among those that a command has. -/
def ofString? (verb : Verb) : String → Option Setting
  | "output" => if verb = .emit then some .output else none
  | "prelude" => some .preludeFile
  | "line-ending" => some .lineEnding
  | "enable-pass" => some .enablePass
  | "disable-pass" => some .disablePass
  | "destructors" => some .destructors
  | "prefix" => some .mangling
  | _ => none

end Setting

/-! ## Words -/

/-- What a word before the terminator is. -/
inductive Word where
  | help
  | classesFirst
  /-- A setting, with its value if that is attached. -/
  | setting (setting : Setting) (value : Option String)
  /-- A word that takes no value, with a value attached. -/
  | surplusValue
  | unknown
  /-- All that follows is plain. -/
  | terminator
  /-- A value of the setting in front, or the file. -/
  | plain (text : String)

namespace Word

/-- A long name, with what stands after the first equals sign. -/
def splitValue (text : List Char) : String × Option String :=
  let name := text.takeWhile (· ≠ '=')
  match text.drop name.length with
  | [] => (String.ofList name, none)
  | _ :: value => (String.ofList name, some (String.ofList value))

/-- A word that starts with two dashes. -/
def ofLong (verb : Verb) (text : List Char) : Word :=
  match splitValue text with
  | ("help", none) => .help
  | ("help", some _) => .surplusValue
  | ("classes-first", none) => .classesFirst
  | ("classes-first", some _) => .surplusValue
  | (name, value) =>
    match Setting.ofString? verb name with
    | some chosen => .setting chosen value
    | none => .unknown

/-- A word that starts with one dash. The value of a short setting may follow it directly, with or
without an equals sign. -/
def ofShort (verb : Verb) : List Char → Word
  | 'h' :: _ => .help
  | 'o' :: value =>
    if verb = .emit then
      match value with
      | [] => .setting .output none
      | '=' :: value => .setting .output (some (String.ofList value))
      | value => .setting .output (some (String.ofList value))
    else .unknown
  | _ => .unknown

/-- What a word before the terminator is. -/
def classify (verb : Verb) (text : String) : Word :=
  match text.toList with
  | ['-', '-'] => .terminator
  | '-' :: '-' :: rest => ofLong verb rest
  | '-' :: c :: rest => ofShort verb (c :: rest)
  | _ => .plain text

end Word

/-! ## Choices -/

/-- What has been settled of a command line. -/
structure Choices where
  file : Option String := none
  output : Option String := none
  preludes : List String := []
  lineEnding : Option LineEnding := none
  classesFirst : Bool := false
  enabled : List Pass := []
  disabled : List Pass := []
  destructorPolicy : Option DestructorPolicy := none
  mangling : Option String := none

/-- The line ending of a name. -/
def lineEnding? : String → Option LineEnding
  | "platform" => some .platform
  | "lf" => some .lf
  | "crlf" => some .crlf
  | _ => none

/-- The destructor policy of a name. -/
def destructorPolicy? : String → Option DestructorPolicy
  | "all" => some .allClasses
  | "shared-heap" => some .sharedHeapOnly
  | _ => none

/-- A value that names a file. -/
def pathValue (value : String) : Except UsageError String :=
  if value = "" then .error .invalidValue else .ok value

/-- A value that has to be one of those listed. -/
def listedValue {α : Type} (parsed : Option α) : Except UsageError α :=
  match parsed with
  | some value => .ok value
  | none => .error .invalidValue

/-- A value that names a pass. -/
def passValue (value : String) : Except UsageError Pass :=
  match Pass.ofString? value with
  | some pass => .ok pass
  | none => .error .unknownPass

/-- A choice that can be made once. -/
def once {α : Type} (chosen : Option α) (value : Except UsageError α) :
    Except UsageError (Option α) :=
  if chosen.isSome then .error .repeated else value.map some

namespace Choices

/-- Makes the choice that a setting with a value stands for. -/
def set (choices : Choices) (setting : Setting) (value : String) : Except UsageError Choices :=
  match setting with
  | .output => do
    let output ← once choices.output (pathValue value)
    return { choices with output }
  | .preludeFile => do
    let path ← pathValue value
    return { choices with preludes := choices.preludes ++ [path] }
  | .lineEnding => do
    let lineEnding ← once choices.lineEnding (listedValue (lineEnding? value))
    return { choices with lineEnding }
  | .enablePass => do
    let pass ← passValue value
    return { choices with enabled := choices.enabled ++ [pass] }
  | .disablePass => do
    let pass ← passValue value
    return { choices with disabled := choices.disabled ++ [pass] }
  | .destructors => do
    let destructorPolicy ← once choices.destructorPolicy (listedValue (destructorPolicy? value))
    return { choices with destructorPolicy }
  | .mangling => do
    let mangling ← once choices.mangling (.ok value)
    return { choices with mangling }

/-- The options that the choices stand for. Passes are enabled before any is disabled. -/
def options (choices : Choices) : Options :=
  let usual : Options := {}
  { mangling := choices.mangling.getD usual.mangling
    indentWidth := usual.indentWidth
    lineEnding := choices.lineEnding.getD usual.lineEnding
    outputOrder := if choices.classesFirst then .classesFirst else usual.outputOrder
    passes := choices.disabled.foldl .erase (choices.enabled.foldl .insert usual.passes)
    destructorPolicy := choices.destructorPolicy.getD usual.destructorPolicy }

end Choices

/-! ## Reading a command -/

/-- What a word has given and no later word has settled yet. -/
inductive Pending where
  | nothing
  | file (path : String)
  /-- A setting, with its value once there is one. -/
  | setting (setting : Setting) (value : Option String)

/-- How far the words of a command have been read. -/
structure Progress where
  choices : Choices := {}
  pending : Pending := .nothing

namespace Progress

/-- Settles what is pending. -/
def settle (progress : Progress) : Except UsageError Choices :=
  match progress.pending with
  | .nothing => .ok progress.choices
  | .file path => do
    let path ← pathValue path
    return { progress.choices with file := some path }
  | .setting _ none => .error .invalidValue
  | .setting setting (some value) => progress.choices.set setting value

/-- Whether a word has given the file. -/
def hasFile (progress : Progress) : Bool :=
  match progress.pending with
  | .file _ => true
  | _ => progress.choices.file.isSome

/-- Takes a word as the file. -/
def takeFile (progress : Progress) (text : String) : Except UsageError Progress :=
  if progress.hasFile then .error .unknownArgument
  else do
    let choices ← progress.settle
    return { choices, pending := .file text }

/-- Takes a plain word: the value that a setting waits for, or else the file. -/
def takePlain (progress : Progress) (text : String) : Except UsageError Progress :=
  match progress.pending with
  | .setting setting none => .ok { progress with pending := .setting setting (some text) }
  | _ => progress.takeFile text

/-- Takes the word that chooses the order of the sections. -/
def takeClassesFirst (progress : Progress) : Except UsageError Progress := do
  let choices ← progress.settle
  if choices.classesFirst then .error .repeated
  else return { choices := { choices with classesFirst := true } }

/-- Takes a setting. A value that is attached is settled at once. -/
def takeSetting (progress : Progress) (setting : Setting) (value : Option String) :
    Except UsageError Progress := do
  let choices ← progress.settle
  match value with
  | none => return { choices, pending := .setting setting none }
  | some value =>
    let choices ← choices.set setting value
    return { choices }

/-- Reads the words of a command up to the end. -/
def read (verb : Verb) (progress : Progress) : List String → Except UsageError Choices
  | [] => progress.settle
  | word :: rest =>
    match Word.classify verb word with
    | .help => do
      let _ ← progress.settle
      .error .help
    | .classesFirst => do
      let progress ← progress.takeClassesFirst
      progress.read verb rest
    | .setting setting value => do
      let progress ← progress.takeSetting setting value
      progress.read verb rest
    | .surplusValue => .error .surplusValue
    | .unknown => .error .unknownArgument
    | .terminator => do
      let progress ← rest.foldlM takeFile progress
      progress.settle
    | .plain text => do
      let progress ← progress.takePlain text
      progress.read verb rest

end Progress

/-! ## The whole command line -/

/-- A lowering that a command line asks for. -/
structure Invocation where
  verb : Verb
  file : String
  /-- Where the source is written, if not to the standard output. -/
  output : Option String
  preludes : List String
  options : Options

/-- The lowering that the words after a command ask for. -/
def Invocation.ofWords (verb : Verb) (words : List String) : Except UsageError Invocation := do
  let choices ← Progress.read verb {} words
  match choices.file with
  | none => .error .missingFile
  | some file =>
    return { verb, file, output := choices.output, preludes := choices.preludes,
             options := choices.options }

/-- Whether a word names a command, or asks for help in the place of one. -/
def isCommand (word : String) : Bool := (Verb.ofString? word).isSome || word == "help"

/-- What the words after `help` ask for. -/
def helpTopic : List String → UsageError
  | [] => .help
  | [topic] => if isCommand topic then .help else .unknownCommand
  | _ :: _ :: _ => .unknownCommand

/-- What is wrong with a first word that is no command. -/
def strayWord (word : String) (rest : List String) : UsageError :=
  match word.toList with
  | ['-', '-'] =>
    match rest with
    | [] => .nothingAsked
    | next :: _ => if isCommand next then .unknownArgument else .unknownCommand
  | '-' :: '-' :: long =>
    match Word.splitValue long with
    | ("help", none) => .help
    | ("version", none) => .version
    | ("help", some _) | ("version", some _) => .surplusValue
    | _ => .unknownArgument
  | '-' :: 'h' :: _ => .help
  | '-' :: 'V' :: _ => .version
  | '-' :: _ :: _ => .unknownArgument
  | _ => .unknownCommand

/-- The lowering that a command line asks for. -/
def parse : List String → Except UsageError Invocation
  | [] => .error .nothingAsked
  | word :: rest =>
    match Verb.ofString? word with
    | some verb => Invocation.ofWords verb rest
    | none => .error (if word = "help" then helpTopic rest else strayWord word rest)

end NativeLowering.Command
