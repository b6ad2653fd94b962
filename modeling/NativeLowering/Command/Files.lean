import NativeLowering.Command.Path

/-!
# Files

What a command needs of a file system: reading a file and writing one. The access is a record, so
that a command runs against the real files or against `Files`, a file system in memory.

A path in memory is followed step by step, and each step has to start in a directory that exists.
So the first step that cannot be taken decides what is said of the path, and the last step may
lead to a place where there is nothing yet, which is how a file is made.
-/

set_option autoImplicit false

namespace NativeLowering.Command

/-- Why a file cannot be read. -/
inductive ReadError where
  /-- Nothing can be found out about the path, for the reason given. -/
  | inaccessible (reason : String)
  /-- The path is there and its contents cannot be had, for the reason given. -/
  | unreadable (reason : String)

/-- Access to files, by path. -/
structure FileAccess (m : Type → Type) where
  read : String → m (Except ReadError String)
  /-- Writes a text to a path; a failure gives its reason. -/
  write : String → String → m (Except String Unit)

/-- What can be wrong with a path, or with what it leads to. -/
inductive FileFault where
  /-- There is nothing at the path. -/
  | absent
  /-- The path goes on from something that is no directory. -/
  | throughFile
  /-- The path leads to a directory. -/
  | isDirectory
  /-- There is no room for a text. -/
  | noRoom
  /-- A name, or the whole path, is too long. -/
  | tooLong
  /-- The path has a character of value zero, which no name can have. -/
  | zeroCharacter
  /-- What stands there has no end. -/
  | endless
  deriving DecidableEq

/-- The reason that a system gives for a fault. -/
def FileFault.reason : FileFault → String
  | .absent => "No such file or directory (os error 2)"
  | .throughFile => "Not a directory (os error 20)"
  | .isDirectory => "Is a directory (os error 21)"
  | .noRoom => "No space left on device (os error 28)"
  | .tooLong => "File name too long (os error 36)"
  | .zeroCharacter => "file name contained an unexpected NUL byte"
  | .endless => "out of memory"

/-- A place that is read and written like a file and keeps nothing. -/
structure Device where
  /-- Whether reading it gives the empty text. Otherwise reading it has no end. -/
  readsEmpty : Bool
  /-- Whether it takes what is written to it. -/
  takesText : Bool

/-- What stands at a place. -/
inductive FileEntry where
  | file (text : String)
  | directory
  | device (device : Device)

/-- A file system in memory. -/
structure Files where
  entries : List (Place × FileEntry)

namespace Files

/-- The longest name, in bytes. -/
def longestName : Nat := 255

/-- The longest path, in bytes. -/
def longestPath : Nat := 4095

/-- The directory that paths start in, unless they start at the root. -/
def workingDirectory : Place := ["work", "tmp"]

/-- The directories that stand at the root of a system. -/
def systemDirectories : List String :=
  ["bin", "dev", "etc", "home", "lib", "proc", "root", "sbin", "sys", "tmp", "usr", "var"]

/-- The devices of a system. -/
def systemDevices : List (String × Device) :=
  [("null", { readsEmpty := true, takesText := true }),
   ("zero", { readsEmpty := false, takesText := true }),
   ("full", { readsEmpty := false, takesText := false })]

/-- A file system with an empty working directory. -/
def empty : Files where
  entries :=
    ([], .directory) :: (workingDirectory, .directory) ::
      systemDirectories.map (fun name => ([name], .directory)) ++
      systemDevices.map (fun named => ([named.1, "dev"], .device named.2))

/-- What stands at a place. -/
def entry? (files : Files) (place : Place) : Option FileEntry := files.entries.lookup place

/-- Puts something at a place, instead of what was there. -/
def put (files : Files) (place : Place) (entry : FileEntry) : Files where
  entries := (place, entry) :: files.entries.filter fun known => known.1 ≠ place

/-- Where a path starts. -/
def start (path : Path) : Place := if path.fromRoot then [] else workingDirectory

/-- Adds a text at a path, with the directories around it. -/
def add (files : Files) (path text : String) : Files :=
  let path := Path.ofString path
  let place := path.steps.foldl Place.move (start path)
  let files := place.around.foldl (fun files outer => files.put outer .directory) files
  files.put place (.file text)

/-- The file system that has some texts at some paths. -/
def ofTexts (texts : List (String × String)) : Files :=
  texts.foldl (fun files named => files.add named.1 named.2) empty

/-! ## Following a path -/

/-- The path that a text spells, if it can be one at all. -/
def readPath (text : String) : Except FileFault Path :=
  if text.toList.contains '\x00' then .error .zeroCharacter
  else if text = "" then .error .absent
  else if longestPath < text.utf8ByteSize then .error .tooLong
  else .ok (Path.ofString text)

/-- Whether a step names nothing too long. -/
def isShort : Step → Bool
  | .stay | .up => true
  | .enter name => name.utf8ByteSize ≤ longestName

/-- Takes one step. It has to start in a directory, and there need be nothing where it leads. -/
def advance (files : Files) (here : Place) (step : Step) : Except FileFault Place :=
  match files.entry? here with
  | none => .error .absent
  | some .directory => if isShort step then .ok (here.move step) else .error .tooLong
  | some (.file _) | some (.device _) => .error .throughFile

/-- Takes some steps, one after another. -/
def follow (files : Files) (here : Place) (steps : List Step) : Except FileFault Place :=
  steps.foldlM files.advance here

/-! ## Reading and writing -/

/-- What stands at the end of a path. A path that ends in a slash leads to nothing but a
directory. -/
def find (files : Files) (path : String) : Except FileFault FileEntry := do
  let path ← readPath path
  let place ← files.follow (start path) path.steps
  match files.entry? place with
  | none => .error .absent
  | some .directory => .ok .directory
  | some entry => if path.endsInSlash then .error .throughFile else .ok entry

/-- The text of the file at a path. -/
def readAt (files : Files) (path : String) : Except ReadError String :=
  match files.find path with
  | .error fault => .error (.inaccessible fault.reason)
  | .ok (.file text) => .ok text
  | .ok .directory => .error (.unreadable FileFault.isDirectory.reason)
  | .ok (.device device) =>
    if device.readsEmpty then .ok "" else .error (.unreadable FileFault.endless.reason)

/-- The place that a text is written to at the end of a path. A path that ends in a slash is
refused as a directory, whatever its last step names, once the steps in front of that one are
taken. -/
def target (files : Files) (path : String) : Except FileFault Place := do
  let path ← readPath path
  if path.endsInSlash then
    let _ ← files.follow (start path) (path.steps.dropLast ++ [.stay])
    .error .isDirectory
  else files.follow (start path) path.steps

/-- The files after a text is written to a path. -/
def writeAt (files : Files) (path text : String) : Except FileFault Files := do
  let place ← files.target path
  match files.entry? place with
  | none | some (.file _) => .ok (files.put place (.file text))
  | some .directory => .error .isDirectory
  | some (.device device) =>
    if device.takesText || text = "" then .ok files else .error .noRoom

/-- Access to files in memory. -/
def access : FileAccess (StateM Files) where
  read path := do
    let files ← get
    return files.readAt path
  write path text := do
    let files ← get
    match files.writeAt path text with
    | .ok files =>
      set files
      return .ok ()
    | .error fault => return .error fault.reason

end Files

end NativeLowering.Command
