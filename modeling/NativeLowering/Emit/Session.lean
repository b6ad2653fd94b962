import NativeLowering.Layout.Record
import NativeLowering.Locals
import NativeLowering.Options

/-!
# Sessions

A session is the state of writing one source file. It holds

* the open scopes: the buffer that text currently goes to, and the buffers it will go to again
  when that one is closed, down to the root, which collects includes and is never closed;
* the open statements, each with the buffers for what goes before and after it;
* the function and the class being written, and those already finished.

A step of a session can fail, and what it did to the session before it failed stays done.
-/

set_option autoImplicit false

namespace NativeLowering

/-- What goes around a statement. -/
structure Stage where
  before : Buffer
  after : Buffer

/-- A function that is being written. -/
structure OpenFunction where
  record : FunctionRecord
  locals : Locals
  /-- The visibility of a class member; free functions have none. -/
  visibility : Option Visibility

/-- The state of writing a source file. -/
structure Session where
  layout : Layout
  /-- The buffer that text goes to. -/
  current : Buffer
  /-- The buffers of the enclosing scopes, innermost first. -/
  outer : List Buffer := []
  /-- The open statements, innermost first. -/
  stages : List Stage := []
  openFunction : Option OpenFunction := none
  openClass : Option ClassRecord := none
  /-- The finished functions, in order. -/
  functions : List FunctionRecord := []
  /-- The finished classes, in order. -/
  classes : List ClassRecord := []

/-- A step of a session. -/
abbrev Emit := ExceptT LoweringError (StateM Session)

namespace Session

/-- A session in which nothing has been written. -/
def start (layout : Layout) : Session := { layout, current := .new layout }

/-- How many scopes are open, with the root. -/
def depth (session : Session) : Nat := session.outer.length + 1

end Session

namespace Emit

variable {α : Type}

/-- A step that does not touch the session. -/
def ofLowered (result : Lowered α) : Emit α := ExceptT.mk (pure result)

instance : MonadLift Lowered Emit := ⟨ofLowered⟩

/-- Runs a step and hands back its outcome, whichever it is. -/
def attempt (step : Emit α) : Emit (Lowered α) :=
  ExceptT.mk (do
    let result ← step.run
    return .ok result)

/-! ## Scopes -/

/-- Changes the current buffer. -/
def onCurrent (change : Buffer → Buffer) : Emit Unit :=
  modify fun session => { session with current := change session.current }

/-- Appends a text to the current buffer. -/
def append (text : String) (mode : AppendMode) : Emit Unit :=
  onCurrent fun buffer => buffer.append text mode

/-- Indents the current buffer one level deeper. -/
def indent : Emit Unit := onCurrent Buffer.indent

/-- Indents the current buffer one level less. -/
def dedent : Emit Unit := onCurrent Buffer.dedent

/-- Opens a scope with a buffer. -/
def pushScope (buffer : Buffer) : Emit Unit :=
  modify fun session =>
    { session with current := buffer, outer := session.current :: session.outer }

/-- Opens a scope with an empty buffer. -/
def pushNewScope : Emit Unit := do
  let session ← get
  pushScope (.new session.layout)

/-- Closes the current scope and hands back its buffer. The root stays. -/
def popScope : Emit Buffer := do
  let session ← get
  match session.outer with
  | [] => throw (.underflow .popScope)
  | next :: outer =>
    set { session with current := next, outer }
    return session.current

/-- Runs a step in a scope of its own, which is closed also if the step fails. -/
def inScope (buffer : Buffer) (step : Emit α) : Emit (α × Buffer) := do
  pushScope buffer
  let result ← attempt step
  let buffer ← popScope
  let value ← ofLowered result
  return (value, buffer)

/-- Runs a step in a scope of its own with an empty buffer. -/
def inNewScope (step : Emit α) : Emit (α × Buffer) := do
  let session ← get
  inScope (.new session.layout) step

/-- The text that a step writes, in a scope of its own. -/
def fragment (step : Emit Unit) : Emit String := do
  let (_, buffer) ← inNewScope step
  return buffer.text

/-! ## Statements -/

/-- Opens a statement; its text goes to a scope of its own. -/
def pushStatement : Emit Unit := do
  modify fun session =>
    { session with
      stages := { before := .new session.layout, after := .new session.layout } ::
        session.stages }
  pushNewScope

/-- The parts of a statement that are more than blanks, trimmed, each on lines of its own. -/
def joinParts (layout : Layout) (parts : List String) : Option String :=
  match (parts.map Text.trim).filter (· ≠ "") with
  | [] => none
  | parts => some (layout.newline.intercalate parts)

/-- Closes a statement and appends it, with what goes before and after it, to the scope around. -/
def popStatement : Emit Unit := do
  let content ← popScope
  let session ← get
  match session.stages with
  | [] => throw (.underflow .popStatement)
  | stage :: stages =>
    set { session with stages }
    match joinParts session.layout [stage.before.text, content.text, stage.after.text] with
    | none => return ()
    | some text => append text .line

/-- Runs a step whose text goes before the open statement. If the step fails, what went there
earlier is dropped too. -/
def inPrelude (step : Emit α) : Emit α := do
  let session ← get
  match session.stages with
  | [] => throw (.underflow .statementPrelude)
  | stage :: stages =>
    set { session with stages := { stage with before := .new session.layout } :: stages }
    let (value, buffer) ← inScope stage.before step
    let session ← get
    match session.stages with
    | [] => throw (.underflow .statementStage)
    | stage :: stages =>
      set { session with stages := { stage with before := buffer } :: stages }
      return value

/-- Writes a statement: opens it, runs the step that writes it and closes it also if the step
fails. -/
def asStatement (step : Emit Unit) : Emit Unit := do
  pushStatement
  let result ← attempt step
  let closed ← attempt popStatement
  ofLowered result
  ofLowered closed

/-! ## Functions -/

/-- Opens a function. Functions do not nest. -/
def beginFunction (record : FunctionRecord) (locals : Locals) (visibility : Option Visibility)
    (span : Span) : Emit Unit := do
  let session ← get
  match session.openFunction with
  | some enclosing =>
    throw (.fault span (.nestedFunction record.name enclosing.record.name))
  | none => set { session with openFunction := some { record, locals, visibility } }

/-- Closes the open function. A member goes to the open class, a free function to the file. -/
def endFunction (span : Span) : Emit Unit := do
  let session ← get
  match session.openFunction with
  | none => throw (.fault span .noOpenFunction)
  | some finished =>
    let session := { session with openFunction := none }
    match finished.visibility, session.openClass with
    | some visibility, some owner =>
      let method := { visibility, function := finished.record }
      set { session with openClass := some { owner with methods := owner.methods ++ [method] } }
    | none, none => set { session with functions := session.functions ++ [finished.record] }
    | _, _ =>
      set session
      throw (.fault span (.misplacedFunction finished.record.name))

/-- Whether a function is open. -/
def inFunction : Emit Bool := do
  let session ← get
  return session.openFunction.isSome

/-- The open function. -/
def theFunction (span : Span) : Emit OpenFunction := do
  let session ← get
  match session.openFunction with
  | some current => return current
  | none => throw (.fault span .outsideFunction)

/-- Changes the open function. -/
def onFunction (span : Span) (change : OpenFunction → OpenFunction) : Emit Unit := do
  let current ← theFunction span
  modify fun session => { session with openFunction := some (change current) }

/-- The local bindings of the open function. -/
def theLocals (span : Span) : Emit Locals := do
  let current ← theFunction span
  return current.locals

/-- The local bindings at the current place; outside a function there are none. -/
def currentLocals : Emit Locals := do
  let session ← get
  match session.openFunction with
  | some current => return current.locals
  | none => return .start none

/-- Changes the local bindings of the open function. -/
def onLocals (span : Span) (change : Locals → Locals) : Emit Unit :=
  onFunction span fun current => { current with locals := change current.locals }

/-- Changes the record of the open function. -/
def onRecord (span : Span) (change : FunctionRecord → FunctionRecord) : Emit Unit :=
  onFunction span fun current => { current with record := change current.record }

/-- Adds a line to the hoisted variables of the open function. -/
def hoist (text : String) (span : Span) : Emit Unit :=
  onRecord span fun record => { record with hoisted := record.hoisted.append text .line }

/-! ## Classes -/

/-- Opens a class. Classes stand at the top level. -/
def beginClass (record : ClassRecord) (span : Span) : Emit Unit := do
  let session ← get
  if session.openClass.isSome || session.openFunction.isSome then
    throw (.fault span (.nestedClass record.name))
  else set { session with openClass := some record }

/-- Closes the open class. -/
def endClass (span : Span) : Emit Unit := do
  let session ← get
  match session.openClass with
  | none => throw (.fault span .noOpenClass)
  | some record =>
    set { session with openClass := none, classes := session.classes ++ [record] }

/-- The open class. -/
def theClass (span : Span) : Emit ClassRecord := do
  let session ← get
  match session.openClass with
  | some record => return record
  | none => throw (.fault span .outsideClass)

/-- Adds a field to the open class. -/
def addField (field : FieldRecord) (span : Span) : Emit Unit := do
  let record ← theClass span
  modify fun session =>
    { session with openClass := some { record with fields := record.fields ++ [field] } }

end Emit

/-! ## The written file -/

namespace Session

/-- The file that a session has written: the root buffer, then the functions and classes in the
order asked for, with blank lines between. -/
def text (session : Session) (order : OutputOrder) : String :=
  let layout := session.layout
  let preamble := Text.trimEnd session.current.text
  let functions := layout.blankLine.intercalate (session.functions.map FunctionRecord.print)
  let classes := layout.blankLine.intercalate (session.classes.map (·.print layout))
  let sections := match order with
    | .functionsFirst => [preamble, functions, classes]
    | .classesFirst => [preamble, classes, functions]
  let whole := layout.blankLine.intercalate (sections.filter (· ≠ ""))
  if whole = "" then "" else whole ++ layout.newline

/-- The file that a session has written, if everything it opened is closed. -/
def finish (session : Session) (order : OutputOrder) : Lowered String :=
  if session.openFunction.isSome || session.openClass.isSome || !session.stages.isEmpty then
    failAt {} .unfinished
  else
    match session.outer with
    | _ :: _ => .error (.underflow .finish)
    | [] => .ok (session.text order)

end Session

end NativeLowering
