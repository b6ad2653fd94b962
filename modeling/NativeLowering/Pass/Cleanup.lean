import NativeLowering.Model.Typing
import NativeLowering.Pass.Selection
import NativeLowering.Vocabulary.Spelling

/-!
# Destructor calls where blocks are left

A variable whose class has a destructor gets a destructor call on the way out of its block:

* before the first return of a list of statements, for the variables of every open frame;
* before the first break or continue of a list, for those of every frame up to the loop's;
* at the end of a list without such an exit, for the list's own variables.

The calls start at the innermost frame and run through each frame backwards. What follows the
first exit of a list is unreachable and left alone. A branch or loop body that is a single
statement becomes a block, so that calls can stand beside it.

The pass never fails.
-/

set_option autoImplicit false

namespace NativeLowering.Cleanup

/-- The variables to destroy when one block is left, latest first. -/
structure Tracked where
  kind : FrameKind
  names : List String

/-- What is in scope at a point of a body: the local bindings, and the tracked variables of each
open frame, innermost first. -/
structure Scope where
  locals : Locals
  frames : List Tracked

/-- How far an exit goes. -/
inductive Exit where
  /-- Out of the function. -/
  | function
  /-- Out of the innermost loop, or to its next round. -/
  | loop
  deriving DecidableEq

/-- How far a statement exits, if it does. -/
def exitOf? : Stmt → Option Exit
  | .ret .. => some .function
  | .brk _ | .cont _ => some .loop
  | .staged _ _ body => exitOf? body
  | _ => none

/-- The statement that destroys a variable. -/
def destructorCall (span : Span) (name : String) : Stmt :=
  .expr span (.call span (.property span (.ident span name) Spelling.destructor) none [])

/-- The calls that destroy the variables of a frame, latest first. -/
def Tracked.calls (frame : Tracked) (span : Span) : List Stmt :=
  frame.names.map (destructorCall span)

/-- The calls for every frame that an exit leaves, innermost first. -/
def exitCalls (exit : Exit) (span : Span) : List Tracked → List Stmt
  | [] => []
  | frame :: outer =>
    frame.calls span ++
      if exit = .loop ∧ frame.kind = .loop then [] else exitCalls exit span outer

/-- Whether variables of a type are to be destroyed. -/
def isDestructible (model : Model) (policy : DestructorPolicy) : Ty → Bool
  | .classTy name =>
    match model.classInfo? name with
    | some info =>
      info.hasDestructor &&
        match policy with
        | .allClasses => true
        | .sharedHeapOnly => info.isShared
    | none => false
  | _ => false

namespace Scope

/-- The scope at the start of a body. -/
def start (locals : Locals) : Scope :=
  { locals, frames := [{ kind := .function, names := [] }] }

/-- The scope inside a block. -/
def enter (scope : Scope) (kind : FrameKind) : Scope :=
  { locals := scope.locals.push kind, frames := { kind, names := [] } :: scope.frames }

/-- Tracks a variable in the innermost frame. -/
def track (scope : Scope) (name : String) : Scope :=
  match scope.frames with
  | [] => scope
  | frame :: frames =>
    { scope with frames := { frame with names := name :: frame.names } :: frames }

/-- The scope after a variable is declared. -/
def declare (model : Model) (policy : DestructorPolicy) (scope : Scope) (decl : VariableDecl) :
    Scope :=
  match decl.name.ident? with
  | none => scope
  | some name =>
    let type := model.declaredType scope.locals decl
    let tracked := if isDestructible model policy type then scope.track name else scope
    { tracked with locals := scope.locals.declare name type }

/-- The calls that an exit needs. -/
def exitCalls (scope : Scope) (exit : Exit) (span : Span) : List Stmt :=
  Cleanup.exitCalls exit span scope.frames

/-- The calls at the end of the innermost block. -/
def endCalls (scope : Scope) (span : Span) : List Stmt :=
  match scope.frames with
  | [] => []
  | frame :: _ => frame.calls span

end Scope

/-- A block for a single statement, which has been processed in the block's scope. -/
def loneBlock (scope : Scope) (stmt : Stmt) (processed : Stmt × Scope) : Stmt :=
  .block stmt.span <|
    match exitOf? stmt with
    | some exit => scope.exitCalls exit stmt.span ++ [stmt]
    | none => processed.1 :: processed.2.endCalls stmt.span

mutual

/-- A statement with calls added inside it, and the scope after it. The kind is that of the frame
which the statement opens if it is a block. -/
def statement (model : Model) (policy : DestructorPolicy) :
    Scope → FrameKind → Stmt → Stmt × Scope
  | scope, _, .vars span kind decls =>
    (.vars span kind decls, decls.foldl (Scope.declare model policy) scope)
  | scope, _, .ifElse span condition thenBranch elseBranch =>
    (.ifElse span condition
      (if thenBranch.isBlock then (statement model policy scope .block thenBranch).1
       else loneBlock (scope.enter .block) thenBranch
        (statement model policy (scope.enter .block) .block thenBranch))
      (elseStatement model policy scope elseBranch),
     scope)
  | scope, _, .loop span condition body =>
    (.loop span condition
      (if body.isBlock then (statement model policy scope .loop body).1
       else loneBlock (scope.enter .loop) body
        (statement model policy (scope.enter .loop) .block body)),
     scope)
  | scope, kind, .block span body =>
    (.block span (statements model policy (scope.enter kind) {} body), scope)
  | scope, _, .staged span before body =>
    let (before, scope) := staged model policy scope before
    let (body, scope) := statement model policy scope .block body
    (.staged span before body, scope)
  | scope, _, .expr span value => (.expr span value, scope)
  | scope, _, .ret span value => (.ret span value, scope)
  | scope, _, .brk span => (.brk span, scope)
  | scope, _, .cont span => (.cont span, scope)

/-- The branch taken otherwise, if there is one, as a block. -/
def elseStatement (model : Model) (policy : DestructorPolicy) (scope : Scope) :
    Option Stmt → Option Stmt
  | none => none
  | some branch =>
    some
      (if branch.isBlock then (statement model policy scope .block branch).1
       else loneBlock (scope.enter .block) branch
        (statement model policy (scope.enter .block) .block branch))

/-- The statements of a block with calls added; the span is that of the statement before them. -/
def statements (model : Model) (policy : DestructorPolicy) :
    Scope → Span → List Stmt → List Stmt
  | scope, span, [] => scope.endCalls span
  | scope, _, stmt :: rest =>
    match exitOf? stmt with
    | some exit => scope.exitCalls exit stmt.span ++ stmt :: rest
    | none =>
      let (processed, after) := statement model policy scope .block stmt
      processed :: statements model policy after stmt.span rest

/-- The statements that are staged before another, and the scope after them. -/
def staged (model : Model) (policy : DestructorPolicy) :
    Scope → List Stmt → List Stmt × Scope
  | scope, [] => ([], scope)
  | scope, stmt :: rest =>
    let (stmt, scope) := statement model policy scope .block stmt
    let (rest, scope) := staged model policy scope rest
    (stmt :: rest, scope)

end

/-- A function body with destructor calls added. -/
def run (model : Model) (policy : DestructorPolicy) (locals : Locals) (body : List Stmt) :
    List Stmt :=
  statements model policy (.start locals) {} body

end NativeLowering.Cleanup
