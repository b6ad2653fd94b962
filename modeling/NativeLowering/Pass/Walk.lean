import NativeLowering.Model.Typing

/-!
# Walking a body expression by expression

The passes that work on expressions share one walk. It goes through a body in source order,
keeps the local bindings as the body declares them, and hands every expression, its parts first,
to a function that may replace it. That function may also ask for statements to run before the
statement at hand, and draw on a counter that runs through the whole body.

What is asked for is attached to the statement as its stage (`stage`). A statement that was
staged before ends up with one stage only, the new one behind the old.

The class expression of a construction is not visited, nor are type annotations.
-/

set_option autoImplicit false

namespace NativeLowering.Walk

/-- What is kept track of while expressions are visited. -/
structure Pending where
  /-- The number of the next temporary. -/
  next : Nat
  /-- The statements to run before the statement at hand, in order. -/
  before : List Stmt

/-- A step of visiting an expression. -/
abbrev ExprM := StateT Pending Lowered

/-- What to do with a single expression, whose parts have been visited: the result stands in its
place. -/
abbrev Visit := Locals → Expr → ExprM Expr

/-! ## Expressions -/

mutual

/-- Visits an expression, its parts first. -/
def expr (visit : Expr → ExprM Expr) : Expr → ExprM Expr
  | .ident span name => visit (.ident span name)
  | .thisRef span => visit (.thisRef span)
  | .literal span value => visit (.literal span value)
  | .property span object name => do
    let object ← expr visit object
    visit (.property span object name)
  | .call span callee typeArgs args => do
    let callee ← expr visit callee
    let args ← exprs visit args
    visit (.call span callee typeArgs args)
  | .new span target args => do
    let args ← exprs visit args
    visit (.new span target args)
  | .binary span op left right => do
    let left ← expr visit left
    let right ← expr visit right
    visit (.binary span op left right)
  | .unary span op operand => do
    let operand ← expr visit operand
    visit (.unary span op operand)
  | .paren span inner => do
    let inner ← expr visit inner
    visit (.paren span inner)
  | .comma span items => do
    let items ← exprs visit items
    visit (.comma span items)
  | .receiverCall span owner method args => do
    let args ← exprs visit args
    visit (.receiverCall span owner method args)

/-- Visits expressions in order. -/
def exprs (visit : Expr → ExprM Expr) : List Expr → ExprM (List Expr)
  | [] => return []
  | item :: rest => do
    let item ← expr visit item
    let rest ← exprs visit rest
    return item :: rest

end

/-! ## Statements -/

/-- Where a walk through a body has got to. -/
structure Point where
  locals : Locals
  /-- The number of the next temporary. -/
  next : Nat

/-- A step of walking a body. -/
abbrev StmtM := StateT Point Lowered

/-- Attaches statements to run before another, if there are any. -/
def stage (before : List Stmt) (stmt : Stmt) : Stmt :=
  match before with
  | [] => stmt
  | _ :: _ => .staged stmt.span before stmt

/-- Attaches statements to one that may already have a stage, at the given place. -/
def restage (span : Span) (before : List Stmt) : Stmt → Stmt
  | .staged _ more body => stage (before ++ more) (body.withSpan span)
  | body => stage before (body.withSpan span)

/-- Visits an expression at the point reached, and hands back the statements asked for. -/
def atPoint (visit : Visit) (value : Expr) : StmtM (Expr × List Stmt) := do
  let point ← get
  let (value, pending) ←
    (expr (visit point.locals) value).run { next := point.next, before := [] }
  set { point with next := pending.next }
  return (value, pending.before)

/-- Visits an expression that may be absent. -/
def atPointOption (visit : Visit) : Option Expr → StmtM (Option Expr × List Stmt)
  | none => return (none, [])
  | some value => do
    let (value, before) ← atPoint visit value
    return (some value, before)

/-- Walks one variable declaration; its name is bound from there on. -/
def varDecl (model : Model) (visit : Visit) (decl : VariableDecl) :
    StmtM (VariableDecl × List Stmt) := do
  let (init, before) ← atPointOption visit decl.init
  let decl := { decl with init }
  match decl.name.ident? with
  | some name =>
    modify fun point =>
      { point with
        locals := point.locals.declare name (model.declaredType point.locals decl) }
  | none => pure ()
  return (decl, before)

/-- Walks variable declarations in order. -/
def varDecls (model : Model) (visit : Visit) :
    List VariableDecl → StmtM (List VariableDecl × List Stmt)
  | [] => return ([], [])
  | decl :: rest => do
    let (decl, before) ← varDecl model visit decl
    let (rest, more) ← varDecls model visit rest
    return (decl :: rest, before ++ more)

/-- Walks something in a frame of its own. -/
def inFrame {α : Type} (kind : FrameKind) (walk : StmtM α) : StmtM α := do
  let outer := (← get).locals
  modify fun point => { point with locals := point.locals.push kind }
  let result ← walk
  modify fun point => { point with locals := outer }
  return result

mutual

/-- Walks a statement. -/
def stmt (model : Model) (visit : Visit) : Stmt → StmtM Stmt
  | .vars span kind decls => do
    let (decls, before) ← varDecls model visit decls
    return stage before (.vars span kind decls)
  | .expr span value => do
    let (value, before) ← atPoint visit value
    return stage before (.expr span value)
  | .ret span value => do
    let (value, before) ← atPointOption visit value
    return stage before (.ret span value)
  | .ifElse span condition thenBranch elseBranch => do
    let (condition, before) ← atPoint visit condition
    let thenBranch ← inFrame .block (stmt model visit thenBranch)
    let elseBranch ← elseStmt model visit elseBranch
    return stage before (.ifElse span condition thenBranch elseBranch)
  | .loop span condition body => do
    let (condition, before) ← atPoint visit condition
    let body ← inFrame .loop (stmt model visit body)
    return stage before (.loop span condition body)
  | .brk span => return .brk span
  | .cont span => return .cont span
  | .block span body => do
    let body ← inFrame .block (stmts model visit body)
    return .block span body
  | .staged span before body => do
    let before ← stmts model visit before
    let body ← stmt model visit body
    return restage span before body

/-- Walks the branch taken otherwise, if there is one. -/
def elseStmt (model : Model) (visit : Visit) : Option Stmt → StmtM (Option Stmt)
  | none => return none
  | some branch => do
    let branch ← inFrame .block (stmt model visit branch)
    return some branch

/-- Walks statements in order. -/
def stmts (model : Model) (visit : Visit) : List Stmt → StmtM (List Stmt)
  | [] => return []
  | head :: rest => do
    let head ← stmt model visit head
    let rest ← stmts model visit rest
    return head :: rest

end

/-- Walks a function body, with the parameters as its first bindings. -/
def body (model : Model) (visit : Visit) (locals : Locals) (statements : List Stmt) :
    Lowered (List Stmt) :=
  (stmts model visit statements).run' { locals, next := 1 }

end NativeLowering.Walk
