import NativeLowering.Emit.Expr

/-!
# Writing statements

Each statement is written as an open statement of the session, so that what is staged before it
lands on the lines above. Braces stand on lines of their own, and a branch or loop body that is a
single statement gets braces too.
-/

set_option autoImplicit false

namespace NativeLowering.Emit

/-- The name that a variable declaration binds, which has to be an identifier. -/
def variableName (decl : VariableDecl) : Lowered String :=
  match decl.name.ident? with
  | some name => .ok name
  | none => failAt decl.span .patternVariable

/-- The annotation of a variable declaration, which has to be there. -/
def variableType (decl : VariableDecl) (name : String) : Lowered TypeNode :=
  match decl.type with
  | some node => .ok node
  | none => failAt decl.span (.untypedVariable name)

/-- Writes the introduction of a variable and its initial value. -/
def initialized (cx : Context) (introduction : String) (init : Expr) : Emit Unit := do
  append (introduction ++ " = ") .start
  expr cx init
  append ";" .finish

/-- Writes one variable declaration. A variable with function scope is declared at the top of the
function, and only its initial value is written in place. -/
def variableDecl (cx : Context) (kind : VariableKind) (decl : VariableDecl) : Emit Unit := do
  let name ← variableName decl
  let node ← variableType decl name
  let type ← typeString cx node
  match kind, decl.init with
  | .varKind, init =>
    hoist (type ++ " " ++ name ++ ";") decl.span
    match init with
    | some init => initialized cx name init
    | none => pure ()
  | _, some init => initialized cx (type ++ " " ++ name) init
  | _, none => append (type ++ " " ++ name ++ ";") .line
  onLocals decl.span fun locals => locals.declare name (cx.model.typeFromNode node)

/-- Writes variable declarations in order. -/
def variableDecls (cx : Context) (kind : VariableKind) : List VariableDecl → Emit Unit
  | [] => pure ()
  | decl :: rest => do
    variableDecl cx kind decl
    variableDecls cx kind rest

/-- Writes a step in braces, in a frame of local bindings of its own. -/
def braced (span : Span) (kind : FrameKind) (step : Emit Unit) : Emit Unit := do
  append "\x7b" .line
  indent
  onLocals span fun locals => locals.push kind
  step
  onLocals span fun locals => locals.pop.2
  dedent
  append "\x7d" .line

/-- Writes the head of a conditional or a loop. -/
def head (cx : Context) (word : String) (condition : Expr) : Emit Unit := do
  append (word ++ " (") .inline
  expr cx condition
  append ")" .finish

mutual

/-- Writes what a statement consists of, without opening it. -/
def content (cx : Context) : Stmt → Emit Unit
  | .vars _ kind decls => variableDecls cx kind decls
  | .expr _ value => do
    expr cx value
    append ";" .inline
  | .ret _ none => append "return;" .inline
  | .ret _ (some value) => do
    append "return " .inline
    expr cx value
    append ";" .inline
  | .ifElse _ condition thenBranch elseBranch => do
    head cx "if" condition
    if thenBranch.isBlock then content cx thenBranch
    else braced thenBranch.span .block (asStatement (content cx thenBranch))
    elseContent cx elseBranch
  | .loop _ condition body => do
    head cx "while" condition
    if body.isBlock then content cx body
    else braced body.span .loop (asStatement (content cx body))
  | .brk _ => append "break;" .inline
  | .cont _ => append "continue;" .inline
  | .block span body => braced span .block (stmts cx body)
  | .staged _ before body => do
    inPrelude (stmts cx before)
    content cx body

/-- Writes the branch taken otherwise, if there is one. -/
def elseContent (cx : Context) : Option Stmt → Emit Unit
  | none => pure ()
  | some branch => do
    append "else" .line
    if branch.isBlock then content cx branch
    else braced branch.span .block (asStatement (content cx branch))

/-- Writes statements in order. -/
def stmts (cx : Context) : List Stmt → Emit Unit
  | [] => pure ()
  | first :: rest => do
    asStatement (content cx first)
    stmts cx rest

end

/-- Writes a statement. -/
def stmt (cx : Context) (statement : Stmt) : Emit Unit := asStatement (content cx statement)

end NativeLowering.Emit
