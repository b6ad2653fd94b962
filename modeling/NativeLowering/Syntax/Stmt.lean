import NativeLowering.Syntax.Expr

/-!
# Statements

A block is a list of statements. A staged statement (`Stmt.staged`) carries statements that have
to run right before it; the passes attach what they synthesize that way.
-/

set_option autoImplicit false

namespace NativeLowering

/-- What a parameter or a variable declaration binds. -/
inductive BindingName where
  | ident (name : String)
  | objectPattern
  | arrayPattern

namespace BindingName

/-- The name, if the binding is one. -/
def ident? : BindingName → Option String
  | .ident name => some name
  | .objectPattern | .arrayPattern => none

end BindingName

/-- How a variable is introduced. -/
inductive VariableKind where
  | letKind | constKind | varKind
  deriving DecidableEq

/-- One variable of a variable statement. -/
structure VariableDecl where
  span : Span
  name : BindingName
  type : Option TypeNode
  init : Option Expr

/-- A statement. -/
inductive Stmt where
  | vars (span : Span) (kind : VariableKind) (decls : List VariableDecl)
  | expr (span : Span) (value : Expr)
  | ret (span : Span) (value : Option Expr)
  | ifElse (span : Span) (condition : Expr) (thenBranch : Stmt) (elseBranch : Option Stmt)
  | loop (span : Span) (condition : Expr) (body : Stmt)
  | brk (span : Span)
  | cont (span : Span)
  | block (span : Span) (body : List Stmt)
  /-- A statement with the statements that have to run right before it. -/
  | staged (span : Span) (before : List Stmt) (body : Stmt)

namespace Stmt

/-- Where the statement stands. -/
def span : Stmt → Span
  | .vars span .. | .expr span _ | .ret span _ | .ifElse span .. | .loop span .. | .brk span
  | .cont span | .block span _ | .staged span .. => span

/-- The same statement at another place; the places of its parts stay. -/
def withSpan (span : Span) : Stmt → Stmt
  | .vars _ kind decls => .vars span kind decls
  | .expr _ value => .expr span value
  | .ret _ value => .ret span value
  | .ifElse _ condition thenBranch elseBranch => .ifElse span condition thenBranch elseBranch
  | .loop _ condition body => .loop span condition body
  | .brk _ => .brk span
  | .cont _ => .cont span
  | .block _ body => .block span body
  | .staged _ before body => .staged span before body

/-- Whether the statement leaves the list it stands in: a return, a break or a continue. -/
def isExit : Stmt → Bool
  | .ret .. | .brk _ | .cont _ => true
  | _ => false

/-- Whether the statement is a block. -/
def isBlock : Stmt → Bool
  | .block .. => true
  | _ => false

end Stmt

end NativeLowering
