import NativeLowering.Syntax.Span
import NativeLowering.Vocabulary.Operator

/-!
# Type annotations and expressions

Every node carries its span as its first component. Two things about the shapes matter to the
rest of the library. A number literal keeps the spelling it was written with. And a call with an
explicit receiver argument (`Expr.receiverCall`) is not something an author writes: receiver
injection produces it from a method call.
-/

set_option autoImplicit false

namespace NativeLowering

open Vocabulary (BinaryOp UnaryOp)

/-- A type with a keyword of its own. -/
inductive Keyword where
  | void | boolean | number | string
  deriving DecidableEq

/-- A type annotation. -/
inductive TypeNode where
  /-- A name, given by its dot-separated components, with type arguments. -/
  | reference (span : Span) (name : List String) (args : List TypeNode)
  | keyword (span : Span) (keyword : Keyword)

namespace TypeNode

/-- Where the annotation stands. -/
def span : TypeNode → Span
  | .reference span .. => span
  | .keyword span _ => span

end TypeNode

/-- The name if it has one component only. -/
def simpleName? : List String → Option String
  | [name] => some name
  | _ => none

/-- A literal value. -/
inductive Literal where
  /-- A number, in the spelling it was written with. -/
  | number (spelling : String)
  | string (value : String)
  | bool (value : Bool)
  | null

/-- An expression. -/
inductive Expr where
  | ident (span : Span) (name : String)
  /-- The instance a class member runs on. -/
  | thisRef (span : Span)
  | literal (span : Span) (value : Literal)
  | property (span : Span) (object : Expr) (name : String)
  /-- A call. An explicit empty list of type arguments differs from none at all. -/
  | call (span : Span) (callee : Expr) (typeArgs : Option (List TypeNode)) (args : List Expr)
  | new (span : Span) (target : Expr) (args : List Expr)
  | binary (span : Span) (op : BinaryOp) (left right : Expr)
  | unary (span : Span) (op : UnaryOp) (operand : Expr)
  | paren (span : Span) (inner : Expr)
  | comma (span : Span) (items : List Expr)
  /-- A method called as a plain function, with the receiver as its first argument. The owner is
  the declared name of the method's class. -/
  | receiverCall (span : Span) (owner method : String) (args : List Expr)

namespace Expr

/-- Where the expression stands. -/
def span : Expr → Span
  | .ident span _ | .thisRef span | .literal span _ | .property span .. | .call span ..
  | .new span .. | .binary span .. | .unary span .. | .paren span _ | .comma span _
  | .receiverCall span .. => span

/-- Whether the expression is the bare word for the current instance. -/
def isThis : Expr → Bool
  | .thisRef _ => true
  | _ => false

/-- Whether the expression denotes a storage location: a variable, or a chain of properties that
starts at a variable or at the current instance. -/
def isAddressable : Expr → Bool
  | .ident .. => true
  | .property _ object _ => object.isThis || object.isAddressable
  | .paren _ inner => inner.isAddressable
  | _ => false

end Expr

end NativeLowering
