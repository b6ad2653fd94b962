import NativeLowering.Json.Basic
import NativeLowering.Syntax.Decl

/-!
# The spans in a program

Every node of a program carries a span. `spans` lists them for each sort of node, the node's own span
first and then those of its parts in the order they are written.
-/

set_option autoImplicit false

namespace NativeLowering

/-- Both ends are offsets that a number can stand for. -/
def Span.Fits (span : Span) : Prop :=
  span.start < Json.offsetLimit ∧ span.stop < Json.offsetLimit

instance (span : Span) : Decidable span.Fits := inferInstanceAs (Decidable (_ ∧ _))

mutual

def TypeNode.spans : TypeNode → List Span
  | .reference span _ args => span :: TypeNode.spansList args
  | .keyword span _ => [span]

def TypeNode.spansList : List TypeNode → List Span
  | [] => []
  | node :: rest => node.spans ++ TypeNode.spansList rest

end

/-- The spans of what may be absent. -/
def spansOption {α : Type} (spans : α → List Span) : Option α → List Span
  | none => []
  | some part => spans part

mutual

/-- The spans in an expression, those of type arguments and of the class of a construction
included. -/
def Expr.spans : Expr → List Span
  | .ident span _ | .thisRef span | .literal span _ => [span]
  | .property span object _ => span :: object.spans
  | .call span callee typeArgs args =>
    span :: (callee.spans ++ (spansOption TypeNode.spansList typeArgs ++ Expr.spansList args))
  | .new span target args => span :: (target.spans ++ Expr.spansList args)
  | .binary span _ left right => span :: (left.spans ++ right.spans)
  | .unary span _ operand => span :: operand.spans
  | .paren span inner => span :: inner.spans
  | .comma span items => span :: Expr.spansList items
  | .receiverCall span _ _ args => span :: Expr.spansList args

def Expr.spansList : List Expr → List Span
  | [] => []
  | item :: rest => item.spans ++ Expr.spansList rest

end

def VariableDecl.spans (decl : VariableDecl) : List Span :=
  decl.span :: (spansOption TypeNode.spans decl.type ++ spansOption Expr.spans decl.init)

mutual

def Stmt.spans : Stmt → List Span
  | .vars span _ decls => span :: decls.flatMap VariableDecl.spans
  | .expr span value => span :: value.spans
  | .ret span value => span :: spansOption Expr.spans value
  | .ifElse span condition thenBranch elseBranch =>
    span :: (condition.spans ++ (thenBranch.spans ++ Stmt.spansElse elseBranch))
  | .loop span condition body => span :: (condition.spans ++ body.spans)
  | .brk span | .cont span => [span]
  | .block span body => span :: Stmt.spansList body
  | .staged span before body => span :: (Stmt.spansList before ++ body.spans)

def Stmt.spansElse : Option Stmt → List Span
  | none => []
  | some branch => branch.spans

def Stmt.spansList : List Stmt → List Span
  | [] => []
  | stmt :: rest => stmt.spans ++ Stmt.spansList rest

end

def Decorator.spans (decorator : Decorator) : List Span :=
  decorator.span :: Expr.spansList decorator.args

def Param.spans (param : Param) : List Span :=
  param.span :: (spansOption TypeNode.spans param.type ++ spansOption Expr.spans param.default)

def ClassMember.spans : ClassMember → List Span
  | .property span decl => span :: spansOption TypeNode.spans decl.type
  | .method span decl =>
    span :: (decl.decorators.flatMap Decorator.spans ++ (decl.params.flatMap Param.spans ++
      (spansOption TypeNode.spans decl.returnType ++ spansOption Stmt.spansList decl.body)))
  | .constructor span decl =>
    span :: (decl.params.flatMap Param.spans ++ spansOption Stmt.spansList decl.body)

def MethodSignature.spans (signature : MethodSignature) : List Span :=
  signature.span ::
    (signature.params.flatMap Param.spans ++ spansOption TypeNode.spans signature.returnType)

mutual

def Decl.spans : Decl → List Span
  | .importDecl span decl => span :: decl.specifier.spans
  | .classDecl span decl =>
    span :: (decl.decorators.flatMap Decorator.spans ++ decl.members.flatMap ClassMember.spans)
  | .functionDecl span decl =>
    span :: (decl.decorators.flatMap Decorator.spans ++ (decl.params.flatMap Param.spans ++
      (spansOption TypeNode.spans decl.returnType ++ spansOption Stmt.spansList decl.body)))
  | .interfaceDecl span decl => span :: decl.methods.flatMap MethodSignature.spans
  | .typeAlias span _ => [span]
  | .moduleDecl span decorators _ _ body =>
    span :: (decorators.flatMap Decorator.spans ++ Decl.spansList body)

def Decl.spansList : List Decl → List Span
  | [] => []
  | decl :: rest => decl.spans ++ Decl.spansList rest

end

def Program.spans (program : Program) : List Span := Decl.spansList program.decls

end NativeLowering
