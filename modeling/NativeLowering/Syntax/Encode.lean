import NativeLowering.Json.Basic
import NativeLowering.Syntax.Decl

/-!
# Programs as JSON

Each node is written as a record with the node proper under `node` and its span under `span`. A
node that is one of several variants is an object with the variant's name as its only key, or
just that name if the variant has no payload. Every field of every record is written, `null`
standing for what is absent.
-/

set_option autoImplicit false

namespace NativeLowering

open Vocabulary (BinaryOp UnaryOp)

/-- A span. -/
def Span.encode (span : Span) : Json :=
  .record [("start", .ofNat span.start), ("end", .ofNat span.stop)]

/-- A node at a span. -/
def encodeSpanned (span : Span) (node : Json) : Json :=
  .record [("node", node), ("span", span.encode)]

/-! ## Types -/

/-- A keyword type. -/
def Keyword.encode : Keyword → Json
  | .void => .ofString "void"
  | .boolean => .ofString "boolean"
  | .number => .ofString "number"
  | .string => .ofString "string"

mutual

/-- A type annotation. -/
def TypeNode.encode : TypeNode → Json
  | .reference span name args =>
    encodeSpanned span (.tagged "Reference" (.record
      [("name", .ofList .ofString name), ("type_args", .array (TypeNode.encodeList args))]))
  | .keyword span word => encodeSpanned span (.tagged "Keyword" word.encode)

/-- Type annotations, in order. -/
def TypeNode.encodeList : List TypeNode → List Json
  | [] => []
  | node :: rest => node.encode :: TypeNode.encodeList rest

end

/-- A type annotation that may be absent. -/
def TypeNode.encodeOption (node : Option TypeNode) : Json := .ofOption (node.map TypeNode.encode)

/-! ## Expressions -/

/-- A literal value. -/
def Literal.encode : Literal → Json
  | .number spelling => .tagged "Number" (.ofString spelling)
  | .string value => .tagged "String" (.ofString value)
  | .bool value => .tagged "Bool" (.bool value)
  | .null => .ofString "Null"

mutual

/-- An expression. -/
def Expr.encode : Expr → Json
  | .ident span name => encodeSpanned span (.tagged "Ident" (.ofString name))
  | .thisRef span => encodeSpanned span (.ofString "This")
  | .literal span value => encodeSpanned span (.tagged "Literal" value.encode)
  | .property span object name =>
    encodeSpanned span (.tagged "Property" (.record
      [("object", object.encode), ("name", .ofString name)]))
  | .call span callee typeArgs args =>
    encodeSpanned span (.tagged "Call" (.record
      [("callee", callee.encode),
       ("type_args", .ofOption (typeArgs.map fun nodes => .array (TypeNode.encodeList nodes))),
       ("args", .array (Expr.encodeList args))]))
  | .new span target args =>
    encodeSpanned span (.tagged "New" (.record
      [("class", target.encode), ("args", .array (Expr.encodeList args))]))
  | .binary span op left right =>
    encodeSpanned span (.tagged "Binary" (.record
      [("op", .ofString op.spelling), ("left", left.encode), ("right", right.encode)]))
  | .unary span op operand =>
    encodeSpanned span (.tagged "Unary" (.record
      [("op", .ofString op.spelling), ("operand", operand.encode)]))
  | .paren span inner => encodeSpanned span (.tagged "Paren" inner.encode)
  | .comma span items => encodeSpanned span (.tagged "Comma" (.array (Expr.encodeList items)))
  | .receiverCall span owner method args =>
    encodeSpanned span (.tagged "ReceiverCall" (.record
      [("class", .ofString owner), ("method", .ofString method),
       ("args", .array (Expr.encodeList args))]))

/-- Expressions, in order. -/
def Expr.encodeList : List Expr → List Json
  | [] => []
  | expr :: rest => expr.encode :: Expr.encodeList rest

end

/-- An expression that may be absent. -/
def Expr.encodeOption (expr : Option Expr) : Json := .ofOption (expr.map Expr.encode)

/-! ## Statements -/

/-- A binding. -/
def BindingName.encode : BindingName → Json
  | .ident name => .tagged "Ident" (.ofString name)
  | .objectPattern => .ofString "ObjectPattern"
  | .arrayPattern => .ofString "ArrayPattern"

/-- A way to introduce variables. -/
def VariableKind.encode : VariableKind → Json
  | .letKind => .ofString "let"
  | .constKind => .ofString "const"
  | .varKind => .ofString "var"

/-- One variable of a variable statement. -/
def VariableDecl.encode (decl : VariableDecl) : Json :=
  encodeSpanned decl.span (.record
    [("name", decl.name.encode), ("ty", TypeNode.encodeOption decl.type),
     ("initializer", Expr.encodeOption decl.init)])

mutual

/-- A statement. -/
def Stmt.encode : Stmt → Json
  | .vars span kind decls =>
    encodeSpanned span (.tagged "Variable" (.record
      [("kind", kind.encode), ("declarations", .ofList VariableDecl.encode decls)]))
  | .expr span value => encodeSpanned span (.tagged "Expr" value.encode)
  | .ret span value => encodeSpanned span (.tagged "Return" (Expr.encodeOption value))
  | .ifElse span condition thenBranch elseBranch =>
    encodeSpanned span (.tagged "If" (.record
      [("condition", condition.encode), ("then_branch", thenBranch.encode),
       ("else_branch", Stmt.encodeOption elseBranch)]))
  | .loop span condition body =>
    encodeSpanned span (.tagged "While" (.record
      [("condition", condition.encode), ("body", body.encode)]))
  | .brk span => encodeSpanned span (.ofString "Break")
  | .cont span => encodeSpanned span (.ofString "Continue")
  | .block span body =>
    encodeSpanned span (.tagged "Block" (.record [("statements", .array (Stmt.encodeList body))]))
  | .staged span before body =>
    encodeSpanned span (.tagged "Staged" (.record
      [("prelude", .array (Stmt.encodeList before)), ("statement", body.encode)]))

/-- A statement that may be absent. -/
def Stmt.encodeOption : Option Stmt → Json
  | none => .null
  | some stmt => stmt.encode

/-- Statements, in order. -/
def Stmt.encodeList : List Stmt → List Json
  | [] => []
  | stmt :: rest => stmt.encode :: Stmt.encodeList rest

end

/-- A block. -/
def encodeBlock (body : List Stmt) : Json :=
  .record [("statements", .array (Stmt.encodeList body))]

/-- A block that may be absent. -/
def encodeBlockOption (body : Option (List Stmt)) : Json := .ofOption (body.map encodeBlock)

/-! ## Declarations -/

/-- A decorator. -/
def Decorator.encode (decorator : Decorator) : Json :=
  encodeSpanned decorator.span (.record
    [("name", .ofString decorator.name), ("args", .array (Expr.encodeList decorator.args))])

/-- A visibility. -/
def Visibility.encode (visibility : Visibility) : Json := .ofString visibility.spelling

/-- A parameter. -/
def Param.encode (param : Param) : Json :=
  encodeSpanned param.span (.record
    [("name", param.name.encode), ("ty", TypeNode.encodeOption param.type),
     ("default", Expr.encodeOption param.default), ("rest", .bool param.rest)])

/-- A class member. -/
def ClassMember.encode : ClassMember → Json
  | .property span decl =>
    encodeSpanned span (.tagged "Property" (.record
      [("visibility", decl.visibility.encode), ("name", .ofString decl.name),
       ("ty", TypeNode.encodeOption decl.type)]))
  | .method span decl =>
    encodeSpanned span (.tagged "Method" (.record
      [("decorators", .ofList Decorator.encode decl.decorators),
       ("visibility", decl.visibility.encode), ("name", .ofString decl.name),
       ("params", .ofList Param.encode decl.params),
       ("return_type", TypeNode.encodeOption decl.returnType),
       ("body", encodeBlockOption decl.body)]))
  | .constructor span decl =>
    encodeSpanned span (.tagged "Constructor" (.record
      [("visibility", decl.visibility.encode), ("params", .ofList Param.encode decl.params),
       ("body", encodeBlockOption decl.body)]))

/-- A method that an interface asks for. -/
def MethodSignature.encode (signature : MethodSignature) : Json :=
  encodeSpanned signature.span (.record
    [("name", .ofString signature.name), ("params", .ofList Param.encode signature.params),
     ("return_type", TypeNode.encodeOption signature.returnType)])

/-- One name of a named import. -/
def ImportItem.encode (item : ImportItem) : Json :=
  .record [("name", .ofString item.name), ("alias", .ofOption (item.rename.map .ofString))]

/-- What an import binds. -/
def ImportClause.encode : ImportClause → Json
  | .named items => .tagged "Named" (.ofList ImportItem.encode items)
  | .whole name => .tagged "Namespace" (.ofString name)

mutual

/-- A declaration. -/
def Decl.encode : Decl → Json
  | .importDecl span decl =>
    encodeSpanned span (.tagged "Import" (.record
      [("module", decl.specifier.encode),
       ("clause", .ofOption (decl.clause.map ImportClause.encode))]))
  | .classDecl span decl =>
    encodeSpanned span (.tagged "Class" (.record
      [("decorators", .ofList Decorator.encode decl.decorators), ("declare", .bool decl.declared),
       ("name", .ofOption (decl.name.map .ofString)),
       ("members", .ofList ClassMember.encode decl.members)]))
  | .functionDecl span decl =>
    encodeSpanned span (.tagged "Function" (.record
      [("decorators", .ofList Decorator.encode decl.decorators), ("declare", .bool decl.declared),
       ("name", .ofOption (decl.name.map .ofString)),
       ("type_params", .ofList .ofString decl.typeParams),
       ("params", .ofList Param.encode decl.params),
       ("return_type", TypeNode.encodeOption decl.returnType),
       ("body", encodeBlockOption decl.body)]))
  | .interfaceDecl span decl =>
    encodeSpanned span (.tagged "Interface" (.record
      [("name", .ofString decl.name), ("methods", .ofList MethodSignature.encode decl.methods)]))
  | .typeAlias span name =>
    encodeSpanned span (.tagged "TypeAlias" (.record [("name", .ofString name)]))
  | .moduleDecl span decorators declared name body =>
    encodeSpanned span (.tagged "Module" (.record
      [("decorators", .ofList Decorator.encode decorators), ("declare", .bool declared),
       ("name", .ofString name), ("body", .array (Decl.encodeList body))]))

/-- Declarations, in order. -/
def Decl.encodeList : List Decl → List Json
  | [] => []
  | decl :: rest => decl.encode :: Decl.encodeList rest

end

/-- A program. -/
def Program.encode (program : Program) : Json :=
  .record [("declarations", .array (Decl.encodeList program.decls))]

end NativeLowering
