import NativeLowering.Json.Reader
import NativeLowering.Json.Record
import NativeLowering.Syntax.Decl

/-!
# Programs from JSON

The inverse of the encoding, and as lenient as the record format allows: see `Json.openRecord`.
Every decoder takes the number of nested objects and arrays it may still open, and gives up when
that runs out. The limit counts only what is decoded; the value of a member that a record does
not know may nest as deep as it likes.

`Program.parse?` is the entry point: it reads a text and decodes what the text spells, opening at
most `nestingLimit` levels.
-/

set_option autoImplicit false

namespace NativeLowering

open Vocabulary (BinaryOp UnaryOp)
open Json (Field Fields openRecord bareVariant? list? texts?)

/-- How many objects and arrays may be open at once. -/
def nestingLimit : Nat := 127

/-! ## Spans -/

/-- The fields of a span. -/
def Span.fields : List Field := [⟨"start", .required⟩, ⟨"end", .required⟩]

/-- A span. -/
def Span.decode : Nat → Json → Option Span
  | 0, _ => none
  | _ + 1, json => do
    let fields ← openRecord Span.fields json
    let start ← fields.need "start" Json.offset?
    let stop ← fields.need "end" Json.offset?
    return { start, stop }

/-- The fields of a node at a span. -/
def spannedFields : List Field := [⟨"node", .required⟩, ⟨"span", .defaulted⟩]

/-- The node proper and the span of a node, which is empty unless written. -/
def openSpanned (n : Nat) (json : Json) : Option (Span × Json) := do
  let fields ← openRecord spannedFields json
  let node ← fields.need "node" some
  let span ← fields.orElse "span" {} (Span.decode n)
  return (span, node)

/-! ## Types -/

/-- The keyword type of a name. -/
def Keyword.ofString? : String → Option Keyword
  | "void" => some .void
  | "boolean" => some .boolean
  | "number" => some .number
  | "string" => some .string
  | _ => none

/-- A keyword type. -/
def Keyword.decode (n : Nat) (json : Json) : Option Keyword :=
  (bareVariant? n json).bind Keyword.ofString?

/-- The fields of a reference to a named type. -/
def TypeNode.referenceFields : List Field := [⟨"name", .required⟩, ⟨"type_args", .defaulted⟩]

mutual

/-- A type annotation. -/
def TypeNode.decode : Nat → Json → Option TypeNode
  | 0, _ => none
  | n + 1, json => do
    let (span, node) ← openSpanned n json
    TypeNode.decodeNode n span node

/-- A type annotation at a span. -/
def TypeNode.decodeNode : Nat → Span → Json → Option TypeNode
  | n + 1, span, .object [(some tag, payload)] =>
    match tag with
    | "Reference" => TypeNode.decodeReference n span payload
    | "Keyword" => (Keyword.decode n payload).map (.keyword span)
    | _ => none
  | _, _, _ => none

/-- A reference to a named type. -/
def TypeNode.decodeReference : Nat → Span → Json → Option TypeNode
  | 0, _, _ => none
  | n + 1, span, json => do
    let fields ← openRecord TypeNode.referenceFields json
    let name ← fields.need "name" (texts? n)
    let args ← fields.orElse "type_args" [] (TypeNode.decodeList n)
    return .reference span name args

/-- The type annotations in an array. -/
def TypeNode.decodeList : Nat → Json → Option (List TypeNode)
  | n + 1, .array items => items.mapM (TypeNode.decode n)
  | _, _ => none

end

/-! ## Expressions -/

/-- A binary operator. -/
def decodeBinaryOp (n : Nat) (json : Json) : Option BinaryOp :=
  (bareVariant? n json).bind BinaryOp.ofString?

/-- A unary operator. -/
def decodeUnaryOp (n : Nat) (json : Json) : Option UnaryOp :=
  (bareVariant? n json).bind UnaryOp.ofString?

/-- A literal value. -/
def Literal.decode : Nat → Json → Option Literal
  | _, .string (some "Null") => some .null
  | _ + 1, .object [(some tag, payload)] =>
    match tag, payload with
    | "Number", payload => payload.text?.map .number
    | "String", payload => payload.text?.map .string
    | "Bool", payload => payload.bool?.map .bool
    | "Null", .null => some .null
    | _, _ => none
  | _, _ => none

namespace Expr

/-- The fields of a property access. -/
def propertyFields : List Field := [⟨"object", .required⟩, ⟨"name", .required⟩]

/-- The fields of a call. -/
def callFields : List Field :=
  [⟨"callee", .required⟩, ⟨"type_args", .defaulted⟩, ⟨"args", .defaulted⟩]

/-- The fields of a construction. -/
def newFields : List Field := [⟨"class", .required⟩, ⟨"args", .defaulted⟩]

/-- The fields of a binary operation. -/
def binaryFields : List Field :=
  [⟨"op", .required⟩, ⟨"left", .required⟩, ⟨"right", .required⟩]

/-- The fields of a unary operation. -/
def unaryFields : List Field := [⟨"op", .required⟩, ⟨"operand", .required⟩]

/-- The fields of a receiver call. -/
def receiverCallFields : List Field :=
  [⟨"class", .required⟩, ⟨"method", .required⟩, ⟨"args", .required⟩]

end Expr

mutual

/-- An expression. -/
def Expr.decode : Nat → Json → Option Expr
  | 0, _ => none
  | n + 1, json => do
    let (span, node) ← openSpanned n json
    Expr.decodeNode n span node

/-- An expression at a span. -/
def Expr.decodeNode : Nat → Span → Json → Option Expr
  | _, span, .string (some "This") => some (.thisRef span)
  | n + 1, span, .object [(some tag, payload)] =>
    match tag with
    | "Ident" => payload.text?.map (.ident span)
    | "This" =>
      match payload with
      | .null => some (.thisRef span)
      | _ => none
    | "Literal" => (Literal.decode n payload).map (.literal span)
    | "Property" => Expr.decodeProperty n span payload
    | "Call" => Expr.decodeCall n span payload
    | "New" => Expr.decodeNew n span payload
    | "Binary" => Expr.decodeBinary n span payload
    | "Unary" => Expr.decodeUnary n span payload
    | "Paren" => (Expr.decode n payload).map (.paren span)
    | "Comma" => (Expr.decodeList n payload).map (.comma span)
    | "ReceiverCall" => Expr.decodeReceiverCall n span payload
    | _ => none
  | _, _, _ => none

/-- A property access. -/
def Expr.decodeProperty : Nat → Span → Json → Option Expr
  | 0, _, _ => none
  | n + 1, span, json => do
    let fields ← openRecord Expr.propertyFields json
    let object ← fields.need "object" (Expr.decode n)
    let name ← fields.need "name" Json.text?
    return .property span object name

/-- A call. -/
def Expr.decodeCall : Nat → Span → Json → Option Expr
  | 0, _, _ => none
  | n + 1, span, json => do
    let fields ← openRecord Expr.callFields json
    let callee ← fields.need "callee" (Expr.decode n)
    let typeArgs ← fields.option "type_args" (TypeNode.decodeList n)
    let args ← fields.orElse "args" [] (Expr.decodeList n)
    return .call span callee typeArgs args

/-- A construction. -/
def Expr.decodeNew : Nat → Span → Json → Option Expr
  | 0, _, _ => none
  | n + 1, span, json => do
    let fields ← openRecord Expr.newFields json
    let target ← fields.need "class" (Expr.decode n)
    let args ← fields.orElse "args" [] (Expr.decodeList n)
    return .new span target args

/-- A binary operation. -/
def Expr.decodeBinary : Nat → Span → Json → Option Expr
  | 0, _, _ => none
  | n + 1, span, json => do
    let fields ← openRecord Expr.binaryFields json
    let op ← fields.need "op" (decodeBinaryOp n)
    let left ← fields.need "left" (Expr.decode n)
    let right ← fields.need "right" (Expr.decode n)
    return .binary span op left right

/-- A unary operation. -/
def Expr.decodeUnary : Nat → Span → Json → Option Expr
  | 0, _, _ => none
  | n + 1, span, json => do
    let fields ← openRecord Expr.unaryFields json
    let op ← fields.need "op" (decodeUnaryOp n)
    let operand ← fields.need "operand" (Expr.decode n)
    return .unary span op operand

/-- A receiver call. -/
def Expr.decodeReceiverCall : Nat → Span → Json → Option Expr
  | 0, _, _ => none
  | n + 1, span, json => do
    let fields ← openRecord Expr.receiverCallFields json
    let owner ← fields.need "class" Json.text?
    let method ← fields.need "method" Json.text?
    let args ← fields.need "args" (Expr.decodeList n)
    return .receiverCall span owner method args

/-- The expressions in an array. -/
def Expr.decodeList : Nat → Json → Option (List Expr)
  | n + 1, .array items => items.mapM (Expr.decode n)
  | _, _ => none

end

/-! ## Statements -/

/-- A binding. -/
def BindingName.decode : Nat → Json → Option BindingName
  | _, .string (some tag) =>
    match tag with
    | "ObjectPattern" => some .objectPattern
    | "ArrayPattern" => some .arrayPattern
    | _ => none
  | _ + 1, .object [(some tag, payload)] =>
    match tag, payload with
    | "Ident", payload => payload.text?.map .ident
    | "ObjectPattern", .null => some .objectPattern
    | "ArrayPattern", .null => some .arrayPattern
    | _, _ => none
  | _, _ => none

/-- The way to introduce variables that a word stands for. -/
def VariableKind.ofString? : String → Option VariableKind
  | "let" => some .letKind
  | "const" => some .constKind
  | "var" => some .varKind
  | _ => none

/-- A way to introduce variables. -/
def VariableKind.decode (n : Nat) (json : Json) : Option VariableKind :=
  (bareVariant? n json).bind VariableKind.ofString?

/-- The fields of one variable of a variable statement. -/
def VariableDecl.fields : List Field :=
  [⟨"name", .required⟩, ⟨"ty", .defaulted⟩, ⟨"initializer", .defaulted⟩]

/-- One variable of a variable statement, at a span. -/
def VariableDecl.decodeNode : Nat → Span → Json → Option VariableDecl
  | 0, _, _ => none
  | n + 1, span, json => do
    let fields ← openRecord VariableDecl.fields json
    let name ← fields.need "name" (BindingName.decode n)
    let type ← fields.option "ty" (TypeNode.decode n)
    let init ← fields.option "initializer" (Expr.decode n)
    return { span, name, type, init }

/-- One variable of a variable statement. -/
def VariableDecl.decode : Nat → Json → Option VariableDecl
  | 0, _ => none
  | n + 1, json => do
    let (span, node) ← openSpanned n json
    VariableDecl.decodeNode n span node

namespace Stmt

/-- The fields of a variable statement. -/
def varsFields : List Field := [⟨"kind", .required⟩, ⟨"declarations", .required⟩]

/-- The fields of a conditional. -/
def ifFields : List Field :=
  [⟨"condition", .required⟩, ⟨"then_branch", .required⟩, ⟨"else_branch", .defaulted⟩]

/-- The fields of a loop. -/
def loopFields : List Field := [⟨"condition", .required⟩, ⟨"body", .required⟩]

/-- The fields of a block. -/
def blockFields : List Field := [⟨"statements", .required⟩]

/-- The fields of a staged statement. -/
def stagedFields : List Field := [⟨"prelude", .required⟩, ⟨"statement", .required⟩]

end Stmt

/-- A variable statement at a span. -/
def Stmt.decodeVars : Nat → Span → Json → Option Stmt
  | 0, _, _ => none
  | n + 1, span, json => do
    let fields ← openRecord Stmt.varsFields json
    let kind ← fields.need "kind" (VariableKind.decode n)
    let decls ← fields.need "declarations" (list? VariableDecl.decode n)
    return .vars span kind decls

/-- The value of a return, which may be absent. -/
def Stmt.decodeReturn (n : Nat) (span : Span) : Json → Option Stmt
  | .null => some (.ret span none)
  | json => (Expr.decode n json).map fun value => .ret span (some value)

mutual

/-- A statement. -/
def Stmt.decode : Nat → Json → Option Stmt
  | 0, _ => none
  | n + 1, json => do
    let (span, node) ← openSpanned n json
    Stmt.decodeNode n span node

/-- A statement at a span. -/
def Stmt.decodeNode : Nat → Span → Json → Option Stmt
  | _, span, .string (some tag) =>
    match tag with
    | "Break" => some (.brk span)
    | "Continue" => some (.cont span)
    | _ => none
  | n + 1, span, .object [(some tag, payload)] =>
    match tag with
    | "Variable" => Stmt.decodeVars n span payload
    | "Expr" => (Expr.decode n payload).map (.expr span)
    | "Return" => Stmt.decodeReturn n span payload
    | "If" => Stmt.decodeIf n span payload
    | "While" => Stmt.decodeLoop n span payload
    | "Break" =>
      match payload with
      | .null => some (.brk span)
      | _ => none
    | "Continue" =>
      match payload with
      | .null => some (.cont span)
      | _ => none
    | "Block" => (Stmt.decodeBlock n payload).map (.block span)
    | "Staged" => Stmt.decodeStaged n span payload
    | _ => none
  | _, _, _ => none

/-- A conditional. -/
def Stmt.decodeIf : Nat → Span → Json → Option Stmt
  | 0, _, _ => none
  | n + 1, span, json => do
    let fields ← openRecord Stmt.ifFields json
    let condition ← fields.need "condition" (Expr.decode n)
    let thenBranch ← fields.need "then_branch" (Stmt.decode n)
    let elseBranch ← fields.option "else_branch" (Stmt.decode n)
    return .ifElse span condition thenBranch elseBranch

/-- A loop. -/
def Stmt.decodeLoop : Nat → Span → Json → Option Stmt
  | 0, _, _ => none
  | n + 1, span, json => do
    let fields ← openRecord Stmt.loopFields json
    let condition ← fields.need "condition" (Expr.decode n)
    let body ← fields.need "body" (Stmt.decode n)
    return .loop span condition body

/-- The statements of a block. -/
def Stmt.decodeBlock : Nat → Json → Option (List Stmt)
  | 0, _ => none
  | n + 1, json => do
    let fields ← openRecord Stmt.blockFields json
    fields.need "statements" (Stmt.decodeList n)

/-- A staged statement. -/
def Stmt.decodeStaged : Nat → Span → Json → Option Stmt
  | 0, _, _ => none
  | n + 1, span, json => do
    let fields ← openRecord Stmt.stagedFields json
    let before ← fields.need "prelude" (Stmt.decodeList n)
    let body ← fields.need "statement" (Stmt.decode n)
    return .staged span before body

/-- The statements in an array. -/
def Stmt.decodeList : Nat → Json → Option (List Stmt)
  | n + 1, .array items => items.mapM (Stmt.decode n)
  | _, _ => none

end

/-! ## Class members -/

/-- The fields of a decorator. -/
def Decorator.fields : List Field := [⟨"name", .required⟩, ⟨"args", .defaulted⟩]

/-- A decorator at a span. -/
def Decorator.decodeNode : Nat → Span → Json → Option Decorator
  | 0, _, _ => none
  | n + 1, span, json => do
    let fields ← openRecord Decorator.fields json
    let name ← fields.need "name" Json.text?
    let args ← fields.orElse "args" [] (Expr.decodeList n)
    return { span, name, args }

/-- A decorator. -/
def Decorator.decode : Nat → Json → Option Decorator
  | 0, _ => none
  | n + 1, json => do
    let (span, node) ← openSpanned n json
    Decorator.decodeNode n span node

/-- The visibility a word stands for. -/
def Visibility.ofString? : String → Option Visibility
  | "public" => some .publicMember
  | "protected" => some .protectedMember
  | "private" => some .privateMember
  | _ => none

/-- A visibility. -/
def Visibility.decode (n : Nat) (json : Json) : Option Visibility :=
  (bareVariant? n json).bind Visibility.ofString?

/-- The fields of a parameter. -/
def Param.fields : List Field :=
  [⟨"name", .required⟩, ⟨"ty", .defaulted⟩, ⟨"default", .defaulted⟩, ⟨"rest", .defaulted⟩]

/-- A parameter at a span. -/
def Param.decodeNode : Nat → Span → Json → Option Param
  | 0, _, _ => none
  | n + 1, span, json => do
    let fields ← openRecord Param.fields json
    let name ← fields.need "name" (BindingName.decode n)
    let type ← fields.option "ty" (TypeNode.decode n)
    let default ← fields.option "default" (Expr.decode n)
    let rest ← fields.orElse "rest" false Json.bool?
    return { span, name, type, default, rest }

/-- A parameter. -/
def Param.decode : Nat → Json → Option Param
  | 0, _ => none
  | n + 1, json => do
    let (span, node) ← openSpanned n json
    Param.decodeNode n span node

/-- The fields of a class field. -/
def PropertyDecl.fields : List Field :=
  [⟨"visibility", .defaulted⟩, ⟨"name", .required⟩, ⟨"ty", .defaulted⟩]

/-- A class field. -/
def PropertyDecl.decode : Nat → Json → Option PropertyDecl
  | 0, _ => none
  | n + 1, json => do
    let fields ← openRecord PropertyDecl.fields json
    let visibility ← fields.orElse "visibility" .publicMember (Visibility.decode n)
    let name ← fields.need "name" Json.text?
    let type ← fields.option "ty" (TypeNode.decode n)
    return { visibility, name, type }

/-- The fields of a method. -/
def MethodDecl.fields : List Field :=
  [⟨"decorators", .defaulted⟩, ⟨"visibility", .defaulted⟩, ⟨"name", .required⟩,
   ⟨"params", .defaulted⟩, ⟨"return_type", .defaulted⟩, ⟨"body", .defaulted⟩]

/-- A method. -/
def MethodDecl.decode : Nat → Json → Option MethodDecl
  | 0, _ => none
  | n + 1, json => do
    let fields ← openRecord MethodDecl.fields json
    let decorators ← fields.orElse "decorators" [] (list? Decorator.decode n)
    let visibility ← fields.orElse "visibility" .publicMember (Visibility.decode n)
    let name ← fields.need "name" Json.text?
    let params ← fields.orElse "params" [] (list? Param.decode n)
    let returnType ← fields.option "return_type" (TypeNode.decode n)
    let body ← fields.option "body" (Stmt.decodeBlock n)
    return { decorators, visibility, name, params, returnType, body }

/-- The fields of a constructor. -/
def ConstructorDecl.fields : List Field :=
  [⟨"visibility", .defaulted⟩, ⟨"params", .defaulted⟩, ⟨"body", .defaulted⟩]

/-- A constructor. -/
def ConstructorDecl.decode : Nat → Json → Option ConstructorDecl
  | 0, _ => none
  | n + 1, json => do
    let fields ← openRecord ConstructorDecl.fields json
    let visibility ← fields.orElse "visibility" .publicMember (Visibility.decode n)
    let params ← fields.orElse "params" [] (list? Param.decode n)
    let body ← fields.option "body" (Stmt.decodeBlock n)
    return { visibility, params, body }

/-- A class member at a span. -/
def ClassMember.decodeNode : Nat → Span → Json → Option ClassMember
  | n + 1, span, .object [(some tag, payload)] =>
    match tag with
    | "Property" => (PropertyDecl.decode n payload).map (.property span)
    | "Method" => (MethodDecl.decode n payload).map (.method span)
    | "Constructor" => (ConstructorDecl.decode n payload).map (.constructor span)
    | _ => none
  | _, _, _ => none

/-- A class member. -/
def ClassMember.decode : Nat → Json → Option ClassMember
  | 0, _ => none
  | n + 1, json => do
    let (span, node) ← openSpanned n json
    ClassMember.decodeNode n span node

/-! ## Declarations -/

/-- The fields of a class. -/
def ClassDecl.fields : List Field :=
  [⟨"decorators", .defaulted⟩, ⟨"declare", .defaulted⟩, ⟨"name", .nullable⟩,
   ⟨"members", .defaulted⟩]

/-- A class. -/
def ClassDecl.decode : Nat → Json → Option ClassDecl
  | 0, _ => none
  | n + 1, json => do
    let fields ← openRecord ClassDecl.fields json
    let decorators ← fields.orElse "decorators" [] (list? Decorator.decode n)
    let declared ← fields.orElse "declare" false Json.bool?
    let name ← fields.option "name" Json.text?
    let members ← fields.orElse "members" [] (list? ClassMember.decode n)
    return { decorators, declared, name, members }

/-- The fields of a function. -/
def FunctionDecl.fields : List Field :=
  [⟨"decorators", .defaulted⟩, ⟨"declare", .defaulted⟩, ⟨"name", .nullable⟩,
   ⟨"type_params", .defaulted⟩, ⟨"params", .defaulted⟩, ⟨"return_type", .defaulted⟩,
   ⟨"body", .defaulted⟩]

/-- A function. -/
def FunctionDecl.decode : Nat → Json → Option FunctionDecl
  | 0, _ => none
  | n + 1, json => do
    let fields ← openRecord FunctionDecl.fields json
    let decorators ← fields.orElse "decorators" [] (list? Decorator.decode n)
    let declared ← fields.orElse "declare" false Json.bool?
    let name ← fields.option "name" Json.text?
    let typeParams ← fields.orElse "type_params" [] (texts? n)
    let params ← fields.orElse "params" [] (list? Param.decode n)
    let returnType ← fields.option "return_type" (TypeNode.decode n)
    let body ← fields.option "body" (Stmt.decodeBlock n)
    return { decorators, declared, name, typeParams, params, returnType, body }

/-- The fields of a method that an interface asks for. -/
def MethodSignature.fields : List Field :=
  [⟨"name", .required⟩, ⟨"params", .defaulted⟩, ⟨"return_type", .defaulted⟩]

/-- A method that an interface asks for, at a span. -/
def MethodSignature.decodeNode : Nat → Span → Json → Option MethodSignature
  | 0, _, _ => none
  | n + 1, span, json => do
    let fields ← openRecord MethodSignature.fields json
    let name ← fields.need "name" Json.text?
    let params ← fields.orElse "params" [] (list? Param.decode n)
    let returnType ← fields.option "return_type" (TypeNode.decode n)
    return { span, name, params, returnType }

/-- A method that an interface asks for. -/
def MethodSignature.decode : Nat → Json → Option MethodSignature
  | 0, _ => none
  | n + 1, json => do
    let (span, node) ← openSpanned n json
    MethodSignature.decodeNode n span node

/-- The fields of an interface. -/
def InterfaceDecl.fields : List Field := [⟨"name", .required⟩, ⟨"methods", .defaulted⟩]

/-- An interface. -/
def InterfaceDecl.decode : Nat → Json → Option InterfaceDecl
  | 0, _ => none
  | n + 1, json => do
    let fields ← openRecord InterfaceDecl.fields json
    let name ← fields.need "name" Json.text?
    let methods ← fields.orElse "methods" [] (list? MethodSignature.decode n)
    return { name, methods }

/-- The fields of one name of a named import. -/
def ImportItem.fields : List Field := [⟨"name", .required⟩, ⟨"alias", .defaulted⟩]

/-- One name of a named import. -/
def ImportItem.decode : Nat → Json → Option ImportItem
  | 0, _ => none
  | _ + 1, json => do
    let fields ← openRecord ImportItem.fields json
    let name ← fields.need "name" Json.text?
    let rename ← fields.option "alias" Json.text?
    return { name, rename }

/-- What an import binds. -/
def ImportClause.decode : Nat → Json → Option ImportClause
  | n + 1, .object [(some tag, payload)] =>
    match tag with
    | "Named" => (list? ImportItem.decode n payload).map .named
    | "Namespace" => payload.text?.map .whole
    | _ => none
  | _, _ => none

/-- The fields of an import. -/
def ImportDecl.fields : List Field := [⟨"module", .required⟩, ⟨"clause", .defaulted⟩]

/-- An import. -/
def ImportDecl.decode : Nat → Json → Option ImportDecl
  | 0, _ => none
  | n + 1, json => do
    let fields ← openRecord ImportDecl.fields json
    let specifier ← fields.need "module" (Expr.decode n)
    let clause ← fields.option "clause" (ImportClause.decode n)
    return { specifier, clause }

/-- The fields of a type alias. -/
def Decl.typeAliasFields : List Field := [⟨"name", .required⟩]

/-- The name of a type alias. -/
def Decl.decodeTypeAlias : Nat → Json → Option String
  | 0, _ => none
  | _ + 1, json => do
    let fields ← openRecord Decl.typeAliasFields json
    fields.need "name" Json.text?

/-- The fields of a module. -/
def Decl.moduleFields : List Field :=
  [⟨"decorators", .defaulted⟩, ⟨"declare", .defaulted⟩, ⟨"name", .required⟩, ⟨"body", .defaulted⟩]

mutual

/-- A declaration. -/
def Decl.decode : Nat → Json → Option Decl
  | 0, _ => none
  | n + 1, json => do
    let (span, node) ← openSpanned n json
    Decl.decodeNode n span node

/-- A declaration at a span. -/
def Decl.decodeNode : Nat → Span → Json → Option Decl
  | n + 1, span, .object [(some tag, payload)] =>
    match tag with
    | "Import" => (ImportDecl.decode n payload).map (.importDecl span)
    | "Class" => (ClassDecl.decode n payload).map (.classDecl span)
    | "Function" => (FunctionDecl.decode n payload).map (.functionDecl span)
    | "Interface" => (InterfaceDecl.decode n payload).map (.interfaceDecl span)
    | "TypeAlias" => (Decl.decodeTypeAlias n payload).map (.typeAlias span)
    | "Module" => Decl.decodeModule n span payload
    | _ => none
  | _, _, _ => none

/-- A module. -/
def Decl.decodeModule : Nat → Span → Json → Option Decl
  | 0, _, _ => none
  | n + 1, span, json => do
    let fields ← openRecord Decl.moduleFields json
    let decorators ← fields.orElse "decorators" [] (list? Decorator.decode n)
    let declared ← fields.orElse "declare" false Json.bool?
    let name ← fields.need "name" Json.text?
    let body ← fields.orElse "body" [] (Decl.decodeList n)
    return .moduleDecl span decorators declared name body

/-- The declarations in an array. -/
def Decl.decodeList : Nat → Json → Option (List Decl)
  | n + 1, .array items => items.mapM (Decl.decode n)
  | _, _ => none

end

/-- The fields of a program. -/
def Program.fields : List Field := [⟨"declarations", .required⟩]

/-- A program. -/
def Program.decode : Nat → Json → Option Program
  | 0, _ => none
  | n + 1, json => do
    let fields ← openRecord Program.fields json
    let decls ← fields.need "declarations" (Decl.decodeList n)
    return { decls }

/-- The program that a JSON text spells. -/
def Program.parse? (text : String) : Option Program :=
  (Json.read text).bind (Program.decode nestingLimit)

end NativeLowering
