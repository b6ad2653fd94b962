import NativeLowering.Syntax.Decl

/-!
# Building programs by hand

Short functions for writing down nodes that come from no source: every span is empty, and what
is rarely set has its usual value.
-/

set_option autoImplicit false

namespace NativeLowering.Build

open Vocabulary (BinaryOp UnaryOp)

/-! ## Types -/

/-- A named type with arguments; dots separate the components of the name. -/
def typeWith (name : String) (args : List TypeNode) : TypeNode :=
  .reference {} ((name.toList.splitOn '.').map String.ofList) args

/-- A named type. -/
def type (name : String) : TypeNode := typeWith name []

/-- A raw pointer to a type. -/
def pointer (inner : TypeNode) : TypeNode := typeWith "Ptr" [inner]

/-- A keyword type. -/
def keyword (keyword : Keyword) : TypeNode := .keyword {} keyword

/-- The type of functions that return nothing. -/
def void : TypeNode := keyword .void

/-! ## Expressions -/

/-- An identifier. -/
def ident (name : String) : Expr := .ident {} name

/-- The current instance. -/
def thisRef : Expr := .thisRef {}

/-- A number in the given spelling. -/
def number (spelling : String) : Expr := .literal {} (.number spelling)

/-- A string. -/
def string (value : String) : Expr := .literal {} (.string value)

/-- A truth value. -/
def boolean (value : Bool) : Expr := .literal {} (.bool value)

/-- A property of an object. -/
def property (object : Expr) (name : String) : Expr := .property {} object name

/-- A call without type arguments. -/
def call (callee : Expr) (args : List Expr) : Expr := .call {} callee none args

/-- A call with explicit type arguments. -/
def callWith (callee : Expr) (typeArgs : List TypeNode) (args : List Expr) : Expr :=
  .call {} callee (some typeArgs) args

/-- A method call. -/
def methodCall (object : Expr) (method : String) (args : List Expr) : Expr :=
  call (property object method) args

/-- A construction of a class given by name. -/
def new (target : String) (args : List Expr) : Expr := .new {} (ident target) args

/-- A binary operation. -/
def binary (op : BinaryOp) (left right : Expr) : Expr := .binary {} op left right

/-- An assignment. -/
def assign (left right : Expr) : Expr := binary .assign left right

/-- A unary operation. -/
def unary (op : UnaryOp) (operand : Expr) : Expr := .unary {} op operand

/-- An expression in parentheses. -/
def paren (inner : Expr) : Expr := .paren {} inner

/-! ## Statements -/

/-- A statement that introduces one variable. -/
def variableOf (kind : VariableKind) (name : String) (type : Option TypeNode)
    (init : Option Expr) : Stmt :=
  .vars {} kind [{ span := {}, name := .ident name, type, init }]

/-- A statement that introduces one block-scoped variable. -/
def letVar (name : String) (type : Option TypeNode) (init : Option Expr) : Stmt :=
  variableOf .letKind name type init

/-- A statement that introduces one function-scoped variable. -/
def varVar (name : String) (type : Option TypeNode) (init : Option Expr) : Stmt :=
  variableOf .varKind name type init

/-- An expression as a statement. -/
def exprStmt (value : Expr) : Stmt := .expr {} value

/-- A return. -/
def ret (value : Option Expr) : Stmt := .ret {} value

/-- A conditional. -/
def ifElse (condition : Expr) (thenBranch : Stmt) (elseBranch : Option Stmt) : Stmt :=
  .ifElse {} condition thenBranch elseBranch

/-- A loop. -/
def loop (condition : Expr) (body : Stmt) : Stmt := .loop {} condition body

/-- A block. -/
def block (body : List Stmt) : Stmt := .block {} body

/-- A break. -/
def brk : Stmt := .brk {}

/-- A continue. -/
def cont : Stmt := .cont {}

/-! ## Class members and parameters -/

/-- A parameter. -/
def param (name : String) (type : TypeNode) : Param :=
  { span := {}, name := .ident name, type := some type, default := none, rest := false }

/-- A parameter with a default value. -/
def paramDefault (name : String) (type : TypeNode) (value : Expr) : Param :=
  { param name type with default := some value }

/-- A field of the given visibility. -/
def fieldWith (visibility : Visibility) (name : String) (type : TypeNode) : ClassMember :=
  .property {} { visibility, name, type := some type }

/-- A public field. -/
def field (name : String) (type : TypeNode) : ClassMember :=
  fieldWith .publicMember name type

/-- A method of the given visibility. -/
def methodWith (visibility : Visibility) (name : String) (params : List Param)
    (returnType : TypeNode) (body : List Stmt) : ClassMember :=
  .method {} { decorators := [], visibility, name, params, returnType := some returnType,
               body := some body }

/-- A public method. -/
def method (name : String) (params : List Param) (returnType : TypeNode) (body : List Stmt) :
    ClassMember :=
  methodWith .publicMember name params returnType body

/-- A public constructor. -/
def constructor (params : List Param) (body : List Stmt) : ClassMember :=
  .constructor {} { visibility := .publicMember, params, body := some body }

/-! ## Declarations -/

/-- A decorator. -/
def decorator (name : String) (args : List Expr) : Decorator := { span := {}, name, args }

/-- A class. -/
def classOf (name : String) (members : List ClassMember) : Decl :=
  .classDecl {} { decorators := [], declared := false, name := some name, members }

/-- The declaration with further decorators, where it can have any. -/
def decorated (decl : Decl) (decorators : List Decorator) : Decl :=
  match decl with
  | .classDecl span decl =>
    .classDecl span { decl with decorators := decl.decorators ++ decorators }
  | .functionDecl span decl =>
    .functionDecl span { decl with decorators := decl.decorators ++ decorators }
  | .moduleDecl span own declared name body =>
    .moduleDecl span (own ++ decorators) declared name body
  | .importDecl .. | .interfaceDecl .. | .typeAlias .. => decl

/-- A class with value semantics. -/
def valueClass (name : String) (members : List ClassMember) : Decl :=
  decorated (classOf name members) [decorator "struct" []]

/-- A function with a body. -/
def function (name : String) (params : List Param) (returnType : TypeNode)
    (body : List Stmt) : Decl :=
  .functionDecl {} { decorators := [], declared := false, name := some name, typeParams := [],
                     params, returnType := some returnType, body := some body }

/-- A function that native code provides. -/
def declaredFunction (name : String) (params : List Param) (returnType : TypeNode) : Decl :=
  .functionDecl {} { decorators := [], declared := true, name := some name, typeParams := [],
                     params, returnType := some returnType, body := none }

/-- The declaration marked as declared, where it can be. -/
def declared : Decl → Decl
  | .classDecl span decl => .classDecl span { decl with declared := true }
  | .functionDecl span decl => .functionDecl span { decl with declared := true }
  | .moduleDecl span decorators _ name body => .moduleDecl span decorators true name body
  | decl => decl

/-- An ambient module. -/
def moduleOf (name : String) (body : List Decl) : Decl := .moduleDecl {} [] true name body

/-- A type alias. -/
def typeAlias (name : String) : Decl := .typeAlias {} name

/-- A method that an interface asks for. -/
def signature (name : String) (params : List Param) (returnType : TypeNode) : MethodSignature :=
  { span := {}, name, params, returnType := some returnType }

/-- An interface. -/
def interface (name : String) (methods : List MethodSignature) : Decl :=
  .interfaceDecl {} { name, methods }

/-- An import of some names. -/
def importNamed (specifier : String) (names : List String) : Decl :=
  .importDecl {}
    { specifier := string specifier
      clause := some (.named (names.map fun name => { name, rename := none })) }

/-- An import of a whole module. -/
def importWhole (specifier name : String) : Decl :=
  .importDecl {} { specifier := string specifier, clause := some (.whole name) }

/-- A program. -/
def program (decls : List Decl) : Program := { decls }

end NativeLowering.Build
