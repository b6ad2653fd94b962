import NativeLowering.Syntax.Stmt

/-!
# Declarations and programs

A program is a list of top-level declarations. A declaration marked as declared describes what
native code provides and is never written out.
-/

set_option autoImplicit false

namespace NativeLowering

/-- A decorator on a declaration or a method. -/
structure Decorator where
  span : Span
  name : String
  args : List Expr

/-- Who may use a class member. -/
inductive Visibility where
  | publicMember | protectedMember | privateMember
  deriving DecidableEq

namespace Visibility

/-- Every visibility, in the order that members are grouped by. -/
def order : List Visibility := [.publicMember, .protectedMember, .privateMember]

/-- The word for the visibility. -/
def spelling : Visibility → String
  | .publicMember => "public"
  | .protectedMember => "protected"
  | .privateMember => "private"

end Visibility

/-- A parameter of a function, method or constructor. -/
structure Param where
  span : Span
  name : BindingName
  type : Option TypeNode
  default : Option Expr
  /-- Whether the parameter collects all remaining arguments. -/
  rest : Bool

/-- A field of a class. -/
structure PropertyDecl where
  visibility : Visibility
  name : String
  type : Option TypeNode

/-- A method of a class. -/
structure MethodDecl where
  decorators : List Decorator
  visibility : Visibility
  name : String
  params : List Param
  returnType : Option TypeNode
  body : Option (List Stmt)

/-- A constructor of a class. -/
structure ConstructorDecl where
  visibility : Visibility
  params : List Param
  body : Option (List Stmt)

/-- A member of a class. -/
inductive ClassMember where
  | property (span : Span) (decl : PropertyDecl)
  | method (span : Span) (decl : MethodDecl)
  | constructor (span : Span) (decl : ConstructorDecl)

/-- A class. -/
structure ClassDecl where
  decorators : List Decorator
  declared : Bool
  name : Option String
  members : List ClassMember

/-- A free function. -/
structure FunctionDecl where
  decorators : List Decorator
  declared : Bool
  name : Option String
  typeParams : List String
  params : List Param
  returnType : Option TypeNode
  body : Option (List Stmt)

/-- A method that an interface asks for. -/
structure MethodSignature where
  span : Span
  name : String
  params : List Param
  returnType : Option TypeNode

/-- An interface. -/
structure InterfaceDecl where
  name : String
  methods : List MethodSignature

/-- One name of a named import. -/
structure ImportItem where
  name : String
  /-- The name it is bound under, if that differs. -/
  rename : Option String

namespace ImportItem

/-- The name the item is visible under. -/
def localName (item : ImportItem) : String := item.rename.getD item.name

end ImportItem

/-- What an import binds. -/
inductive ImportClause where
  | named (items : List ImportItem)
  /-- The whole module, under one name. -/
  | whole (name : String)

/-- An import. -/
structure ImportDecl where
  /-- The module specifier; only a string literal is meaningful. -/
  specifier : Expr
  clause : Option ImportClause

/-- A top-level declaration, or one in the body of an ambient module. -/
inductive Decl where
  | importDecl (span : Span) (decl : ImportDecl)
  | classDecl (span : Span) (decl : ClassDecl)
  | functionDecl (span : Span) (decl : FunctionDecl)
  | interfaceDecl (span : Span) (decl : InterfaceDecl)
  | typeAlias (span : Span) (name : String)
  | moduleDecl (span : Span) (decorators : List Decorator) (declared : Bool) (name : String)
      (body : List Decl)

namespace Decl

/-- Where the declaration stands. -/
def span : Decl → Span
  | .importDecl span _ | .classDecl span _ | .functionDecl span _ | .interfaceDecl span _
  | .typeAlias span _ | .moduleDecl span .. => span

/-- The name the declaration declares, if it declares one. -/
def name? : Decl → Option String
  | .importDecl .. => none
  | .classDecl _ decl => decl.name
  | .functionDecl _ decl => decl.name
  | .interfaceDecl _ decl => some decl.name
  | .typeAlias _ name => some name
  | .moduleDecl _ _ _ name _ => some name

/-- Whether the declaration only describes what native code provides. Interfaces and type
aliases never become code, so they count. -/
def isDeclared : Decl → Bool
  | .importDecl .. => false
  | .classDecl _ decl => decl.declared
  | .functionDecl _ decl => decl.declared
  | .interfaceDecl .. | .typeAlias .. => true
  | .moduleDecl _ _ declared _ _ => declared

/-- The decorators on the declaration. -/
def decorators : Decl → List Decorator
  | .classDecl _ decl => decl.decorators
  | .functionDecl _ decl => decl.decorators
  | .moduleDecl _ decorators .. => decorators
  | .importDecl .. | .interfaceDecl .. | .typeAlias .. => []

end Decl

/-- A source file. -/
structure Program where
  decls : List Decl

instance : Inhabited Program := ⟨⟨[]⟩⟩

end NativeLowering
