import NativeLowering.Model.Symbol

/-!
# What declarations declare

The items of declarations, and the ambient modules with the items of their bodies. In the body of a
module a name is entered once; after a function that native code provides, further declarations of
its name are passed over.
-/

set_option autoImplicit false

namespace NativeLowering

open Vocabulary (Builtin)

/-! ## Items of declarations -/

/-- The fields that class members declare. -/
def fieldsOf (members : List ClassMember) : List FieldInfo :=
  members.filterMap fun
    | .property _ decl => some { name := decl.name, visibility := decl.visibility, type := decl.type }
    | _ => none

/-- The methods that class members declare. -/
def methodsOf (members : List ClassMember) : List MethodInfo :=
  members.filterMap fun
    | .method _ decl =>
      some { name := decl.name, visibility := decl.visibility, returnType := decl.returnType }
    | _ => none

/-- Whether one of the class members is a constructor. -/
def declaresConstructor (members : List ClassMember) : Bool :=
  members.any fun
    | .constructor .. => true
    | _ => false

/-- The item of a class. -/
def classItem (decl : ClassDecl) (span : Span) : Lowered Item :=
  match decl.name with
  | none => failAt span .unnamedClass
  | some name => do
    let traits ← Traits.ofDecorators decl.decorators name
    return { name, span
             info := .classInfo
              { traits, declared := decl.declared, fields := fieldsOf decl.members
                methods := methodsOf decl.members
                hasConstructor := declaresConstructor decl.members } }

/-- The item of a function. Only a declared function can be a built-in. -/
def functionItem (decl : FunctionDecl) (span : Span) : Lowered Item :=
  match decl.name with
  | none => failAt span .unnamedFunction
  | some name => do
    let traits ← Traits.ofDecorators decl.decorators name
    return { name, span
             info := .functionInfo
              { traits, declared := decl.declared, returnType := decl.returnType
                builtin := if decl.declared then Builtin.ofString? name else none } }

/-- The item of an interface. -/
def interfaceItem (decl : InterfaceDecl) (span : Span) : Item :=
  { name := decl.name, span
    info := .interfaceInfo (decl.methods.map fun method =>
      { name := method.name, visibility := .publicMember, returnType := method.returnType }) }

/-- The item of a type alias. -/
def aliasItem (name : String) (span : Span) : Item := { name, span, info := .aliasInfo }

/-! ## Ambient modules -/

/-- The item of a declaration in the body of an ambient module. Such an interface is known by
name only. -/
def memberItem : Decl → Lowered Item
  | .classDecl span decl => classItem decl span
  | .functionDecl span decl => functionItem decl span
  | .interfaceDecl span decl => .ok { name := decl.name, span, info := .interfaceInfo [] }
  | .typeAlias span name => .ok (aliasItem name span)
  | .importDecl span _ | .moduleDecl span .. => failAt span .nestedModule

/-- Whether the item is a function that native code provides. -/
def Item.isDeclaredFunction (item : Item) : Bool :=
  match item.function? with
  | some info => info.declared
  | none => false

/-- Enters one declaration of an ambient module's body. After a declared function, further
declarations of its name are passed over. -/
def exportDecl (specifier : String) (members : List (String × Item)) (decl : Decl) :
    Lowered (List (String × Item)) := do
  let item ← memberItem decl
  match members.lookup item.name with
  | none => return (item.name, item) :: members
  | some existing =>
    if existing.isDeclaredFunction then return members
    else failAt decl.span (.duplicateMember item.name specifier)

/-- The ambient module that a declaration declares. -/
def ambientModule (span : Span) (decorators : List Decorator) (specifier : String)
    (body : List Decl) : Lowered AmbientModule := do
  let traits ← Traits.ofDecorators decorators specifier
  let members ← body.foldlM (exportDecl specifier) []
  return { specifier, span, traits, members }

/-- The specifier of an import, which has to be a string literal. -/
def ImportDecl.specifierText (decl : ImportDecl) : Lowered String :=
  match decl.specifier with
  | .literal _ (.string specifier) => .ok specifier
  | other => failAt other.span .computedSpecifier

end NativeLowering
