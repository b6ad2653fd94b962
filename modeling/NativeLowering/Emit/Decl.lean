import NativeLowering.Emit.Stmt
import NativeLowering.Model.Items
import NativeLowering.Pass.Run

/-!
# Writing declarations

What is only declared is not written. Functions, methods, constructors and destructors are all
written alike (`functionLike`): the record is opened, the parameters are entered, the selected
passes run over the body, the body is written, and the record is closed.

If receivers are made explicit, each class is followed by one free function per method, which
takes the receiver as its first parameter. These are the functions that receiver calls target.
-/

set_option autoImplicit false

namespace NativeLowering.Emit

open Vocabulary (Builtin BuiltinType)

/-! ## Imports -/

/-- The lines that bring the named imports of a module in a native namespace into scope. -/
def usingLines (cx : Context) (specifier : String) : Option ImportClause → List String
  | some (.named items) =>
    match cx.model.module? specifier with
    | none => []
    | some ambient =>
      match ambient.traits.nativeSpace with
      | none => []
      | some space =>
        items.map fun item =>
          let name := match ambient.member? item.name with
            | some member => member.writtenName cx.mangling
            | none => item.name
          "using " ++ Naming.qualified space name ++ ";"
  | _ => []

/-- Appends lines in order. -/
def appendLines : List String → Emit Unit
  | [] => pure ()
  | line :: rest => do
    append line .line
    appendLines rest

/-- Writes an import. -/
def importDecl (cx : Context) (decl : ImportDecl) : Emit Unit := do
  let specifier ← decl.specifierText
  append ("#include <" ++ specifier ++ ">") .line
  appendLines (usingLines cx specifier decl.clause)

/-! ## Functions -/

/-- What functions, methods, constructors and destructors differ in. -/
structure FunctionShape where
  returnType : Option String
  qualifier : Option String
  name : String
  params : List Param
  body : List Stmt
  thisClass : Option String
  visibility : Option Visibility

/-- The name of a parameter, which has to be an identifier. -/
def paramName (param : Param) : Lowered String :=
  if param.rest then failAt param.span .restParam
  else
    match param.name.ident? with
    | some name => .ok name
    | none => failAt param.span .patternParam

/-- The annotation of a parameter, which has to be there. -/
def paramType (param : Param) (name : String) : Lowered TypeNode :=
  match param.type with
  | some node => .ok node
  | none => failAt param.span (.untypedParam name)

/-- The text of a default value, from a scope of its own. -/
def defaultString (cx : Context) : Option Expr → Emit (Option String)
  | none => return none
  | some value => do
    let text ← fragment (expr cx value)
    return some text

/-- Enters a parameter into the open function. -/
def param (cx : Context) (param : Param) : Emit Unit := do
  let name ← paramName param
  let node ← paramType param name
  let type ← typeString cx node
  let default ← defaultString cx param.default
  onLocals param.span fun locals => locals.declare name (cx.model.typeFromNode node)
  onRecord param.span fun record =>
    { record with params := record.params ++ [{ type, name, default }] }

/-- Enters parameters in order. -/
def params (cx : Context) : List Param → Emit Unit
  | [] => pure ()
  | first :: rest => do
    param cx first
    params cx rest

/-- Runs the selected passes over a body and writes it into the open function. -/
def functionBody (cx : Context) (body : List Stmt) (span : Span) : Emit Unit := do
  let locals ← theLocals span
  let body ← cx.options.passes.run cx.model cx.options.destructorPolicy locals body
  let (_, buffer) ← inScope (.atDepth cx.layout 1) (stmts cx body)
  onRecord span fun record => { record with body := buffer }

/-- Writes a function, method, constructor or destructor. -/
def functionLike (cx : Context) (shape : FunctionShape) (span : Span) : Emit Unit := do
  let record := FunctionRecord.new cx.layout shape.returnType shape.qualifier shape.name
  beginFunction record (.start shape.thisClass) shape.visibility span
  params cx shape.params
  functionBody cx shape.body span
  endFunction span

/-- The written name of a function that the model has to know. -/
def functionName (cx : Context) (declared : String) (span : Span) : Lowered String :=
  match cx.model.resolve? declared with
  | some symbol =>
    match symbol.kind with
    | .functionKind => .ok (symbol.writtenName cx.mangling)
    | _ => failAt span (.functionNotInTable declared)
  | none => failAt span (.functionNotInTable declared)

/-- The parts of a function that has to be complete: name, annotation of the result and body. -/
def functionParts (decl : FunctionDecl) (span : Span) :
    Lowered (String × TypeNode × List Stmt) :=
  match decl.name with
  | none => failAt span .unnamedFunction
  | some name =>
    match decl.typeParams with
    | _ :: _ => failAt span (.genericFunction name)
    | [] =>
      match decl.returnType, decl.body with
      | none, _ => failAt span (.functionWithoutReturnType name)
      | some _, none => failAt span (.functionWithoutBody name)
      | some node, some body => .ok (name, node, body)

/-- Writes a free function. -/
def functionDecl (cx : Context) (decl : FunctionDecl) (span : Span) : Emit Unit := do
  let (declared, node, body) ← functionParts decl span
  let name ← functionName cx declared span
  let returnType ← typeString cx node
  functionLike cx
    { returnType := some returnType, qualifier := none, name, params := decl.params, body
      thisClass := none, visibility := none }
    span

/-! ## Class members -/

/-- The names of the class that members are written for. -/
structure ClassNames where
  declared : String
  written : String

/-- The annotation of a method's result and the name it is written under. A destructor has no
result and takes no parameters. -/
def methodHead (cx : Context) (names : ClassNames) (decl : MethodDecl) (span : Span) :
    Emit (Option String × String) :=
  if decl.name = Spelling.destructor then
    match decl.params with
    | _ :: _ => throw (.fault span .destructorWithParams)
    | [] => return (none, Naming.destructor names.written)
  else
    match decl.returnType with
    | none => throw (.fault span (.methodWithoutReturnType decl.name))
    | some node => do
      let type ← typeString cx node
      return (some type, decl.name)

/-- Writes a method or a destructor. -/
def methodDecl (cx : Context) (names : ClassNames) (decl : MethodDecl) (span : Span) :
    Emit Unit :=
  match decl.body with
  | none => throw (.fault span (.methodWithoutBody decl.name))
  | some body => do
    let (returnType, name) ← methodHead cx names decl span
    functionLike cx
      { returnType, qualifier := some (Naming.memberQualifier names.written), name
        params := decl.params, body, thisClass := some names.declared
        visibility := some decl.visibility }
      span

/-- Fails unless the built-ins that constructors rely on are declared. -/
def requireAllocation (cx : Context) (owner : String) (span : Span) : Lowered Unit :=
  if (cx.model.builtin? .allocate).isNone then failAt span (.constructorNeeds owner .allocate)
  else if (cx.model.builtin? .sizeOf).isNone then failAt span (.constructorNeeds owner .sizeOf)
  else .ok ()

/-- Writes a constructor. -/
def constructorDecl (cx : Context) (names : ClassNames) (decl : ConstructorDecl) (span : Span) :
    Emit Unit := do
  requireAllocation cx names.declared span
  match decl.body with
  | none => throw (.fault span (.constructorWithoutBody names.declared))
  | some body =>
    functionLike cx
      { returnType := none, qualifier := some (Naming.memberQualifier names.written)
        name := names.written, params := decl.params, body
        thisClass := some names.declared, visibility := some decl.visibility }
      span

/-- Writes a field. -/
def propertyDecl (cx : Context) (decl : PropertyDecl) (span : Span) : Emit Unit :=
  match decl.type with
  | none => throw (.fault span (.untypedProperty decl.name))
  | some node => do
    let type ← typeString cx node
    addField { visibility := decl.visibility, type, name := decl.name } span

/-- Writes a class member. -/
def classMember (cx : Context) (names : ClassNames) : ClassMember → Emit Unit
  | .property span decl => propertyDecl cx decl span
  | .method span decl => methodDecl cx names decl span
  | .constructor span decl => constructorDecl cx names decl span

/-- Writes class members in order. -/
def classMembers (cx : Context) (names : ClassNames) : List ClassMember → Emit Unit
  | [] => pure ()
  | member :: rest => do
    classMember cx names member
    classMembers cx names rest

/-! ## Receiver functions -/

/-- The parameter that passes the receiver: a raw pointer to the class. -/
def receiverParam (owner : String) (span : Span) : Param :=
  { span, name := .ident Spelling.receiver
    type := some (.reference span [BuiltinType.pointer.spelling] [.reference span [owner] []])
    default := none, rest := false }

/-- Writes the receiver function of a method. -/
def receiverFunction (cx : Context) (names : ClassNames) (decl : MethodDecl) (span : Span) :
    Emit Unit :=
  match decl.returnType, decl.body with
  | some node, some body => do
    let returnType ← typeString cx node
    let body ← Receiver.bindReceiver cx.model (.start none) body
    functionLike cx
      { returnType := some returnType, qualifier := none
        name := Naming.receiverFunction names.written decl.name
        params := receiverParam names.declared span :: decl.params, body
        thisClass := none, visibility := none }
      span
  | _, _ => throw (.fault span (.incompleteMethod decl.name))

/-- Writes the receiver functions of the methods among class members. Destructors have none. -/
def receiverFunctions (cx : Context) (names : ClassNames) : List ClassMember → Emit Unit
  | [] => pure ()
  | .method span decl :: rest => do
    if decl.name = Spelling.destructor then pure ()
    else receiverFunction cx names decl span
    receiverFunctions cx names rest
  | _ :: rest => receiverFunctions cx names rest

/-! ## Classes and programs -/

/-- Writes a class. -/
def classDecl (cx : Context) (decl : ClassDecl) (span : Span) : Emit Unit :=
  match decl.name with
  | none => throw (.fault span .unnamedClass)
  | some declared =>
    match cx.model.class? declared with
    | none => throw (.fault span (.classNotInTable declared))
    | some (item, info) => do
      let written := info.traits.writtenName cx.mangling item.name
      let names : ClassNames := { declared, written }
      beginClass { name := written, ownership := info.traits.ownership } span
      classMembers cx names decl.members
      endClass span
      if cx.options.passes.contains .receiver then receiverFunctions cx names decl.members
      else pure ()

/-- Writes a declaration. -/
def decl (cx : Context) : Decl → Emit Unit
  | .importDecl _ decl => importDecl cx decl
  | .classDecl span decl => if decl.declared then pure () else classDecl cx decl span
  | .functionDecl span decl => if decl.declared then pure () else functionDecl cx decl span
  | .moduleDecl span _ declared name _ =>
    if declared then pure () else throw (.fault span (.moduleWithBody name))
  | .interfaceDecl .. | .typeAlias .. => pure ()

/-- Writes declarations in order. -/
def decls (cx : Context) : List Decl → Emit Unit
  | [] => pure ()
  | first :: rest => do
    decl cx first
    decls cx rest

/-- Writes a program. -/
def program (cx : Context) (program : Program) : Emit Unit := decls cx program.decls

end NativeLowering.Emit
