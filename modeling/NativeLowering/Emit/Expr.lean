import NativeLowering.Emit.Session
import NativeLowering.Model.Typing
import NativeLowering.TypeText

/-!
# Writing expressions

An expression is written piece by piece. Each name, literal, bracket and operator is appended to the
current buffer when it is reached, and a part that cannot be written ends the step: what stands
before it has been written then, and stays.

What stands between an object and a member follows from the object's type: the members of a
module are named directly, a class in a native namespace uses `::`, a value `.`, and a shared
instance or a pointer `->`.
-/

set_option autoImplicit false

namespace NativeLowering

open Vocabulary (Builtin)

/-- What the text of a program depends on besides the program. -/
structure Context where
  model : Model
  options : Options

namespace Context

/-- What mangled names start with. -/
def mangling (cx : Context) : String := cx.options.mangling

/-- The layout of the written source. -/
def layout (cx : Context) : Layout := cx.options.layout

end Context

/-! ## Literals -/

/-- A character of a string, as it stands in a string literal. -/
def escapedChar (c : Char) : List Char :=
  match c with
  | '\\' => ['\\', '\\']
  | '"' => ['\\', '"']
  | '\n' => ['\\', 'n']
  | '\r' => ['\\', 'r']
  | '\t' => ['\\', 't']
  | c => [c]

/-- The string literal of a string. -/
def stringLiteral (value : String) : String :=
  String.ofList ('"' :: value.toList.flatMap escapedChar ++ ['"'])

/-- A literal value. -/
def Literal.text : Literal → String
  | .number spelling => spelling
  | .string value => stringLiteral value
  | .bool true => "true"
  | .bool false => "false"
  | .null => "nullptr"

/-! ## Names and members -/

/-- The current instance exists only in class members. -/
def requireThis (locals : Locals) (span : Span) : Lowered Unit :=
  match locals.thisClass with
  | some _ => .ok ()
  | none => failAt span .thisOutsideMember

/-- The written name of what a name stands for as a value. -/
def valueName (cx : Context) (locals : Locals) (name : String) (span : Span) : Lowered String :=
  if locals.binds name then .ok name
  else
    match cx.model.resolve? name with
    | none => failAt span (.unresolvedName name)
    | some symbol =>
      match symbol.kind with
      | .functionKind | .classKind => .ok (symbol.writtenName cx.mangling)
      | kind => failAt span (.notValue name kind)

/-- What stands between an object of a type and its member. -/
def separator (cx : Context) (owner : Ty) (member : String) (span : Span) : Lowered String :=
  match owner with
  | .classTy name =>
    match cx.model.classInfo? name with
    | none => failAt span (.classNotInTable name)
    | some info =>
      if info.traits.nativeSpace.isSome then .ok "::"
      else .ok info.traits.ownership.memberAccess
  | .pointer _ => .ok "->"
  | .named _ | .primitive _ => .ok "."
  | .interfaceTy name => failAt span (.interfaceAccess member name)
  | .moduleTy _ | .function | .unknown => failAt span (.unknownOwner member)

/-- The written name of a member of a module. -/
def moduleMember (cx : Context) (specifier member : String) (span : Span) : Lowered String :=
  match cx.model.module? specifier with
  | none => failAt span (.moduleNotDeclared specifier)
  | some ambient =>
    match ambient.member? member with
    | none => failAt span (.missingModuleMember specifier member)
    | some item =>
      .ok (Naming.qualifiedIn ambient.traits.nativeSpace (item.writtenName cx.mangling))

/-- Whether an expression is a handle of a shared instance. -/
def isSharedHandle (cx : Context) (locals : Locals) (value : Expr) : Bool :=
  match cx.model.typeOf locals value with
  | .classTy name => cx.model.isSharedClass name
  | _ => false

namespace Emit

/-! ## Pieces -/

/-- The spelling of a type annotation, from a scope of its own. -/
def typeString (cx : Context) (node : TypeNode) : Emit String :=
  fragment do
    let text ← typeText cx.model cx.mangling node
    append text .inline

/-- Fails unless there is a current instance. -/
def requireInstance (span : Span) : Emit Unit := do
  let locals ← theLocals span
  requireThis locals span

/-- Writes a name used as a value. -/
def ident (cx : Context) (name : String) (span : Span) : Emit Unit := do
  let locals ← currentLocals
  let text ← valueName cx locals name span
  append text .inline

/-- Writes a step in parentheses. -/
def parenthesized (step : Emit Unit) : Emit Unit := do
  append "(" .inline
  step
  append ")" .inline

/-! ## Members

The parts of an expression are written by steps that are handed in. -/

/-- Writes a member of the current instance. -/
def instanceMember (member : String) (span : Span) : Emit Unit := do
  requireInstance span
  append ("this->" ++ member) .inline

/-- Writes a member of an object of a type. -/
def member (cx : Context) (object : Expr) (owner : Ty) (member : String) (span : Span)
    (writeObject : Emit Unit) : Emit Unit :=
  if object.isThis then instanceMember member span
  else do
    let between ← separator cx owner member span
    writeObject
    append (between ++ member) .inline

/-- Writes a property of an object. -/
def property (cx : Context) (object : Expr) (name : String) (span : Span)
    (writeObject : Emit Unit) : Emit Unit :=
  if object.isThis then instanceMember name span
  else do
    let locals ← currentLocals
    match cx.model.typeOf locals object with
    | .moduleTy specifier =>
      let text ← moduleMember cx specifier name span
      append text .inline
    | owner => member cx object owner name span writeObject

/-! ## Calls -/

/-- Fails outside a function, where there is nothing to call from. -/
def requireFunction (span : Span) : Emit Unit := do
  let isOpen ← inFunction
  if isOpen then return ()
  else throw (.fault span .callOutsideFunction)

/-- Writes the address of a storage location. -/
def addressOf (span : Span) (args : List Expr) (writeArgs : Emit Unit) : Emit Unit :=
  match args with
  | [operand] =>
    if operand.isAddressable then do
      append "&" .inline
      writeArgs
    else throw (.fault operand.span .addressOfValue)
  | args => throw (.fault span (.builtinArity .addressOf args.length))

/-- Writes the size of a type or of a value. -/
def sizeOf (cx : Context) (span : Span) (typeArgs : List TypeNode) (args : List Expr)
    (writeArgs : Emit Unit) : Emit Unit :=
  match typeArgs, args with
  | [node], [] => do
    let text ← typeText cx.model cx.mangling node
    append ("sizeof(" ++ text ++ ")") .inline
  | [], [value] =>
    if value.isAddressable then do
      append "sizeof " .inline
      writeArgs
    else do
      append "sizeof(" .inline
      writeArgs
      append ")" .inline
  | _, _ => throw (.fault span .sizeofArity)

/-- Writes a conversion to a number of fixed width. -/
def conversion (span : Span) (builtin : Builtin) (args : List Expr) (writeArgs : Emit Unit) :
    Emit Unit :=
  match args with
  | [_] => do
    append (builtin.spelling ++ "(") .inline
    writeArgs
    append ")" .inline
  | args => throw (.fault span (.builtinArity builtin args.length))

/-- Writes a call of a function by its written name. Type arguments cannot be passed on. -/
def plainCall (cx : Context) (name : String) (symbol : Symbol) (span : Span)
    (typeArgs : List TypeNode) (writeArgs : Emit Unit) : Emit Unit :=
  match typeArgs with
  | _ :: _ => throw (.fault span (.explicitTypeArgs name))
  | [] => do
    append (symbol.writtenName cx.mangling) .inline
    parenthesized writeArgs

/-- Writes a call of a global function. -/
def functionCall (cx : Context) (name : String) (span : Span)
    (typeArgs : Option (List TypeNode)) (args : List Expr) (writeArgs : Emit Unit) : Emit Unit :=
  match cx.model.resolve? name with
  | none => throw (.fault span (.unresolvedFunction name))
  | some symbol =>
    match symbol.function? with
    | none => throw (.fault span (.notFunction name symbol.kind))
    | some info =>
      match info.builtin with
      | some .addressOf => addressOf span args writeArgs
      | some .sizeOf => sizeOf cx span (typeArgs.getD []) args writeArgs
      | none | some .allocate => plainCall cx name symbol span (typeArgs.getD []) writeArgs
      | some builtin => conversion span builtin args writeArgs

/-- Writes a call of a method or of a module's function. -/
def methodCall (cx : Context) (object : Expr) (name : String) (span : Span)
    (writeObject writeArgs : Emit Unit) : Emit Unit := do
  let locals ← currentLocals
  let owner := cx.model.typeOf locals object
  let ordinary : Emit Unit := do
    property cx object name span writeObject
    parenthesized writeArgs
  match owner with
  | .classTy ownerName =>
    match cx.model.class? ownerName with
    | none => throw (.fault span (.classNotInTable ownerName))
    | some (item, info) =>
      if name = Spelling.destructor ∧ info.hasDestructor then do
        let destructor := Naming.destructor (item.writtenName cx.mangling)
        member cx object owner destructor span writeObject
        append "()" .inline
      else if (info.method? name).isNone && (info.field? name).isNone then
        throw (.fault span (.missingClassMember ownerName name))
      else ordinary
  | .moduleTy specifier =>
    if (cx.model.exportedFunction? specifier name).isSome then ordinary
    else throw (.fault span (.notExportedFunction name specifier))
  | .interfaceTy interfaceName => throw (.fault span (.interfaceCall name interfaceName))
  | _ => ordinary

/-- Writes a construction. -/
def construction (cx : Context) (target : Expr) (span : Span) (writeArgs : Emit Unit) :
    Emit Unit :=
  match target with
  | .ident _ name =>
    match cx.model.class? name with
    | none => throw (.fault span (.notClass name))
    | some (item, info) => do
      append (info.traits.ownership.constructorCallee (item.writtenName cx.mangling)) .inline
      parenthesized writeArgs
  | _ => throw (.fault span .computedClass)

/-- Writes the name of the function that a receiver call is for. -/
def receiverCallee (cx : Context) (owner method : String) (span : Span) : Emit Unit :=
  match cx.model.class? owner with
  | none => throw (.fault span (.classNotInTable owner))
  | some (item, _) =>
    append (Naming.receiverFunction (item.writtenName cx.mangling) method) .inline

/-- Takes the raw pointer from a receiver that is a handle of a shared instance. -/
def rawPointer (cx : Context) (receiver : Expr) : Emit Unit := do
  let locals ← currentLocals
  if isSharedHandle cx locals receiver then append ".get()" .inline else return ()

/-! ## Expressions -/

mutual

/-- Writes an expression. -/
def expr (cx : Context) : Expr → Emit Unit
  | .ident span name => ident cx name span
  | .thisRef span => do
    requireInstance span
    append "this" .inline
  | .literal _ value => append value.text .inline
  | .property span object name => property cx object name span (expr cx object)
  | .call span (.ident place name) typeArgs args => do
    requireFunction span
    let locals ← currentLocals
    if locals.binds name then
      ident cx name place
      parenthesized (exprs cx args)
    else functionCall cx name span typeArgs args (exprs cx args)
  | .call span (.property _ object name) _ args => do
    requireFunction span
    methodCall cx object name span (expr cx object) (exprs cx args)
  | .call span callee _ args => do
    requireFunction span
    expr cx callee
    parenthesized (exprs cx args)
  | .new span target args => construction cx target span (exprs cx args)
  | .binary _ op left right => do
    expr cx left
    append (" " ++ op.spelling ++ " ") .inline
    expr cx right
  | .unary _ op operand => do
    append op.spelling .inline
    expr cx operand
  | .paren _ inner => parenthesized (expr cx inner)
  | .comma _ items => exprs cx items
  | .receiverCall span owner method [] => do
    receiverCallee cx owner method span
    throw (.fault span (.missingReceiver method))
  | .receiverCall span owner method (receiver :: rest) => do
    receiverCallee cx owner method span
    append "(" .inline
    expr cx receiver
    rawPointer cx receiver
    furtherExprs cx rest
    append ")" .inline

/-- Writes expressions with commas between them. -/
def exprs (cx : Context) : List Expr → Emit Unit
  | [] => pure ()
  | first :: rest => do
    expr cx first
    furtherExprs cx rest

/-- Writes expressions with a comma before each. -/
def furtherExprs (cx : Context) : List Expr → Emit Unit
  | [] => pure ()
  | item :: rest => do
    append ", " .inline
    expr cx item
    furtherExprs cx rest

end

end Emit

end NativeLowering
