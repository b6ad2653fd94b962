import NativeLowering.Pass.Walk

/-!
# Explicit receivers

The pass turns a method call on an instance of a class into a plain call that gets the
receiver as its first argument:

* the current instance and raw pointers are passed as they are;
* a shared instance is passed by its handle, from which the raw pointer is taken when the call
  is written;
* a value is passed by its address.

Destructor calls and calls of module members stay. The functions that the new calls target have
the bodies of the methods, with the current instance replaced by the receiver parameter
(`bindReceiver`).
-/

set_option autoImplicit false

namespace NativeLowering.Receiver

open Vocabulary (Builtin)

/-- The class that declares a method, if the receiver is an instance of one or points to one. A
method that only an interface declares has no function to call. -/
def owningClass (model : Model) (method : String) (span : Span) : Ty → Lowered (Option String)
  | .classTy name =>
    match (model.classInfo? name).bind (·.method? method) with
    | some _ => .ok (some name)
    | none => .ok none
  | .pointer inner => owningClass model method span inner
  | .interfaceTy name =>
    match ((model.resolveType? name).bind Symbol.item?).map Item.info with
    | some (.interfaceInfo methods) =>
      if (findMethod? methods method).isSome then failAt span (.interfaceReceiver name method)
      else .ok none
    | _ => .ok none
  | _ => .ok none

/-- The identifier of a built-in, which has to be declared. -/
def builtinCallee (model : Model) (builtin : Builtin) (span : Span) : Lowered Expr :=
  match model.builtin? builtin with
  | some symbol => .ok (.ident span symbol.name)
  | none => failAt span (.undeclaredBuiltin builtin)

/-- The call that takes the address of an object. -/
def addressOf (model : Model) (object : Expr) : Lowered Expr := do
  let callee ← builtinCallee model .addressOf object.span
  return .call object.span callee none [object]

/-- The argument that passes an object of a type as the receiver of a class's method. -/
def argument (model : Model) (owner : String) (object : Expr) (type : Ty) : Lowered Expr :=
  match object, type with
  | .thisRef _, _ | _, .pointer _ => .ok object
  | _, .classTy _ =>
    if model.isSharedClass owner then .ok object else addressOf model object
  | _, _ => addressOf model object

/-- Turns a method call into a receiver call; other expressions stay. -/
def injectCall (model : Model) (locals : Locals) : Expr → Lowered Expr
  | .call span (.property place object name) typeArgs args =>
    if name = Spelling.destructor then
      .ok (.call span (.property place object name) typeArgs args)
    else do
      let type := model.typeOf locals object
      match ← owningClass model name span type with
      | none => return .call span (.property place object name) typeArgs args
      | some owner =>
        let receiver ← argument model owner object type
        return .receiverCall span owner name (receiver :: args)
  | value => .ok value

/-- A body with explicit receivers. -/
def run (model : Model) (locals : Locals) (body : List Stmt) : Lowered (List Stmt) :=
  Walk.body model (fun locals value => (injectCall model locals value : Lowered Expr)) locals body

/-- Puts the receiver parameter in place of the current instance; other expressions stay. -/
def bindThis : Expr → Expr
  | .thisRef span => .ident span Spelling.receiver
  | value => value

/-- The body of a receiver function, from the body of its method. -/
def bindReceiver (model : Model) (locals : Locals) (body : List Stmt) : Lowered (List Stmt) :=
  Walk.body model (fun _ value => pure (bindThis value)) locals body

end NativeLowering.Receiver
