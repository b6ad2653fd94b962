import NativeLowering.Pass.Walk

/-!
# Variables for operands without an address

The address of an expression can be taken only if the expression denotes a storage location. The
pass gives every other operand a variable: the variable is declared before the statement, and in
the place of the call stands, in parentheses, the assignment of the operand to the variable
followed by the call on the variable.

The variables of a body are numbered from one.
-/

set_option autoImplicit false

namespace NativeLowering.Address

open Vocabulary (Builtin)
open Walk (ExprM)

/-- Whether a callee is the name of a built-in. -/
def isBuiltinCall (model : Model) (builtin : Builtin) : Expr → Bool
  | .ident _ name =>
    match model.function? name with
    | some info => info.builtin == some builtin
    | none => false
  | _ => false

/-- The declaration of a temporary. -/
def declaration (span : Span) (name : String) (type : TypeNode) : Stmt :=
  .vars span .letKind [{ span, name := .ident name, type := some type, init := none }]

/-- The operand assigned to a temporary, then the call on the temporary. -/
def throughTemporary (span : Span) (name : String) (operand callee : Expr)
    (typeArgs : Option (List TypeNode)) : Expr :=
  let place := operand.span
  .paren span (.comma span
    [.binary place .assign (.ident place name) operand,
     .call span callee typeArgs [.ident place name]])

/-- Gives the operand of an address call a variable if it needs one; other expressions stay. -/
def materializeCall (model : Model) (locals : Locals) : Expr → ExprM Expr
  | .call span callee typeArgs [operand] =>
    if isBuiltinCall model .addressOf callee && !operand.isAddressable then do
      match (model.typeOf locals operand).toTypeNode? operand.span with
      | none => throw (.fault operand.span .untypedTemporary)
      | some type =>
        let pending ← get
        let name := Spelling.temporary pending.next
        set ({ next := pending.next + 1
               before := pending.before ++ [declaration operand.span name type] } : Walk.Pending)
        return throughTemporary span name operand callee typeArgs
    else return .call span callee typeArgs [operand]
  | value => return value

/-- A body in which every operand of an address call denotes a storage location. -/
def run (model : Model) (locals : Locals) (body : List Stmt) : Lowered (List Stmt) :=
  Walk.body model (materializeCall model) locals body

end NativeLowering.Address
