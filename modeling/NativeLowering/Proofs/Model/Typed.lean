import NativeLowering.Model.Typing

/-!
# Types, form by form

A typed model types an expression by the types of its parts. Here is one equation for each form of
an expression, in terms of the answers of the model.
-/

set_option autoImplicit false

namespace NativeLowering

/-- Whether the callee of a call is a name or a member. -/
def Expr.isNamed : Expr → Bool
  | .ident .. | .property .. => true
  | _ => false

/-! ## Names -/

namespace Names

variable {names : Names}

theorem classInfo?_eq {name : String} {item : Item}
    (h : names.resolveType? name = some (.item item)) : names.classInfo? name = item.class? := by
  unfold classInfo? class?
  simp only [h, Symbol.item?, Option.bind_eq_bind, Option.bind_some]
  cases item.class? <;> rfl

theorem namedType_class {name : String} {item : Item} {info : ClassInfo}
    (hitem : names.resolveType? name = some (.item item)) (hinfo : item.class? = some info) :
    names.namedType name = .classTy name := by
  have hkind : item.kind = .classKind := by
    unfold Item.class? at hinfo
    unfold Item.kind
    split at hinfo
    · rename_i found heq
      rw [heq]
    · cases hinfo
  simp [namedType, hitem, Symbol.kind, hkind]

theorem namedType_other {name : String}
    (h : ∀ symbol, names.resolveType? name = some symbol → symbol.kind = .aliasKind) :
    names.namedType name = .named name := by
  unfold namedType
  cases hsymbol : names.resolveType? name with
  | none => rfl
  | some symbol => simp [h symbol hsymbol]

end Names

/-! ## Types -/

namespace Model

open Vocabulary (BinaryOp BuiltinType UnaryOp)

-- How each form is typed can be read off the definitions.
attribute [local simp] Names.typeFromNode Names.typeOf Names.typeOfLast

variable (model : Model)

theorem typeOfLast_cons (locals : Locals) (first second : Expr) (rest : List Expr) :
    model.typeOfLast locals (first :: second :: rest)
      = model.typeOfLast locals (second :: rest) := rfl

variable [model.Typed]

theorem typeFromNode_eq (node : TypeNode) :
    model.typeFromNode node = Names.typeFromNode model node := Typed.annotation node

theorem typeOf_eq (locals : Locals) (value : Expr) :
    model.typeOf locals value = Names.typeOf model locals value := Typed.expression locals value

theorem typeFromNode_keyword (place : Span) (keyword : Keyword) :
    model.typeFromNode (.keyword place keyword) = .primitive keyword := by
  simp [model.typeFromNode_eq]

theorem typeFromNode_simple {name : String} (h : BuiltinType.ofString? name ≠ some .pointer)
    (place : Span) (args : List TypeNode) :
    model.typeFromNode (.reference place [name] args) = model.namedType name := by
  cases args <;> simp [model.typeFromNode_eq, h]

theorem typeFromNode_pointer {name : String} (h : BuiltinType.ofString? name = some .pointer)
    (place : Span) (inner : TypeNode) (rest : List TypeNode) :
    model.typeFromNode (.reference place [name] (inner :: rest))
      = .pointer (model.typeFromNode inner) := by
  simp [model.typeFromNode_eq, h]

/-- A qualified name is not looked up. -/
theorem typeFromNode_qualified (place : Span) (qualifier name : String) (args : List TypeNode) :
    model.typeFromNode (.reference place [qualifier, name] args)
      = .named (".".intercalate [qualifier, name]) := by
  rw [model.typeFromNode_eq]
  rfl

variable (locals : Locals) (span : Span)

theorem typeOf_ident (name : String) :
    model.typeOf locals (.ident span name)
      = (locals.lookup? name).getD (model.valueType name) := by
  rw [model.typeOf_eq, Names.typeOf]
  cases locals.lookup? name <;> rfl

theorem typeOf_thisRef :
    model.typeOf locals (.thisRef span) = locals.thisClass.elim .unknown .classTy := by
  rw [model.typeOf_eq, Names.typeOf]
  cases locals.thisClass <;> rfl

theorem typeOf_literal (value : Literal) :
    model.typeOf locals (.literal span value) = Names.literalType value := by
  simp [model.typeOf_eq]

theorem typeOf_property (object : Expr) (name : String) :
    model.typeOf locals (.property span object name)
      = model.memberType (model.typeOf locals object) name := by
  simp [model.typeOf_eq]

/-- The type of a call is decided by the callee. -/
theorem typeOf_call (callee : Expr) (typeArgs : Option (List TypeNode)) (args : List Expr) :
    model.typeOf locals (.call span callee typeArgs args)
      = model.typeOf locals (.call {} callee none []) := by
  cases callee <;> simp [model.typeOf_eq]

/-- The result of what is neither a name nor a member is not known. -/
theorem typeOf_call_computed {callee : Expr} (h : callee.isNamed = false)
    (typeArgs : Option (List TypeNode)) (args : List Expr) :
    model.typeOf locals (.call span callee typeArgs args) = .unknown := by
  cases callee with
  | ident | property => cases h
  | _ => simp [model.typeOf_eq]

theorem typeOf_functionCall (place : Span) (name : String) (typeArgs : Option (List TypeNode))
    (args : List Expr) :
    model.typeOf locals (.call span (.ident place name) typeArgs args)
      = model.resultType (model.function? name) := by
  simp [model.typeOf_eq]

theorem typeOf_methodCall (place : Span) (object : Expr) (name : String)
    (typeArgs : Option (List TypeNode)) (args : List Expr) :
    model.typeOf locals (.call span (.property place object name) typeArgs args)
      = model.methodCallType (model.typeOf locals object) name := by
  simp [model.typeOf_eq]

/-- The type of a construction is decided by what is constructed, wherever it stands. -/
theorem typeOf_new (target : Expr) (args : List Expr) :
    model.typeOf locals (.new span target args)
      = model.typeOf (.start none) (.new {} target []) := by
  cases target <;> simp [model.typeOf_eq]

theorem typeOf_new_class (place : Span) (name : String) (args : List Expr) :
    model.typeOf locals (.new span (.ident place name) args)
      = if (model.class? name).isSome then .classTy name else .unknown := by
  simp [model.typeOf_eq]

theorem typeOf_new_computed {target : Expr} (h : ∀ place name, target ≠ .ident place name)
    (args : List Expr) : model.typeOf locals (.new span target args) = .unknown := by
  cases target with
  | ident place name => exact absurd rfl (h place name)
  | _ => simp [model.typeOf_eq]

theorem typeOf_binary (op : BinaryOp) (left right : Expr) :
    model.typeOf locals (.binary span op left right)
      = if op.isPredicate then .primitive .boolean else model.typeOf locals left := by
  simp [model.typeOf_eq]

theorem typeOf_unary (op : UnaryOp) (operand : Expr) :
    model.typeOf locals (.unary span op operand)
      = if op = .not then .primitive .boolean else model.typeOf locals operand := by
  cases op <;> simp [model.typeOf_eq]

theorem typeOf_paren (inner : Expr) :
    model.typeOf locals (.paren span inner) = model.typeOf locals inner := by
  simp [model.typeOf_eq]

theorem typeOf_comma (items : List Expr) :
    model.typeOf locals (.comma span items) = model.typeOfLast locals items := by
  simp [model.typeOf_eq]

theorem typeOfLast_single (item : Expr) :
    model.typeOfLast locals [item] = model.typeOf locals item := by
  simp [model.typeOf_eq]

theorem typeOf_receiverCall (owner method : String) (args : List Expr) :
    model.typeOf locals (.receiverCall span owner method args)
      = model.methodResultType owner method := by
  simp [model.typeOf_eq]

end Model

end NativeLowering
