import NativeLowering.Model.Basic

/-!
# Typing expressions

What names stand for decides the type that an annotation denotes (`Names.typeFromNode`) and the type
of an expression at a point of a body (`Names.typeOf`). A program is assumed to be well typed, so
both only classify: whatever they cannot place is unknown. A typed model answers with these types.
-/

set_option autoImplicit false

namespace NativeLowering

namespace Names

open Vocabulary (BuiltinType)

/-! ## Annotations -/

/-- The type of a simple name that is not the pointer constructor. -/
def namedType (names : Names) (name : String) : Ty :=
  match (names.resolveType? name).map Symbol.kind with
  | some .classKind => .classTy name
  | some .interfaceKind => .interfaceTy name
  | _ => .named name

/-- The type that an annotation denotes. A dotted name is not looked up. -/
def typeFromNode (names : Names) : TypeNode → Ty
  | .keyword _ keyword => .primitive keyword
  | .reference _ [name] [] =>
    if BuiltinType.ofString? name = some .pointer then .unknown else names.namedType name
  | .reference _ [name] (inner :: _) =>
    if BuiltinType.ofString? name = some .pointer then .pointer (names.typeFromNode inner)
    else names.namedType name
  | .reference _ name _ => .named (".".intercalate name)

/-- The type that an annotation denotes, unknown where there is none. -/
def typeFromOption (names : Names) : Option TypeNode → Ty
  | none => .unknown
  | some node => names.typeFromNode node

/-! ## Names and members -/

/-- The type of a global name used as a value. -/
def valueType (names : Names) (name : String) : Ty :=
  match names.resolve? name with
  | some (.ambient ambient) => .moduleTy ambient.specifier
  | some (.item item) =>
    match item.kind with
    | .functionKind => .function
    | _ => .unknown
  | none => .unknown

/-- The type of a class's member. -/
def classMemberType (names : Names) (info : ClassInfo) (name : String) : Ty :=
  match info.field? name with
  | some field => names.typeFromOption field.type
  | none => if (info.method? name).isSome then .function else .unknown

/-- The type of a member, by the type of its owner. Pointers are looked through. -/
def memberType (names : Names) : Ty → String → Ty
  | .classTy owner, name =>
    match names.classInfo? owner with
    | some info => names.classMemberType info name
    | none => .unknown
  | .moduleTy specifier, name =>
    if (names.exportedFunction? specifier name).isSome then .function else .unknown
  | .pointer inner, name => names.memberType inner name
  | _, _ => .unknown

/-- The type of what a function returns. -/
def resultType (names : Names) : Option FunctionInfo → Ty
  | some info => names.typeFromOption info.returnType
  | none => .unknown

/-- The type of what a method of a class returns. -/
def methodResultType (names : Names) (owner name : String) : Ty :=
  match (names.classInfo? owner).bind (·.method? name) with
  | some method => names.typeFromOption method.returnType
  | none => .unknown

/-- The type of a method call, by the type of the object. Pointers are not looked through. -/
def methodCallType (names : Names) : Ty → String → Ty
  | .classTy owner, name => names.methodResultType owner name
  | .moduleTy specifier, name => names.resultType (names.exportedFunction? specifier name)
  | _, _ => .unknown

/-! ## Expressions -/

/-- The type of a literal. -/
def literalType : Literal → Ty
  | .number _ => .primitive .number
  | .string _ => .primitive .string
  | .bool _ => .primitive .boolean
  | .null => .unknown

mutual

/-- The type of an expression at a point of a body. -/
def typeOf (names : Names) (locals : Locals) : Expr → Ty
  | .ident _ name =>
    match locals.lookup? name with
    | some type => type
    | none => names.valueType name
  | .thisRef _ =>
    match locals.thisClass with
    | some owner => .classTy owner
    | none => .unknown
  | .literal _ value => literalType value
  | .property _ object name => names.memberType (names.typeOf locals object) name
  | .call _ (.ident _ name) _ _ => names.resultType (names.function? name)
  | .call _ (.property _ object name) _ _ =>
    names.methodCallType (names.typeOf locals object) name
  | .call .. => .unknown
  | .new _ (.ident _ name) _ =>
    if (names.class? name).isSome then .classTy name else .unknown
  | .new .. => .unknown
  | .binary _ op left _ =>
    if op.isPredicate then .primitive .boolean else names.typeOf locals left
  | .unary _ op operand =>
    match op with
    | .not => .primitive .boolean
    | .neg | .plus | .bitNot => names.typeOf locals operand
  | .paren _ inner => names.typeOf locals inner
  | .comma _ items => names.typeOfLast locals items
  | .receiverCall _ owner method _ => names.methodResultType owner method

/-- The type of the last of some expressions. -/
def typeOfLast (names : Names) (locals : Locals) : List Expr → Ty
  | [] => .unknown
  | [item] => names.typeOf locals item
  | _ :: rest => names.typeOfLast locals rest

end

end Names

/-! ## Typed models -/

/-- The model types annotations and expressions by what names stand for. -/
class Model.Typed (model : Model) : Prop where
  annotation : ∀ node, model.typeFromNode node = Names.typeFromNode model node
  expression : ∀ locals value, model.typeOf locals value = Names.typeOf model locals value

/-- A model that types by what names stand for. -/
structure TypedModel extends Model where
  typed : toModel.Typed

instance : Coe TypedModel Model := ⟨TypedModel.toModel⟩

instance (model : TypedModel) : Model.Typed model := model.typed

/-- The typed model in which names stand for the same. -/
def Names.model (names : Names) : TypedModel where
  toNames := names
  typeFromNode := names.typeFromNode
  typeOf := names.typeOf
  typed := ⟨fun _ => rfl, fun _ _ => rfl⟩

end NativeLowering
