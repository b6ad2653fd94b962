import Mathlib
import NativeLowering.Proofs.Model.Tables
import NativeLowering.Proofs.Model.Typed

/-!
# Typing and shadowed globals

A variable shadows the global of its name. Typing heeds that where a name stands for a value, but the
result of a call is the result of the global function of the callee's name, whether or not a variable
of that name is in scope. So the type of an expression is independent of shadowed globals exactly if
it is not taken from such a call (`typeOf_respects_iff`). `Expr.typedBy?` is the name of the function
that the type is taken from.
-/

set_option autoImplicit false

namespace NativeLowering

open Vocabulary (BuiltinType)

/-- The two differ in nothing but what shadowed names stand for as values. -/
structure Names.AgreeOutside (locals : Locals) (names names' : Names) : Prop where
  type : ∀ name, names'.resolveType? name = names.resolveType? name
  module : ∀ specifier, names'.module? specifier = names.module? specifier
  value : ∀ name, locals.binds name = false → names'.resolve? name = names.resolve? name

namespace Expr

mutual

/-- The name of the function from whose result the type of the expression is taken, if it is taken
from the call of a function by its name. -/
def typedBy? : Expr → Option String
  | .ident .. | .thisRef _ | .literal .. | .new .. | .receiverCall .. => none
  | .property _ object _ => object.typedBy?
  | .call _ (.ident _ name) _ _ => some name
  | .call _ (.property _ object _) _ _ => object.typedBy?
  | .call .. => none
  | .binary _ op left _ => if op.isPredicate then none else left.typedBy?
  | .unary _ op operand =>
    match op with
    | .not => none
    | .neg | .plus | .bitNot => operand.typedBy?
  | .paren _ inner => inner.typedBy?
  | .comma _ items => typedByLast? items

def typedByLast? : List Expr → Option String
  | [] => none
  | [item] => item.typedBy?
  | _ :: rest => typedByLast? rest

end

/-- The type of the expression is not taken from a function that a variable shadows. -/
def TypedOutside (locals : Locals) (value : Expr) : Prop :=
  ∀ name, value.typedBy? = some name → locals.binds name = false

end Expr

namespace Names

/-! ## What does not consult the value space -/

section Agreeing

variable {locals : Locals} {names names' : Names}

section Members

variable (h : AgreeOutside locals names names')
include h

theorem AgreeOutside.class? (name : String) : names'.class? name = names.class? name := by
  unfold Names.class?
  rw [h.type]

theorem AgreeOutside.classInfo? (name : String) :
    names'.classInfo? name = names.classInfo? name := by
  unfold Names.classInfo?
  rw [h.class?]

theorem AgreeOutside.isSharedClass (name : String) :
    names'.isSharedClass name = names.isSharedClass name := by
  unfold Names.isSharedClass
  rw [h.classInfo?]

theorem AgreeOutside.namedType (name : String) : names'.namedType name = names.namedType name := by
  unfold Names.namedType
  rw [h.type]

theorem AgreeOutside.typeFromNode :
    ∀ node : TypeNode, names'.typeFromNode node = names.typeFromNode node
  | .keyword .. => rfl
  | .reference _ [] _ => rfl
  | .reference _ [name] [] => by rw [Names.typeFromNode, Names.typeFromNode, h.namedType]
  | .reference _ [name] (inner :: _) => by
    rw [Names.typeFromNode, Names.typeFromNode, h.namedType, AgreeOutside.typeFromNode inner]
  | .reference _ (_ :: _ :: _) _ => rfl

theorem AgreeOutside.typeFromOption (node : Option TypeNode) :
    names'.typeFromOption node = names.typeFromOption node := by
  cases node with
  | none => rfl
  | some node => exact h.typeFromNode node

theorem AgreeOutside.exportedFunction? (specifier name : String) :
    names'.exportedFunction? specifier name = names.exportedFunction? specifier name := by
  unfold Names.exportedFunction?
  rw [h.module]

theorem AgreeOutside.memberType : ∀ (type : Ty) (name : String),
    names'.memberType type name = names.memberType type name
  | .classTy owner, name => by
    simp only [Names.memberType, h.classInfo?, classMemberType, h.typeFromOption]
  | .moduleTy specifier, name => by simp only [Names.memberType, h.exportedFunction?]
  | .pointer inner, name => AgreeOutside.memberType inner name
  | .interfaceTy _, _ | .named _, _ | .primitive _, _ | .function, _ | .unknown, _ => rfl

theorem AgreeOutside.resultType (info : Option FunctionInfo) :
    names'.resultType info = names.resultType info := by
  cases info with
  | none => rfl
  | some info => exact h.typeFromOption info.returnType

theorem AgreeOutside.methodResultType (owner name : String) :
    names'.methodResultType owner name = names.methodResultType owner name := by
  unfold Names.methodResultType
  simp only [h.classInfo?, h.typeFromOption]

theorem AgreeOutside.methodCallType (type : Ty) (name : String) :
    names'.methodCallType type name = names.methodCallType type name := by
  cases type with
  | classTy owner => exact h.methodResultType owner name
  | moduleTy specifier =>
    simp only [Names.methodCallType, h.exportedFunction?, h.resultType]
  | _ => rfl

end Members

/-! ## The type of an expression -/

theorem AgreeOutside.typeOf_ident (h : AgreeOutside locals names names') (span : Span)
    (name : String) :
    names'.typeOf locals (.ident span name) = names.typeOf locals (.ident span name) := by
  rw [Names.typeOf, Names.typeOf]
  cases hbound : locals.lookup? name with
  | some type => rfl
  | none =>
    have hfree : locals.binds name = false := by rw [Locals.binds, hbound]; rfl
    simp only [valueType, h.value name hfree]

mutual

/-- A type that is not taken from a shadowed function is the same in both models. -/
theorem AgreeOutside.typeOf (h : AgreeOutside locals names names') : ∀ value : Expr,
    value.TypedOutside locals → names'.typeOf locals value = names.typeOf locals value
  | .ident span name, _ => h.typeOf_ident span name
  | .thisRef _, _ => rfl
  | .literal .., _ => rfl
  | .property _ object name, hvalue => by
    rw [Names.typeOf, Names.typeOf, AgreeOutside.typeOf h object hvalue, h.memberType]
  | .call _ callee _ _, hvalue => by
    cases callee with
    | ident _ name =>
      rw [Names.typeOf, Names.typeOf, Names.function?, h.value name (hvalue name rfl),
        h.resultType, Names.function?]
    | property _ object name =>
      rw [Names.typeOf, Names.typeOf, AgreeOutside.typeOf h object hvalue, h.methodCallType]
    | _ => rfl
  | .new _ target _, _ => by
    cases target with
    | ident _ name => rw [Names.typeOf, Names.typeOf, h.class?]
    | _ => rfl
  | .binary _ op left _, hvalue => by
    rw [Names.typeOf, Names.typeOf]
    split
    · rfl
    · rename_i hop
      refine AgreeOutside.typeOf h left fun name hname => hvalue name ?_
      rw [Expr.typedBy?, if_neg hop, hname]
  | .unary _ .not _, _ => rfl
  | .unary _ .neg operand, hvalue | .unary _ .plus operand, hvalue
  | .unary _ .bitNot operand, hvalue => AgreeOutside.typeOf h operand hvalue
  | .paren _ inner, hvalue => AgreeOutside.typeOf h inner hvalue
  | .comma _ items, hvalue => AgreeOutside.typeOfLast h items hvalue
  | .receiverCall _ owner method _, _ => h.methodResultType owner method

theorem AgreeOutside.typeOfLast (h : AgreeOutside locals names names') : ∀ items : List Expr,
    (∀ name, Expr.typedByLast? items = some name → locals.binds name = false) →
    names'.typeOfLast locals items = names.typeOfLast locals items
  | [], _ => rfl
  | [item], hitems => AgreeOutside.typeOf h item hitems
  | _ :: second :: rest, hitems => AgreeOutside.typeOfLast h (second :: rest) hitems

end

end Agreeing

/-! ## Telling models apart -/

/-- Entering a shadowed name makes no difference outside. -/
theorem agreeOutside_enter {locals : Locals} {name : String} (hbound : locals.binds name = true)
    (tables : Tables) (symbol : Symbol) :
    AgreeOutside locals tables.names
      (Tables.names { tables with values := (name, symbol) :: tables.values }) where
  type _ := rfl
  module _ := rfl
  value other hother := by
    have hne : other ≠ name := by
      rintro rfl
      rw [hbound] at hother
      cases hother
    simp [Tables.names, Tables.resolve?, List.lookup_cons, beq_false_of_ne hne]

/-- A class that has fields and methods of given names, all of its own type. -/
def selfTyped (members : List String) : ClassInfo :=
  { traits := {}, declared := true
    fields := members.map fun name => ⟨name, .publicMember, some (.reference {} ["Self"] [])⟩
    methods := members.map fun name => ⟨name, .publicMember, some (.reference {} ["Self"] [])⟩
    hasConstructor := false }

/-- Names of that class only, and those of a function that returns its instances too. -/
def silent (members : List String) : Tables :=
  { types :=
      [("Self", .item { name := "Self", span := {}, info := .classInfo (selfTyped members) })] }

def telling (members : List String) (callee : String) : Tables :=
  { silent members with
    values := [(callee, .item
      { name := callee, span := {}
        info := .functionInfo
          { traits := {}, declared := true, returnType := some (.reference {} ["Self"] [])
            builtin := none } })] }

section Telling

variable {locals : Locals} {callee : String} {members : List String}

theorem find?_map_named {α : Type} {make : String → α} {label : α → String}
    (hlabel : ∀ name, label (make name) = name) {name : String} (hname : name ∈ members) :
    (members.map make).find? (fun entry => label entry == name) = some (make name) := by
  induction members with
  | nil => cases hname
  | cons first rest ih =>
    rw [List.map_cons, List.find?_cons, hlabel]
    by_cases hfirst : first = name
    · simp [hfirst]
    · rw [beq_false_of_ne hfirst]
      exact ih ((List.mem_cons.mp hname).resolve_left (Ne.symm hfirst))

theorem telling_field {name : String} (hname : name ∈ members) :
    (telling members callee).names.memberType (.classTy "Self") name = .classTy "Self" := by
  have hclass : (telling members callee).names.classInfo? "Self" = some (selfTyped members) := rfl
  have hfield : (selfTyped members).field? name = some _ := find?_map_named (fun _ => rfl) hname
  simp only [memberType, hclass, classMemberType, hfield]
  rfl

theorem telling_method {name : String} (hname : name ∈ members) :
    (telling members callee).names.methodCallType (.classTy "Self") name = .classTy "Self" := by
  have hclass : (telling members callee).names.classInfo? "Self" = some (selfTyped members) := rfl
  have hmethod : (selfTyped members).method? name = some _ := find?_map_named (fun _ => rfl) hname
  simp only [methodCallType, methodResultType, hclass, Option.bind_some, hmethod]
  rfl

theorem telling_result :
    (telling members callee).names.resultType ((telling members callee).names.function? callee)
      = .classTy "Self" := by
  have hcallee : (telling members callee).names.resolve? callee = _ := List.lookup_cons_self
  rw [function?, hcallee]
  rfl

mutual

/-- The type that is taken from the function in the one model is unknown in the other. -/
theorem typeOf_silent : ∀ value : Expr, value.typedBy? = some callee →
    (silent members).names.typeOf locals value = .unknown
  | .property _ object name, h => by
    rw [typeOf, typeOf_silent object h]
    rfl
  | .call _ target _ _, h => by
    cases target with
    | ident _ name => rfl
    | property _ object name =>
      rw [typeOf, typeOf_silent object h]
      rfl
    | _ => cases h
  | .binary _ op left _, h => by
    rw [Expr.typedBy?] at h
    obtain ⟨hop, h⟩ := Option.ite_none_left_eq_some.mp h
    rw [typeOf, if_neg hop, typeOf_silent left h]
  | .unary _ .neg operand, h | .unary _ .plus operand, h | .unary _ .bitNot operand, h =>
    typeOf_silent operand h
  | .paren _ inner, h => typeOf_silent inner h
  | .comma _ items, h => typeOfLast_silent items h

theorem typeOfLast_silent : ∀ items : List Expr, Expr.typedByLast? items = some callee →
    (silent members).names.typeOfLast locals items = .unknown
  | [item], h => typeOf_silent item h
  | _ :: second :: rest, h => typeOfLast_silent (second :: rest) h

end

mutual

/-- In a model in which enough members are declared, the function's class is the type. -/
theorem typeOf_telling : ∀ value : Expr, value.typedBy? = some callee →
    ∃ needed : List String, ∀ members, needed ⊆ members →
      (telling members callee).names.typeOf locals value = .classTy "Self"
  | .property _ object name, h => by
    obtain ⟨needed, hneeded⟩ := typeOf_telling object h
    refine ⟨name :: needed, fun members hmembers => ?_⟩
    obtain ⟨hname, hrest⟩ := List.cons_subset.mp hmembers
    rw [typeOf, hneeded members hrest, telling_field hname]
  | .call _ target _ _, h => by
    cases target with
    | ident _ name =>
      cases h
      exact ⟨[], fun members _ => telling_result⟩
    | property _ object name =>
      obtain ⟨needed, hneeded⟩ := typeOf_telling object h
      refine ⟨name :: needed, fun members hmembers => ?_⟩
      obtain ⟨hname, hrest⟩ := List.cons_subset.mp hmembers
      rw [typeOf, hneeded members hrest, telling_method hname]
    | _ => cases h
  | .binary _ op left _, h => by
    rw [Expr.typedBy?] at h
    obtain ⟨hop, h⟩ := Option.ite_none_left_eq_some.mp h
    obtain ⟨needed, hneeded⟩ := typeOf_telling left h
    refine ⟨needed, fun members hmembers => ?_⟩
    rw [typeOf, if_neg hop, hneeded members hmembers]
  | .unary _ .neg operand, h | .unary _ .plus operand, h | .unary _ .bitNot operand, h =>
    typeOf_telling operand h
  | .paren _ inner, h => typeOf_telling inner h
  | .comma _ items, h => typeOfLast_telling items h

theorem typeOfLast_telling : ∀ items : List Expr, Expr.typedByLast? items = some callee →
    ∃ needed : List String, ∀ members, needed ⊆ members →
      (telling members callee).names.typeOfLast locals items = .classTy "Self"
  | [item], h => typeOf_telling item h
  | _ :: second :: rest, h => typeOfLast_telling (second :: rest) h

end

end Telling

end Names

theorem Model.typeOf_agrees {locals : Locals} {model model' : Model} [model.Typed] [model'.Typed]
    (h : Names.AgreeOutside locals model model') {value : Expr}
    (hvalue : value.TypedOutside locals) :
    model'.typeOf locals value = model.typeOf locals value := by
  rw [model.typeOf_eq, model'.typeOf_eq]
  exact h.typeOf value hvalue

/-- The type of an expression is the same in all models that differ in shadowed names only, exactly
if it is not taken from a function of such a name. -/
theorem TypedModel.typeOf_respects_iff (locals : Locals) (value : Expr) :
    (∀ model model' : TypedModel, Names.AgreeOutside locals model model' →
      model'.typeOf locals value = model.typeOf locals value) ↔ value.TypedOutside locals := by
  constructor
  · intro h name hname
    by_contra hbound
    rw [Bool.not_eq_false] at hbound
    obtain ⟨needed, hneeded⟩ := @Names.typeOf_telling locals name value hname
    have hsame : (Names.telling needed name).names.typeOf locals value
        = (Names.silent needed).names.typeOf locals value :=
      h (Names.silent needed).names.model (Names.telling needed name).names.model
        (Names.agreeOutside_enter hbound (Names.silent needed) _)
    rw [hneeded needed (List.Subset.refl needed), Names.typeOf_silent value hname] at hsame
    cases hsame
  · intro hvalue model model' h
    exact Model.typeOf_agrees h hvalue

end NativeLowering
