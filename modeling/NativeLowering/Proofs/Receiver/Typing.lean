import NativeLowering.Proofs.Receiver.Injection

/-!
# Types and explicit receivers

A call with an explicit receiver has the type that the method of its class returns. Before it has
its receiver the call is typed by the type of its object, and typing looks through the pointers of
that type for a member but not for a method call (`Names.methodCallType`). So a method call through
a pointer has no type, and gets one with its receiver.

`Receiver.typeThrough` types expressions as they are typed afterwards (`Injected.typeOf`). Nothing
that has a type loses or changes it, and only what is typed by a method call through a pointer gets
one (`injecting_typeOf`).
-/

set_option autoImplicit false

namespace NativeLowering
namespace Receiver

/-! ## Looking through pointers -/

section Through

variable (model : Model) (locals : Locals)

/-- The type of a method call whose object has the type. Pointers to a class are looked through, but
not for the destructor. -/
def calledType (type : Ty) (name : String) : Ty :=
  match type, type.pointee with
  | .pointer _, .classTy owner =>
    if name = Spelling.destructor then .unknown else model.methodResultType owner name
  | type, _ => model.methodCallType type name

mutual

/-- The type of an expression, with method calls typed through pointers. -/
def typeThrough : Expr → Ty
  | .property _ object name => model.memberType (typeThrough object) name
  | .call _ (.property _ object name) _ _ => calledType model (typeThrough object) name
  | .binary _ op left _ => if op.isPredicate then .primitive .boolean else typeThrough left
  | .unary _ op operand =>
    match op with
    | .not => .primitive .boolean
    | .neg | .plus | .bitNot => typeThrough operand
  | .paren _ inner => typeThrough inner
  | .comma _ items => typeThroughLast items
  | value => model.typeOf locals value

def typeThroughLast : List Expr → Ty
  | [] => .unknown
  | [item] => typeThrough item
  | _ :: rest => typeThroughLast rest

end

mutual

/-- The expression has its type from a call of a class's method through a pointer. -/
def ThroughPointer : Expr → Prop
  | .property _ object _ => ThroughPointer object
  | .call _ (.property _ object name) _ _ => ThroughPointer object ∨
      ∃ inner owner, model.typeOf locals object = .pointer inner ∧
        Calls model (.pointer inner) name owner
  | .binary _ op left _ => op.isPredicate = false ∧ ThroughPointer left
  | .unary _ op operand => op ≠ .not ∧ ThroughPointer operand
  | .paren _ inner => ThroughPointer inner
  | .comma _ items => ThroughPointerLast items
  | _ => False

def ThroughPointerLast : List Expr → Prop
  | [] => False
  | [item] => ThroughPointer item
  | _ :: rest => ThroughPointerLast rest

end

end Through

section Types

variable {model : Model} {locals : Locals}

/-! ## After the pass -/

/-- A method call with its receiver has the type that was looked through pointers for. -/
theorem calledType_of_calls {type : Ty} {name owner : String} (h : Calls model type name owner) :
    calledType model type name = model.methodResultType owner name := by
  have hpointee := h.pointee
  cases type with
  | pointer inner => simp only [calledType, hpointee, if_neg h.regular]
  | classTy other =>
    obtain rfl : other = owner := Ty.classTy.inj hpointee
    rfl
  | _ => cases hpointee

/-- Any other method call has the type it had. -/
theorem calledType_of_not_calls {type : Ty} {name : String}
    (h : ∀ owner, ¬ Calls model type name owner) :
    calledType model type name = model.methodCallType type name := by
  unfold calledType
  split
  · rename_i type inner owner hpointee
    by_cases hname : name = Spelling.destructor
    · rw [if_pos hname]
      rfl
    · -- The class does not declare the method.
      rw [if_neg hname]
      have hnone : model.declaresMethod owner name = false := by
        cases hdeclares : model.declaresMethod owner name with
        | false => rfl
        | true => exact absurd ⟨hname, hpointee, hdeclares⟩ (h owner)
      unfold Names.declaresMethod at hnone
      simp only [Names.methodResultType, Option.not_isSome_iff_eq_none.mp (by rw [hnone]; nofun)]
      rfl
  · rfl

/-- A method call that is typed otherwise through pointers goes through one, and has no type. -/
theorem calledType_cases (type : Ty) (name : String) :
    calledType model type name = model.methodCallType type name ∨
      model.methodCallType type name = .unknown ∧
        ∃ inner owner, type = .pointer inner ∧ Calls model (.pointer inner) name owner := by
  by_cases hcalls : ∃ owner, Calls model type name owner
  · obtain ⟨owner, hcalls⟩ := hcalls
    cases type with
    | pointer inner => exact .inr ⟨rfl, inner, owner, rfl, hcalls⟩
    | _ => exact .inl rfl
  · exact .inl (calledType_of_not_calls (not_exists.mp hcalls))

variable [model.Typed]

mutual

/-- The type of an expression with its receivers. -/
theorem Injected.typeOf : ∀ {value result : Expr}, Injected model locals value result →
    model.typeOf locals result = typeThrough model locals value
  | .ident .., _, h | .thisRef _, _, h | .literal .., _, h => by
    cases h
    rfl
  | .property _ object name, _, h => by
    cases h with
    | property hobject => rw [model.typeOf_property, typeThrough, Injected.typeOf hobject]
  | .call _ (.property _ object name) _ _, _, h => by
    rw [typeThrough]
    cases h with
    | method hobject _ hcalls _ =>
      rw [← Injected.typeOf hobject, calledType_of_calls hcalls, model.typeOf_receiverCall]
    | call hcallee _ hother =>
      cases hcallee with
      | property hobject =>
        rw [model.typeOf_methodCall, ← Injected.typeOf hobject,
          calledType_of_not_calls fun owner => hother _ _ _ owner rfl]
  | .call _ (.ident _ name) _ _, _, h => by
    cases h with
    | call hcallee _ _ =>
      cases hcallee
      exact (model.typeOf_functionCall ..).trans (model.typeOf_functionCall ..).symm
  | .call _ (.thisRef _) _ _, _, h | .call _ (.literal ..) _ _, _, h | .call _ (.call ..) _ _, _, h
  | .call _ (.new ..) _ _, _, h | .call _ (.binary ..) _ _, _, h | .call _ (.unary ..) _ _, _, h
  | .call _ (.paren ..) _ _, _, h | .call _ (.comma ..) _ _, _, h
  | .call _ (.receiverCall ..) _ _, _, h => by
    -- Only the calls of names and of members are typed.
    cases h with
    | call hcallee _ _ =>
      cases hcallee <;>
        exact (model.typeOf_call_computed _ _ rfl _ _).trans
          (model.typeOf_call_computed _ _ rfl _ _).symm
  | .new _ target _, _, h => by
    cases h
    exact (model.typeOf_new ..).trans (model.typeOf_new ..).symm
  | .binary _ op left _, _, h => by
    cases h with
    | binary hleft _ => rw [model.typeOf_binary, typeThrough, Injected.typeOf hleft]
  | .unary _ op operand, _, h => by
    cases h with
    | unary hoperand =>
      rw [model.typeOf_unary, Injected.typeOf hoperand]
      cases op <;> rfl
  | .paren _ inner, _, h => by
    cases h with
    | paren hinner => rw [model.typeOf_paren, typeThrough, Injected.typeOf hinner]
  | .comma _ items, _, h => by
    cases h with
    | comma hitems => rw [model.typeOf_comma, typeThrough, Injected.typeOfLast hitems]
  | .receiverCall .., _, h => by
    cases h
    exact (model.typeOf_receiverCall ..).trans (model.typeOf_receiverCall ..).symm

theorem Injected.typeOfLast : ∀ {items results : List Expr},
    List.Forall₂ (Injected model locals) items results →
    model.typeOfLast locals results = typeThroughLast model locals items
  | [], _, h => by
    cases h
    rfl
  | [item], _, h => by
    cases h with
    | cons hitem hrest =>
      cases hrest
      rw [model.typeOfLast_single]
      exact Injected.typeOf hitem
  | _ :: second :: rest, _, h => by
    cases h with
    | cons _ hrest =>
      cases hrest with
      | cons hsecond hothers =>
        have hlast := Injected.typeOfLast (.cons hsecond hothers)
        exact hlast

end

/-! ## Before the pass -/

mutual

/-- Looking through pointers gives a type to what has none, only where a call goes through one. -/
theorem typeThrough_cases : ∀ value : Expr,
    typeThrough model locals value = model.typeOf locals value ∨
      model.typeOf locals value = .unknown ∧ ThroughPointer model locals value
  | .ident .. | .thisRef _ | .literal .. | .new .. | .receiverCall .. => .inl rfl
  | .property _ object name => by
    rw [typeThrough, model.typeOf_property, ThroughPointer]
    rcases typeThrough_cases object with hsame | ⟨hunknown, hthrough⟩
    · exact .inl (by rw [hsame])
    · rw [hunknown]
      exact .inr ⟨rfl, hthrough⟩
  | .call _ (.property _ object name) _ _ => by
    rw [typeThrough, model.typeOf_methodCall, ThroughPointer]
    rcases typeThrough_cases object with hsame | ⟨hunknown, hthrough⟩
    · rw [hsame]
      exact (calledType_cases _ name).imp_right fun ⟨hunknown, hcalls⟩ => ⟨hunknown, .inr hcalls⟩
    · rw [hunknown]
      exact .inr ⟨rfl, .inl hthrough⟩
  | .call _ (.ident ..) _ _ | .call _ (.thisRef _) _ _ | .call _ (.literal ..) _ _
  | .call _ (.call ..) _ _ | .call _ (.new ..) _ _ | .call _ (.binary ..) _ _
  | .call _ (.unary ..) _ _ | .call _ (.paren ..) _ _ | .call _ (.comma ..) _ _
  | .call _ (.receiverCall ..) _ _ => .inl rfl
  | .binary _ op left _ => by
    rw [typeThrough, model.typeOf_binary, ThroughPointer]
    cases op.isPredicate with
    | true => exact .inl rfl
    | false =>
      exact (typeThrough_cases left).imp_right fun ⟨hunknown, hthrough⟩ =>
        ⟨hunknown, rfl, hthrough⟩
  | .unary _ op operand => by
    have hoperand := typeThrough_cases operand
    rw [model.typeOf_unary]
    cases op with
    | not => exact .inl rfl
    | neg | plus | bitNot =>
      exact hoperand.imp_right fun ⟨hunknown, hthrough⟩ => ⟨hunknown, nofun, hthrough⟩
  | .paren _ inner => by
    rw [typeThrough, model.typeOf_paren, ThroughPointer]
    exact typeThrough_cases inner
  | .comma _ items => by
    rw [typeThrough, model.typeOf_comma, ThroughPointer]
    exact typeThroughLast_cases items

theorem typeThroughLast_cases : ∀ items : List Expr,
    typeThroughLast model locals items = model.typeOfLast locals items ∨
      model.typeOfLast locals items = .unknown ∧ ThroughPointerLast model locals items
  | [] => .inl rfl
  | [item] => by
    rw [model.typeOfLast_single]
    exact typeThrough_cases item
  | _ :: second :: rest => typeThroughLast_cases (second :: rest)

end

/-! ## Both -/

/-- **Explicit receivers and types.** With its receivers an expression has the type that method
calls through pointers give it. It is the type that the expression had, unless it had none and such
a call gives it one. -/
theorem injecting_typeOf {value result : Expr} {pending after : Walk.Pending}
    (h : (Walk.expr (injecting model locals) value).run pending = .ok (result, after)) :
    model.typeOf locals result = typeThrough model locals value ∧
      (model.typeOf locals result = model.typeOf locals value ∨
        model.typeOf locals value = .unknown ∧ ThroughPointer model locals value) := by
  have hvisits := @visits_expr model locals value pending
  rw [h] at hvisits
  have htype := hvisits.1.typeOf
  refine ⟨htype, ?_⟩
  rw [htype]
  exact typeThrough_cases value

end Types

/-! ## A pointer to a node -/

section Pointer

open Build

/-- The call of a method through a pointer, and a call on what it returns. -/
def secondNext : Expr := methodCall (methodCall (ident "place") "next" []) "next" []

theorem injecting_typeOf_secondNext : ∃ model result, Model.build cursor [] = .ok model ∧
    (Walk.expr (injecting model cursorLocals) secondNext).run ⟨1, []⟩ = .ok (result, ⟨1, []⟩) ∧
    model.typeOf cursorLocals result = typeThrough model cursorLocals secondNext ∧
    ThroughPointer model cursorLocals secondNext := by
  obtain ⟨model, hmodel⟩ : ∃ model, Model.build cursor [] = .ok model := ⟨_, rfl⟩
  obtain ⟨result, hresult⟩ : ∃ result,
      (Walk.expr (injecting model cursorLocals) secondNext).run ⟨1, []⟩
        = .ok (result, ⟨1, []⟩) := by
    cases hmodel
    exact ⟨_, rfl⟩
  obtain ⟨htype, hsame⟩ := injecting_typeOf hresult
  refine ⟨model, result, hmodel, hresult, htype, hsame.resolve_left ?_ |>.2⟩
  cases hmodel
  cases hresult
  decide +kernel

/-- The call has no type, and the call with its receiver has the type of a node. -/
theorem next_gains_type : ∃ model result, Model.build cursor [] = .ok model ∧
    (Walk.expr (injecting model cursorLocals) (methodCall (ident "place") "next" [])).run ⟨1, []⟩
      = .ok (result, ⟨1, []⟩) ∧
    model.typeOf cursorLocals (methodCall (ident "place") "next" []) = .unknown ∧
    model.typeOf cursorLocals result = .classTy "Node" :=
  ⟨_, _, rfl, rfl, rfl, rfl⟩

end Pointer

end Receiver

end NativeLowering
