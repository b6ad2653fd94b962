import NativeLowering.Proofs.Receiver.Word
import NativeLowering.Proofs.Syntax.Induction

/-!
# More parentheses

`Expr.Encloses` says that an expression is another one with more parentheses, around the objects of
properties or anywhere else where they change nothing. There are two places where they would. A call
or construction goes by the outermost node of what is called or constructed, so that keeps its shape.
And the current instance in parentheses is a value like any other
(`property_paren_isAddressable_iff`), so whether it may get parentheses too is a parameter.

The type of an expression stays in any case (`Expr.Encloses.typeOf`). Whether it denotes a storage
location does so as long as the current instance is left bare (`Expr.Encloses.isAddressable`).
-/

set_option autoImplicit false

namespace NativeLowering

namespace Expr

/-- The second expression is the first with more parentheses. Spans may differ. -/
inductive Encloses (thisToo : Prop) : Expr → Expr → Prop
  | ident {span span' : Span} {name : String} :
      Encloses thisToo (.ident span name) (.ident span' name)
  | thisRef {span span' : Span} : Encloses thisToo (.thisRef span) (.thisRef span')
  | literal {span span' : Span} {value : Literal} :
      Encloses thisToo (.literal span value) (.literal span' value)
  | property {span span' : Span} {object object' : Expr} {name : String} :
      Encloses thisToo object object' →
      Encloses thisToo (.property span object name) (.property span' object' name)
  | call {span span' : Span} {callee callee' : Expr} {typeArgs : Option (List TypeNode)}
      {args args' : List Expr} :
      Encloses thisToo callee callee' → callee'.isNamed = callee.isNamed →
      List.Forall₂ (Encloses thisToo) args args' →
      Encloses thisToo (.call span callee typeArgs args) (.call span' callee' typeArgs args')
  | new {span span' : Span} {target target' : Expr} {args args' : List Expr} :
      Encloses thisToo target target' → target'.isNamed = target.isNamed →
      List.Forall₂ (Encloses thisToo) args args' →
      Encloses thisToo (.new span target args) (.new span' target' args')
  | binary {span span' : Span} {op : Vocabulary.BinaryOp} {left left' right right' : Expr} :
      Encloses thisToo left left' → Encloses thisToo right right' →
      Encloses thisToo (.binary span op left right) (.binary span' op left' right')
  | unary {span span' : Span} {op : Vocabulary.UnaryOp} {operand operand' : Expr} :
      Encloses thisToo operand operand' →
      Encloses thisToo (.unary span op operand) (.unary span' op operand')
  | paren {span span' : Span} {inner inner' : Expr} : Encloses thisToo inner inner' →
      Encloses thisToo (.paren span inner) (.paren span' inner')
  | comma {span span' : Span} {items items' : List Expr} :
      List.Forall₂ (Encloses thisToo) items items' →
      Encloses thisToo (.comma span items) (.comma span' items')
  | receiverCall {span span' : Span} {owner method : String} {args args' : List Expr} :
      List.Forall₂ (Encloses thisToo) args args' →
      Encloses thisToo (.receiverCall span owner method args) (.receiverCall span' owner method args')
  /-- New parentheses. The current instance gets them only if it may. -/
  | wrap {span : Span} {value value' : Expr} : Encloses thisToo value value' →
      (value.isThis = true → thisToo) → Encloses thisToo value (.paren span value')

namespace Encloses

variable {thisToo : Prop} {value value' : Expr}

mutual

/-- No parentheses at all may be added. -/
theorem refl : ∀ value : Expr, Encloses thisToo value value
  | .ident .. => .ident
  | .thisRef _ => .thisRef
  | .literal .. => .literal
  | .property _ object _ => .property (refl object)
  | .call _ callee _ args => .call (refl callee) rfl (reflAll args)
  | .new _ target args => .new (refl target) rfl (reflAll args)
  | .binary _ _ left right => .binary (refl left) (refl right)
  | .unary _ _ operand => .unary (refl operand)
  | .paren _ inner => .paren (refl inner)
  | .comma _ items => .comma (reflAll items)
  | .receiverCall _ _ _ args => .receiverCall (reflAll args)

theorem reflAll : ∀ items : List Expr, List.Forall₂ (Encloses thisToo) items items
  | [] => .nil
  | item :: rest => .cons (refl item) (reflAll rest)

end

theorem isThis (h : Encloses False value value') : value'.isThis = value.isThis := by
  cases h with
  | wrap _ hthis => exact (Bool.eq_false_iff.mpr hthis).symm
  | _ => rfl

/-- More parentheses leave it alone whether an expression denotes a storage location. -/
theorem isAddressable (h : Encloses False value value') :
    value'.isAddressable = value.isAddressable := by
  induction value' using Expr.ind generalizing value with
  | ident | thisRef | literal | binary | unary | comma | receiverCall | new | call => cases h; rfl
  | property span object name ih =>
    cases h with
    | property hobject => rw [Expr.isAddressable, Expr.isAddressable, hobject.isThis, ih hobject]
  | paren span inner ih =>
    rw [Expr.isAddressable]
    cases h with
    | paren hinner => rw [ih hinner, Expr.isAddressable]
    | wrap hinner => exact ih hinner

/-- What is shown of the members of a list one by one. -/
theorem forall₂ {R : Expr → Expr → Prop} {items items' : List Expr}
    (h : List.Forall₂ (Encloses thisToo) items items')
    (hR : ∀ item' ∈ items', ∀ {item}, Encloses thisToo item item' → R item item') :
    List.Forall₂ R items items' := by
  induction h with
  | nil => exact .nil
  | cons hitem _ ih =>
    exact .cons (hR _ (.head _) hitem) (ih fun item' hm => hR item' (.tail _ hm))

end Encloses

/-- Parentheses around an object leave it alone whether a property of the object denotes a storage
location, exactly if the object is not the current instance. -/
theorem property_paren_isAddressable_iff {span place : Span} {object : Expr} {name : String} :
    (Expr.property span (.paren place object) name).isAddressable
      = (Expr.property span object name).isAddressable ↔ object.isThis = false := by
  cases object with
  | thisRef => simp [isAddressable, isThis]
  | _ => simp [isAddressable, isThis]

end Expr

/-! ## Types -/

section Types

variable {model : Model} [model.Typed] {locals : Locals}

theorem typeOfLast_congr {items items' : List Expr}
    (h : List.Forall₂ (fun item item' => model.typeOf locals item' = model.typeOf locals item)
      items items') : model.typeOfLast locals items' = model.typeOfLast locals items := by
  induction h with
  | nil => rfl
  | cons hitem hrest ih =>
    cases hrest with
    | nil => rw [model.typeOfLast_single, model.typeOfLast_single, hitem]
    | cons => exact ih

/-- More parentheses leave the type of an expression alone, whatever the bindings are. -/
theorem Expr.Encloses.typeOf {thisToo : Prop} {value value' : Expr}
    (h : value.Encloses thisToo value') :
    model.typeOf locals value' = model.typeOf locals value := by
  induction value' using Expr.indCallee generalizing value with
  | ident => cases h; rw [model.typeOf_ident, model.typeOf_ident]
  | thisRef => cases h; rw [model.typeOf_thisRef, model.typeOf_thisRef]
  | literal => cases h; rw [model.typeOf_literal, model.typeOf_literal]
  | property span object name ih =>
    cases h with
    | property hobject => rw [model.typeOf_property, model.typeOf_property, ih hobject]
  | call span callee typeArgs args ihcallee ihobject ihargs =>
    cases h with
    | call hcallee hnamed hargs =>
      cases callee with
      | ident =>
        cases hcallee
        rw [model.typeOf_functionCall, model.typeOf_functionCall]
      | property place object name =>
        cases hcallee with
        | property hobject =>
          rw [model.typeOf_methodCall, model.typeOf_methodCall,
            ihobject place object name rfl hobject]
      | _ => rw [model.typeOf_call_computed _ _ rfl, model.typeOf_call_computed _ _ hnamed.symm]
  | new span target args ih =>
    cases h with
    | new htarget hnamed hargs =>
      cases target with
      | ident =>
        cases htarget
        rw [model.typeOf_new_class, model.typeOf_new_class]
      | _ =>
        rw [model.typeOf_new_computed _ _ (by simp), model.typeOf_new_computed _ _]
        rintro place name rfl
        cases htarget <;> cases hnamed
  | binary span op left right ihleft ihright =>
    cases h with
    | binary hleft hright => rw [model.typeOf_binary, model.typeOf_binary, ihleft hleft]
  | unary span op operand ih =>
    cases h with
    | unary hoperand => rw [model.typeOf_unary, model.typeOf_unary, ih hoperand]
  | paren span inner ih =>
    rw [model.typeOf_paren]
    cases h with
    | paren hinner => rw [ih hinner, model.typeOf_paren]
    | wrap hinner => exact ih hinner
  | comma span items ih =>
    cases h with
    | comma hitems =>
      rw [model.typeOf_comma, model.typeOf_comma]
      exact typeOfLast_congr (Expr.Encloses.forall₂ hitems ih)
  | receiverCall span owner method args ih =>
    cases h
    rw [model.typeOf_receiverCall, model.typeOf_receiverCall]

end Types

end NativeLowering
