import NativeLowering.Proofs.Emit.MemberAccess
import NativeLowering.Proofs.Parens.Passes
import NativeLowering.Syntax.Build

/-!
# What parentheses around an object change

Around an object that is not the current instance parentheses change nothing (`Transparent`). Around
the current instance they do, since `this` is told by its node alone. The property denotes no storage
location any more, a method gets the address of the object in place of the object
(`injectCall_parenThis_iff`), and the member is reached as one of any other object of the class
(`exprText_parenThis_iff`). The type is the one thing that stays (`parens_transparent`).
-/

set_option autoImplicit false

namespace NativeLowering

open Lowered (Corresponds)
open Walk (InTandem)

/-- All that lowering asks of an expression has the same answer with more parentheses. -/
structure Transparent (cx : Context) (locals : Locals) (value value' : Expr) : Prop where
  /-- Whether it denotes a storage location. -/
  storage : value'.isAddressable = value.isAddressable
  /-- Which calls in it get an explicit receiver, and what they become. -/
  received : InTandem (Expr.Encloses False) (Walk.expr (Receiver.injecting cx.model locals) value)
    (Walk.expr (Receiver.injecting cx.model locals) value')
  /-- Which operands in it get a variable, and of what type. -/
  materialized : InTandem (Expr.Encloses False)
    (Walk.expr (Address.materializeCall cx.model locals) value)
    (Walk.expr (Address.materializeCall cx.model locals) value')
  /-- Whether it can be written, and its text but for parentheses. -/
  written : Corresponds Parenthesized (exprText cx locals value) (exprText cx locals value')

theorem Expr.Encloses.transparent {value value' : Expr} (h : value.Encloses False value')
    (cx : Context) [cx.model.Typed] (locals : Locals) : Transparent cx locals value value' where
  storage := h.isAddressable
  received := (expr_inTandem injecting_parenthesizes h).imp fun _ _ hresult => hresult.encloses
  materialized :=
    (expr_inTandem materializeCall_parenthesizes h).imp fun _ _ hresult => hresult.encloses
  written := exprText_encloses h

/-! ## The current instance -/

section This

variable {cx : Context} {locals : Locals} {owner name : String} {span place around here : Span}

/-- A member of the current instance. -/
theorem exprText_this (howner : locals.thisClass = some owner) :
    exprText cx locals (.property span (.thisRef here) name)
      = .ok ("this" ++ cx.piece ("->" ++ name)) := by
  have hpiece : cx.piece ("this" ++ ("->" ++ name)) = "this" ++ cx.piece ("->" ++ name) :=
    cx.layout.inline_append (by simp) _
  simp only [exprText, propertyText, Expr.isThis, instanceMemberText, requireThis, howner, if_true]
  rw [← hpiece, ← String.append_assoc]
  rfl

/-- A method of an instance of its class is called with the instance as its receiver. -/
theorem injectCall_method {object : Expr} (htype : cx.model.typeOf locals object = .classTy owner)
    (hmethod : cx.model.declaresMethod owner name = true) (hname : name ≠ Spelling.destructor)
    (typeArgs : Option (List TypeNode)) (args : List Expr) :
    Receiver.injectCall cx.model locals (.call span (.property place object name) typeArgs args)
      = (Receiver.argument cx.model owner object (.classTy owner)).map
          fun receiver => .receiverCall span owner name (receiver :: args) := by
  have howning : Receiver.owningClass cx.model name span (.classTy owner) = .ok (some owner) := by
    rw [Names.declaresMethod, Option.isSome_iff_exists] at hmethod
    obtain ⟨method, hmethod⟩ := hmethod
    rw [Receiver.owningClass, hmethod]
  simp only [Receiver.injectCall, if_neg hname, htype, howning]
  show (Receiver.argument cx.model owner object (.classTy owner) >>= _) = _
  cases Receiver.argument cx.model owner object (.classTy owner) <;> rfl

variable [cx.model.Typed]

theorem typeOf_this (howner : locals.thisClass = some owner) :
    cx.model.typeOf locals (.thisRef here) = .classTy owner := by
  rw [cx.model.typeOf_thisRef, howner, Option.elim_some]

/-- In parentheses the current instance is an object of its class like any other. -/
theorem exprText_parenThis (howner : locals.thisClass = some owner) :
    exprText cx locals (.property span (.paren around (.thisRef here)) name)
      = (separator cx (.classTy owner) name span).map
          fun between => "(this)" ++ cx.piece (between ++ name) := by
  have htext : exprText cx locals (.paren around (.thisRef here)) = .ok "(this)" := by
    simp only [exprText, requireThis, howner]
    rfl
  have htype : cx.model.typeOf locals (.paren around (.thisRef here)) = .classTy owner := by
    rw [cx.model.typeOf_paren, typeOf_this howner]
  rw [exprText, propertyText, htype, htext]
  simp only [memberText, Expr.isThis]
  cases separator cx (.classTy owner) name span <;> rfl

/-- Parentheses around the current instance are all that differs in the text of a member, exactly if
the members of the class are reached through a pointer. -/
theorem exprText_parenThis_iff (howner : locals.thisClass = some owner) :
    Corresponds Parenthesized (exprText cx locals (.property span (.thisRef here) name))
        (exprText cx locals (.property span (.paren around (.thisRef here)) name))
      ↔ separator cx (.classTy owner) name span = .ok "->" := by
  rw [exprText_this howner, exprText_parenThis howner]
  cases hseparator : separator cx (.classTy owner) name span with
  | error e =>
    constructor
    · intro h
      cases h
    · nofun
  | ok between =>
    constructor
    · rintro (hparens | _)
      have hsame : unparenthesized ("(this)" ++ cx.piece (between ++ name))
        = unparenthesized ("this" ++ cx.piece ("->" ++ name)) := hparens.unparenthesized_eq
      -- What stands behind the separator is the same, so the separators can be told apart.
      have hpiece (between : String) (h : ∀ c ∈ between.toList, c ≠ '\n' ∧ c ≠ '\r') :
          cx.piece (between ++ name) = between ++ cx.piece name := cx.layout.inline_append h _
      rw [hpiece "->" (by simp)] at hsame
      rcases separator_cases hseparator with rfl | rfl | rfl
      · rw [hpiece "." (by simp)] at hsame
        simp [unparenthesized] at hsame
      · rfl
      · rw [hpiece "::" (by simp)] at hsame
        simp [unparenthesized] at hsame
    · intro h
      cases h
      exact .ok (((Parenthesized.same "this").wrap).append (.same _))

/-- Parentheses around the current instance are all that differs in what a method gets as its
receiver, exactly if the instances of the class are shared. -/
theorem injectCall_parenThis_iff (howner : locals.thisClass = some owner)
    (hmethod : cx.model.declaresMethod owner name = true) (hname : name ≠ Spelling.destructor)
    (typeArgs : Option (List TypeNode)) (args : List Expr) :
    Corresponds (Expr.Encloses True)
        (Receiver.injectCall cx.model locals
          (.call span (.property place (.thisRef here) name) typeArgs args))
        (Receiver.injectCall cx.model locals
          (.call span (.property place (.paren around (.thisRef here)) name) typeArgs args))
      ↔ cx.model.isSharedClass owner = true := by
  have hthis : Receiver.argument cx.model owner (.thisRef here) (.classTy owner)
      = .ok (.thisRef here) := rfl
  have hparen : Receiver.argument cx.model owner (.paren around (.thisRef here)) (.classTy owner)
      = if cx.model.isSharedClass owner then .ok (.paren around (.thisRef here))
        else Receiver.addressOf cx.model (.paren around (.thisRef here)) := rfl
  have htype : cx.model.typeOf locals (.thisRef here) = .classTy owner := typeOf_this howner
  have htype' : cx.model.typeOf locals (.paren around (.thisRef here)) = .classTy owner := by
    rw [cx.model.typeOf_paren, htype]
  rw [injectCall_method htype hmethod hname, injectCall_method htype' hmethod hname, hthis, hparen]
  cases hshared : cx.model.isSharedClass owner with
  | true =>
    simp only [if_true, iff_true]
    exact .ok (.receiverCall (.cons (.wrap .thisRef fun _ => trivial) (Expr.Encloses.reflAll args)))
  | false =>
    simp only [Bool.false_eq_true, if_false, iff_false]
    unfold Receiver.addressOf Receiver.builtinCallee
    cases cx.model.builtin? .addressOf with
    | none =>
      intro h
      cases h
    | some symbol =>
      -- The call that takes the address stands in the place of the current instance.
      rintro (h | _)
      cases h with
      | receiverCall hargs =>
        cases hargs with
        | cons hreceiver => cases hreceiver

end This

/-- **Parentheses around objects are transparent but for those around the current instance.** They
leave the type alone in any case. Elsewhere all other answers stay too: whether there is a storage
location, what becomes of the calls inside, and the text but for parentheses. Parentheses around the
current instance take the storage location from its properties, and keep the text of a member only
where the class has its members reached through a pointer, and the receiver of a method only where
instances are shared. -/
theorem parens_transparent (cx : Context) [cx.model.Typed] (locals : Locals) :
    (∀ value value' : Expr, value.Encloses True value' →
      cx.model.typeOf locals value' = cx.model.typeOf locals value) ∧
    (∀ value value' : Expr, value.Encloses False value' → Transparent cx locals value value') ∧
    (∀ span around object name,
      (Expr.property span (.paren around object) name).isAddressable
          = (Expr.property span object name).isAddressable ↔ object.isThis = false) ∧
    ∀ owner, locals.thisClass = some owner →
      (∀ span around here name,
        Corresponds Parenthesized (exprText cx locals (.property span (.thisRef here) name))
            (exprText cx locals (.property span (.paren around (.thisRef here)) name))
          ↔ separator cx (.classTy owner) name span = .ok "->") ∧
      ∀ span place around here name typeArgs args,
        cx.model.declaresMethod owner name = true → name ≠ Spelling.destructor →
        (Corresponds (Expr.Encloses True)
            (Receiver.injectCall cx.model locals
              (.call span (.property place (.thisRef here) name) typeArgs args))
            (Receiver.injectCall cx.model locals
              (.call span (.property place (.paren around (.thisRef here)) name) typeArgs args))
          ↔ cx.model.isSharedClass owner = true) :=
  ⟨fun _ _ h => h.typeOf, fun _ _ h => h.transparent cx locals,
    fun _ _ _ _ => Expr.property_paren_isAddressable_iff,
    fun _ howner => ⟨fun _ _ _ _ => exprText_parenThis_iff howner,
      fun _ _ _ _ _ typeArgs args hmethod hname =>
        injectCall_parenThis_iff howner hmethod hname typeArgs args⟩⟩

/-- A model that knows a class, `Vec`, whose instances are values, and the function that takes an
address. -/
def vecModel : TypedModel := Names.model <| Tables.names <|
  let info : ClassInfo :=
    { traits := { ownership := .value }, declared := false, hasConstructor := false
      fields := [{ name := "x", visibility := .publicMember, type := some (.keyword {} .number) }]
      methods := [{ name := "copy", visibility := .publicMember, returnType := none }] }
  let vec : Item := { name := "Vec", span := {}, info := .classInfo info }
  let address : Item :=
    { name := "addressof", span := {}
      info := .functionInfo
        { traits := {}, declared := true, returnType := none, builtin := some .addressOf } }
  { values := [("Vec", .item vec), ("addressof", .item address)], types := [("Vec", .item vec)] }

/-- Inside the class, with another vector in scope. -/
def vecLocals : Locals := (Locals.start (some "Vec")).declare "other" (.classTy "Vec")

open Build in
/-- Parentheses around the other vector change nothing. Those around the current instance leave the
type alone, but neither the text nor the receiver. -/
theorem parens_transparent_vec :
    let cx : Context := ⟨vecModel, {}⟩
    Transparent cx vecLocals (property (ident "other") "x") (property (paren (ident "other")) "x") ∧
    vecModel.typeOf vecLocals (property (paren thisRef) "x")
      = vecModel.typeOf vecLocals (property thisRef "x") ∧
    (property (paren thisRef) "x").isAddressable ≠ (property thisRef "x").isAddressable ∧
    ¬ Corresponds Parenthesized (exprText cx vecLocals (property thisRef "x"))
      (exprText cx vecLocals (property (paren thisRef) "x")) ∧
    ¬ Corresponds (Expr.Encloses True)
      (Receiver.injectCall vecModel vecLocals (methodCall thisRef "copy" []))
      (Receiver.injectCall vecModel vecLocals (methodCall (paren thisRef) "copy" [])) := by
  intro cx
  have : cx.model.Typed := vecModel.typed
  obtain ⟨htype, htransparent, hstorage, hthis⟩ := parens_transparent cx vecLocals
  obtain ⟨htext, hreceiver⟩ := hthis "Vec" rfl
  refine ⟨htransparent _ _ (.property (.wrap .ident nofun)),
    htype _ _ (.property (.wrap .thisRef fun _ => trivial)), fun h => ?_, fun h => ?_, fun h => ?_⟩
  · exact absurd ((hstorage ..).mp h) (by decide)
  · have hdot : separator cx (.classTy "Vec") "x" {} = .ok "." := rfl
    exact absurd (Except.ok.inj (hdot.symm.trans ((htext ..).mp h))) (by decide)
  · exact absurd ((hreceiver {} {} {} {} "copy" none [] (by decide) (by decide)).mp h) (by decide)

open Build in
/-- Parentheses around the current instance are not transparent. Its property denotes no storage
location any more, the pointer is followed by a dot, and a method gets the address of the pointer. -/
theorem parenThis_opaque :
    let cx : Context := ⟨vecModel, {}⟩
    (property thisRef "x").Encloses True (property (paren thisRef) "x") ∧
    (property thisRef "x").isAddressable = true ∧
    (property (paren thisRef) "x").isAddressable = false ∧
    exprText cx vecLocals (property thisRef "x") = .ok "this->x" ∧
    exprText cx vecLocals (property (paren thisRef) "x") = .ok "(this).x" ∧
    ¬ Parenthesized "this->x" "(this).x" ∧
    Receiver.injectCall vecModel vecLocals (methodCall thisRef "copy" [])
      = .ok (.receiverCall {} "Vec" "copy" [thisRef]) ∧
    Receiver.injectCall vecModel vecLocals (methodCall (paren thisRef) "copy" [])
      = .ok (.receiverCall {} "Vec" "copy" [call (ident "addressof") [paren thisRef]]) := by
  refine ⟨.property (.wrap .thisRef fun _ => trivial), rfl, rfl, by cbv, by cbv, fun h => ?_, by cbv,
    by cbv⟩
  exact absurd h.unparenthesized_eq (by decide)

end NativeLowering
