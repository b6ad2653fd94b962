import NativeLowering.Generate
import NativeLowering.Proofs.Model.Shadowing
import NativeLowering.Proofs.Receiver.Passes
import NativeLowering.Proofs.Receiver.Word
import NativeLowering.Syntax.Build

/-!
# Passes, texts and shadowed globals

Writing looks a name up among the variables before it looks among the globals, and so does typing
where the name stands for a value. Four decisions do not. The result of a call is that of the global
function. What is a call of a built-in is decided by the callee's name alone. A receiver passed by its
address takes the global `addressof` for it. And a qualifier in a type argument is a global name.
`shadowing_respected_iff` says that these are all: wherever they do not fall on a shadowed name, the
types, the decisions of the passes and the texts are independent of what the name stands for globally.
-/

set_option autoImplicit false

namespace NativeLowering

open Vocabulary (Builtin)
open Walk (ExprM)
open Names (AgreeOutside agreeOutside_enter)

namespace Expr

theorem typedBy_call {callee : Expr} (h : callee.isNamed = false) (span : Span)
    (typeArgs : Option (List TypeNode)) (args : List Expr) :
    (Expr.call span callee typeArgs args).typedBy? = none := by
  cases callee with
  | ident | property => cases h
  | _ => rfl

/-- Whether a method call on the callee is made explicit does not depend on shadowed names: the type
of the object is not taken from a function of such a name, and its address needs none. -/
def CalledOutside (locals : Locals) : Expr → Prop
  | .property _ object name =>
    name = Spelling.destructor ∨ object.TypedOutside locals ∧
      (object.isThis = true ∨ locals.binds Builtin.addressOf.spelling = false)
  | _ => True

mutual

/-- Every method call in the expression is so. -/
def InjectedOutside (locals : Locals) : Expr → Prop
  | .ident .. | .thisRef _ | .literal .. => True
  | .property _ object _ => object.InjectedOutside locals
  | .call _ callee _ args =>
    callee.CalledOutside locals ∧ callee.InjectedOutside locals ∧ AllInjectedOutside locals args
  | .new _ _ args => AllInjectedOutside locals args
  | .binary _ _ left right => left.InjectedOutside locals ∧ right.InjectedOutside locals
  | .unary _ _ operand => operand.InjectedOutside locals
  | .paren _ inner => inner.InjectedOutside locals
  | .comma _ items => AllInjectedOutside locals items
  | .receiverCall _ _ _ args => AllInjectedOutside locals args

def AllInjectedOutside (locals : Locals) : List Expr → Prop
  | [] => True
  | item :: rest => item.InjectedOutside locals ∧ AllInjectedOutside locals rest

end

end Expr

/-! ## Calls of built-ins -/

/-- Which calls are calls of a built-in is the same in all models that differ in shadowed names only,
exactly if the callee is not such a name. -/
theorem Address.isBuiltinCall_respects_iff (locals : Locals) (builtin : Builtin) (callee : Expr) :
    (∀ model model' : TypedModel, AgreeOutside locals model model' →
      isBuiltinCall model' builtin callee = isBuiltinCall model builtin callee) ↔
      ∀ span name, callee = .ident span name → locals.binds name = false := by
  constructor
  · rintro h span name rfl
    by_contra hbound
    rw [Bool.not_eq_false] at hbound
    have hsame := h (Tables.names {}).model (Names.model _) (agreeOutside_enter hbound {} (.item
      { name, span, info := .functionInfo
          { traits := {}, declared := true, returnType := none, builtin := some builtin } }))
    simp [isBuiltinCall, Names.model, Names.function?, Tables.names, Tables.resolve?,
      Symbol.function?, Item.function?] at hsame
  · intro hcallee model model' h
    cases callee with
    | ident span name =>
      simp only [isBuiltinCall, Names.function?, h.value name (hcallee span name rfl)]
    | _ => rfl

/-! ## Receivers -/

namespace Receiver

section Injecting

variable {locals : Locals} {model model' : TypedModel}

/-- A visit hands on what its result is computed from. -/
theorem bind_congr_run {α β : Type} {first : ExprM α} {next next' : α → ExprM β}
    (h : ∀ pending result after, first.run pending = .ok (result, after) →
      next result = next' result) : first >>= next = first >>= next' := by
  funext pending
  show (first.run pending >>= fun entry => (next entry.1).run entry.2)
    = (first.run pending >>= fun entry => (next' entry.1).run entry.2)
  cases hrun : first.run pending with
  | error e => rfl
  | ok entry =>
    show (next entry.1).run entry.2 = (next' entry.1).run entry.2
    rw [h pending entry.1 entry.2 hrun]

theorem injectCall_result {span : Span} {callee result : Expr} {typeArgs : Option (List TypeNode)}
    {args : List Expr} (h : injectCall model locals (.call span callee typeArgs args) = .ok result) :
    result = .call span callee typeArgs args ∨
      ∃ owner method items, result = .receiverCall span owner method items := by
  cases callee with
  | property place object name =>
    simp only [injectCall] at h
    split at h
    · cases h
      exact .inl rfl
    · obtain ⟨target, -, h⟩ := Lowered.bind_eq_ok.mp h
      cases target with
      | none =>
        cases h
        exact .inl rfl
      | some owner =>
        obtain ⟨receiver, -, h⟩ := Lowered.bind_eq_ok.mp h
        cases h
        exact .inr ⟨_, _, _, rfl⟩
  | _ =>
    cases h
    exact .inl rfl

/-- A visit leaves everything but calls alone. -/
theorem run_injecting {value result : Expr} {pending after : Walk.Pending}
    (h : (injecting model locals value).run pending = .ok (result, after)) :
    injectCall model locals value = .ok result := (Lowered.run_lift.mp h).1

/-- What is no name and no member stays so. -/
theorem isNamed_injected {value result : Expr} (hvalue : value.isNamed = false)
    {pending after : Walk.Pending}
    (h : (Walk.expr (injecting model locals) value).run pending = .ok (result, after)) :
    result.isNamed = false := by
  cases value with
  | ident | property => cases hvalue
  | thisRef | literal =>
    cases run_injecting h
    rfl
  | call span callee typeArgs args =>
    obtain ⟨callee', _, -, h⟩ := Lowered.run_bind.mp h
    obtain ⟨args', _, -, h⟩ := Lowered.run_bind.mp h
    rcases injectCall_result (run_injecting h) with rfl | ⟨_, _, _, rfl⟩ <;> rfl
  | binary =>
    obtain ⟨left', _, -, h⟩ := Lowered.run_bind.mp h
    obtain ⟨right', _, -, h⟩ := Lowered.run_bind.mp h
    cases run_injecting h
    rfl
  | new | unary | paren | comma | receiverCall =>
    obtain ⟨part, _, -, h⟩ := Lowered.run_bind.mp h
    cases run_injecting h
    rfl

mutual

/-- The type of the result is taken from the function that the type of the expression is taken from,
if from any. -/
theorem typedBy_injected : ∀ {value result : Expr} {pending after : Walk.Pending},
    (Walk.expr (injecting model locals) value).run pending = .ok (result, after) →
    result.typedBy? = none ∨ result.typedBy? = value.typedBy?
  | .ident .., result, _, _, h | .thisRef _, result, _, _, h | .literal .., result, _, _, h => by
    cases run_injecting h
    exact .inl rfl
  | .property _ object _, result, _, _, h => by
    obtain ⟨object', _, hobject, h⟩ := Lowered.run_bind.mp h
    cases run_injecting h
    have htyped := typedBy_injected hobject
    exact htyped
  | .call span callee typeArgs args, result, _, _, h => by
    obtain ⟨callee', _, hcallee, h⟩ := Lowered.run_bind.mp h
    obtain ⟨args', _, -, h⟩ := Lowered.run_bind.mp h
    rcases injectCall_result (run_injecting h) with rfl | ⟨_, _, _, rfl⟩
    · cases callee with
      | ident place name =>
        cases run_injecting hcallee
        exact .inr rfl
      | property place object name =>
        obtain ⟨object', _, hobject, hcallee⟩ := Lowered.run_bind.mp hcallee
        cases run_injecting hcallee
        have htyped := typedBy_injected hobject
        exact htyped
      | _ => exact .inl (Expr.typedBy_call (isNamed_injected rfl hcallee) _ _ _)
    · exact .inl rfl
  | .new _ _ args, result, _, _, h => by
    obtain ⟨args', _, -, h⟩ := Lowered.run_bind.mp h
    cases run_injecting h
    exact .inl rfl
  | .binary _ op left right, result, _, _, h => by
    obtain ⟨left', _, hleft, h⟩ := Lowered.run_bind.mp h
    obtain ⟨right', _, -, h⟩ := Lowered.run_bind.mp h
    cases run_injecting h
    simp only [Expr.typedBy?]
    split
    · exact .inl rfl
    · exact typedBy_injected hleft
  | .unary _ op operand, result, _, _, h => by
    obtain ⟨operand', _, hoperand, h⟩ := Lowered.run_bind.mp h
    cases run_injecting h
    have htyped := typedBy_injected hoperand
    cases op with
    | not => exact .inl rfl
    | neg | plus | bitNot => exact htyped
  | .paren _ inner, result, _, _, h => by
    obtain ⟨inner', _, hinner, h⟩ := Lowered.run_bind.mp h
    cases run_injecting h
    have htyped := typedBy_injected hinner
    exact htyped
  | .comma _ items, result, _, _, h => by
    obtain ⟨items', _, hitems, h⟩ := Lowered.run_bind.mp h
    cases run_injecting h
    exact typedByLast_injected hitems
  | .receiverCall _ _ _ args, result, _, _, h => by
    obtain ⟨args', _, -, h⟩ := Lowered.run_bind.mp h
    cases run_injecting h
    exact .inl rfl

theorem typedByLast_injected : ∀ {items results : List Expr} {pending after : Walk.Pending},
    (Walk.exprs (injecting model locals) items).run pending = .ok (results, after) →
    Expr.typedByLast? results = none ∨ Expr.typedByLast? results = Expr.typedByLast? items
  | [], results, _, _, h => by
    obtain ⟨rfl, -⟩ := Lowered.run_pure.mp h
    exact .inl rfl
  | [item], results, _, _, h => by
    obtain ⟨item', _, hitem, h⟩ := Lowered.run_bind.mp h
    obtain ⟨rest', _, hrest, h⟩ := Lowered.run_bind.mp h
    obtain ⟨rfl, -⟩ := Lowered.run_pure.mp h
    obtain ⟨rfl, -⟩ := Lowered.run_pure.mp hrest
    exact typedBy_injected hitem
  | first :: second :: rest, results, _, _, h => by
    obtain ⟨first', _, -, h⟩ := Lowered.run_bind.mp h
    obtain ⟨others, _, hothers, h⟩ := Lowered.run_bind.mp h
    obtain ⟨rfl, -⟩ := Lowered.run_pure.mp h
    obtain ⟨second', _, -, hothers'⟩ := Lowered.run_bind.mp hothers
    obtain ⟨rest', _, -, hothers'⟩ := Lowered.run_bind.mp hothers'
    obtain ⟨rfl, -⟩ := Lowered.run_pure.mp hothers'
    have htyped := typedByLast_injected hothers
    exact htyped

end

theorem calledOutside_injected {callee result : Expr} (hcallee : callee.CalledOutside locals)
    {pending after : Walk.Pending}
    (h : (Walk.expr (injecting model locals) callee).run pending = .ok (result, after)) :
    result.CalledOutside locals := by
  cases callee with
  | property place object name =>
    obtain ⟨object', _, hobject, h⟩ := Lowered.run_bind.mp h
    cases run_injecting h
    refine hcallee.imp_right fun ⟨htyped, haddress⟩ => ⟨fun other hother => ?_, ?_⟩
    · rcases typedBy_injected hobject with hnone | hsame
      · rw [hnone] at hother
        cases hother
      · exact htyped other (hsame.symm.trans hother)
    · refine haddress.imp_left fun hthis => ?_
      obtain ⟨place', rfl⟩ := Expr.eq_this hthis
      cases run_injecting hobject
      rfl
  | ident =>
    cases run_injecting h
    trivial
  | _ =>
    have hnamed := isNamed_injected rfl h
    cases result with
    | property => cases hnamed
    | _ => trivial

section Agreeing

variable (h : AgreeOutside locals model model')
include h

theorem owningClass_agrees (method : String) (span : Span) : ∀ type : Ty,
    owningClass model' method span type = owningClass model method span type
  | .classTy name => by rw [owningClass, owningClass, h.classInfo?]
  | .pointer inner => owningClass_agrees method span inner
  | .interfaceTy name => by rw [owningClass, owningClass, h.type]
  | .named _ | .primitive _ | .moduleTy _ | .function | .unknown => rfl

theorem argument_agrees {object : Expr}
    (haddress : object.isThis = true ∨ locals.binds Builtin.addressOf.spelling = false)
    (owner : String) (type : Ty) :
    argument model' owner object type = argument model owner object type := by
  rcases haddress with hthis | hfree
  · obtain ⟨place, rfl⟩ := Expr.eq_this hthis
    rfl
  · have hcall : addressOf model' object = addressOf model object := by
      unfold addressOf builtinCallee Names.builtin?
      rw [h.value _ hfree]
    unfold argument
    rw [hcall, h.isSharedClass]

theorem injectCall_agrees {callee : Expr} (hcallee : callee.CalledOutside locals) (span : Span)
    (typeArgs : Option (List TypeNode)) (args : List Expr) :
    injectCall model' locals (.call span callee typeArgs args)
      = injectCall model locals (.call span callee typeArgs args) := by
  cases callee with
  | property place object name =>
    simp only [injectCall]
    split
    · rfl
    · rename_i hname
      obtain ⟨htyped, haddress⟩ := hcallee.resolve_left hname
      simp only [Model.typeOf_agrees h htyped, owningClass_agrees h, argument_agrees h haddress]
  | _ => rfl

end Agreeing

mutual

/-- The same calls of an expression are made explicit, in the same way. -/
theorem inject_agrees (h : AgreeOutside locals model model') : ∀ value : Expr,
    value.InjectedOutside locals →
    Walk.expr (injecting model' locals) value = Walk.expr (injecting model locals) value
  | .ident .., _ | .thisRef _, _ | .literal .., _ => rfl
  | .property _ object _, hvalue => by
    rw [Walk.expr, Walk.expr, inject_agrees h object hvalue]
    rfl
  | .call span callee typeArgs args, hvalue => by
    obtain ⟨hcalled, hcallee, hargs⟩ := hvalue
    rw [Walk.expr, Walk.expr, inject_agrees h callee hcallee, injectAll_agrees h args hargs]
    refine bind_congr_run fun _ callee' _ hrun => bind_congr fun args' => ?_
    exact congrArg _ (injectCall_agrees h (calledOutside_injected hcalled hrun) span typeArgs args')
  | .new _ _ args, hvalue => by
    rw [Walk.expr, Walk.expr, injectAll_agrees h args hvalue]
    rfl
  | .binary _ _ left right, hvalue => by
    rw [Walk.expr, Walk.expr, inject_agrees h left hvalue.1, inject_agrees h right hvalue.2]
    rfl
  | .unary _ _ operand, hvalue => by
    rw [Walk.expr, Walk.expr, inject_agrees h operand hvalue]
    rfl
  | .paren _ inner, hvalue => by
    rw [Walk.expr, Walk.expr, inject_agrees h inner hvalue]
    rfl
  | .comma _ items, hvalue => by
    rw [Walk.expr, Walk.expr, injectAll_agrees h items hvalue]
    rfl
  | .receiverCall _ _ _ args, hvalue => by
    rw [Walk.expr, Walk.expr, injectAll_agrees h args hvalue]
    rfl

theorem injectAll_agrees (h : AgreeOutside locals model model') : ∀ items : List Expr,
    Expr.AllInjectedOutside locals items →
    Walk.exprs (injecting model' locals) items = Walk.exprs (injecting model locals) items
  | [], _ => rfl
  | item :: rest, hitems => by
    rw [Walk.exprs, Walk.exprs, inject_agrees h item hitems.1, injectAll_agrees h rest hitems.2]

end

end Injecting
end Receiver

/-! ## Texts -/

mutual

/-- No name that the annotation is qualified by is shadowed. -/
def TypeNode.QualifiedOutside (locals : Locals) : TypeNode → Prop
  | .keyword .. => True
  | .reference _ [_] args => AllQualifiedOutside locals args
  | .reference _ [qualifier, _] args =>
    locals.binds qualifier = false ∧ AllQualifiedOutside locals args
  | .reference .. => True

def TypeNode.AllQualifiedOutside (locals : Locals) : List TypeNode → Prop
  | [] => True
  | node :: rest => node.QualifiedOutside locals ∧ AllQualifiedOutside locals rest

end

namespace Expr

mutual

/-- The text of the expression does not depend on shadowed names: no object of a member and no
receiver has its type from a function of such a name, and no type argument of a call of a global is
qualified by one. -/
def WrittenOutside (locals : Locals) : Expr → Prop
  | .ident .. | .thisRef _ | .literal .. => True
  | .property _ object _ => object.TypedOutside locals ∧ object.WrittenOutside locals
  | .call _ callee typeArgs args =>
    (∀ span name, callee = .ident span name → locals.binds name = false →
      TypeNode.AllQualifiedOutside locals (typeArgs.getD [])) ∧
      callee.WrittenOutside locals ∧ AllWrittenOutside locals args
  | .new _ _ args => AllWrittenOutside locals args
  | .binary _ _ left right => left.WrittenOutside locals ∧ right.WrittenOutside locals
  | .unary _ _ operand => operand.WrittenOutside locals
  | .paren _ inner => inner.WrittenOutside locals
  | .comma _ items => AllWrittenOutside locals items
  | .receiverCall _ _ _ args =>
    (∀ receiver ∈ args.head?, receiver.TypedOutside locals) ∧ AllWrittenOutside locals args

def AllWrittenOutside (locals : Locals) : List Expr → Prop
  | [] => True
  | item :: rest => item.WrittenOutside locals ∧ AllWrittenOutside locals rest

end

end Expr

section Texts

variable {locals : Locals} {model model' : TypedModel}

mutual

theorem typeTextWith_agrees (h : AgreeOutside locals model model') (mangling : String) :
    ∀ (wrapping : Wrapping) (node : TypeNode), node.QualifiedOutside locals →
      typeTextWith model' mangling wrapping node = typeTextWith model mangling wrapping node
  | _, .keyword .., _ => rfl
  | wrapping, .reference span [name] [], _ => by
    rw [typeTextWith.eq_def, typeTextWith.eq_def]
    simp only [h.type]
    rfl
  | wrapping, .reference span [name] [inner], hnode => by
    rw [typeTextWith, typeTextWith, h.type, typeTextWith_agrees h mangling .bare inner hnode.1,
      typeTexts_agrees h mangling [inner] hnode]
  | wrapping, .reference span [name] (first :: second :: rest), hnode => by
    rw [typeTextWith.eq_def, typeTextWith.eq_def]
    simp only [h.type, typeTexts_agrees h mangling (first :: second :: rest) hnode]
  | wrapping, .reference span [qualifier, name] args, hnode => by
    have hitem : qualifiedItem model' qualifier name span = qualifiedItem model qualifier name span := by
      unfold qualifiedItem
      rw [h.value qualifier hnode.1]
    rw [typeTextWith, typeTextWith, hitem, typeTexts_agrees h mangling args hnode.2]
  | _, .reference _ [] _, _ => rfl
  | _, .reference _ (_ :: _ :: _ :: _) _, _ => rfl

theorem typeTexts_agrees (h : AgreeOutside locals model model') (mangling : String) :
    ∀ nodes : List TypeNode, TypeNode.AllQualifiedOutside locals nodes →
      typeTexts model' mangling nodes = typeTexts model mangling nodes
  | [], _ => rfl
  | node :: rest, hnodes => by
    rw [typeTexts, typeTexts, typeTextWith_agrees h mangling .owned node hnodes.1,
      typeTexts_agrees h mangling rest hnodes.2]

end

section Agreeing

variable {options : Options} (h : AgreeOutside locals model model')
include h

theorem identText_agrees (name : String) (span : Span) :
    identText ⟨model', options⟩ locals name span = identText ⟨model, options⟩ locals name span := by
  rw [identText_eq, identText_eq]
  split
  · rfl
  · rename_i hbound
    rw [h.value name (Bool.not_eq_true _ ▸ hbound)]
    rfl

theorem memberText_agrees (object : Expr) (owner : Ty) (member : String) (span : Span)
    (text : Lowered String) :
    memberText ⟨model', options⟩ locals object owner member span text
      = memberText ⟨model, options⟩ locals object owner member span text := by
  have hseparator : separator ⟨model', options⟩ owner member span
      = separator ⟨model, options⟩ owner member span := by
    cases owner <;> simp only [separator, h.classInfo?]
  unfold memberText
  rw [hseparator]
  rfl

theorem propertyText_agrees {object : Expr} (hobject : object.TypedOutside locals) (name : String)
    (span : Span) (text : Lowered String) :
    propertyText ⟨model', options⟩ locals object name span text
      = propertyText ⟨model, options⟩ locals object name span text := by
  unfold propertyText moduleMemberText moduleMember
  simp only [Model.typeOf_agrees h hobject, h.module, memberText_agrees h]
  rfl

theorem functionCallText_agrees {name : String} (hname : locals.binds name = false) (span : Span)
    {typeArgs : Option (List TypeNode)}
    (htypes : TypeNode.AllQualifiedOutside locals (typeArgs.getD [])) (args : List Expr)
    (texts : Lowered (List String)) :
    functionCallText ⟨model', options⟩ name span typeArgs args texts
      = functionCallText ⟨model, options⟩ name span typeArgs args texts := by
  have hsize : sizeText ⟨model', options⟩ span (typeArgs.getD []) args texts
      = sizeText ⟨model, options⟩ span (typeArgs.getD []) args texts := by
    unfold sizeText typeText
    split
    · rename_i node hnode
      rw [hnode] at htypes
      rw [typeTextWith_agrees h _ .owned node htypes.1]
      rfl
    · rfl
    · rfl
  unfold functionCallText
  rw [h.value name hname, hsize]
  rfl

theorem methodCallText_agrees {object : Expr} (hobject : object.TypedOutside locals) (name : String)
    (span : Span) (text : Lowered String) (texts : Lowered (List String)) :
    methodCallText ⟨model', options⟩ locals object name span text texts
      = methodCallText ⟨model, options⟩ locals object name span text texts := by
  unfold methodCallText
  simp only [Model.typeOf_agrees h hobject, h.class?, h.exportedFunction?, memberText_agrees h,
    propertyText_agrees h hobject]
  rfl

theorem receiverCallText_agrees (owner method : String) {args : List Expr}
    (hargs : ∀ receiver ∈ args.head?, receiver.TypedOutside locals) (span : Span)
    (texts : Lowered (List String)) :
    receiverCallText ⟨model', options⟩ locals owner method args span texts
      = receiverCallText ⟨model, options⟩ locals owner method args span texts := by
  unfold receiverCallText
  cases args with
  | nil => rw [h.class?]
  | cons receiver rest =>
    have hhandle : isSharedHandle ⟨model', options⟩ locals receiver
        = isSharedHandle ⟨model, options⟩ locals receiver := by
      unfold isSharedHandle
      simp only [Model.typeOf_agrees h (hargs receiver rfl), h.isSharedClass]
    simp only [h.class?, hhandle]
    rfl

end Agreeing

mutual

/-- The text of the expression, or the error, is the same. -/
theorem exprText_agrees {options : Options} (h : AgreeOutside locals model model') :
    ∀ value : Expr, value.WrittenOutside locals →
      exprText ⟨model', options⟩ locals value = exprText ⟨model, options⟩ locals value
  | .ident span name, _ => by rw [exprText, exprText, identText_agrees h]
  | .thisRef _, _ | .literal .., _ => rfl
  | .property span object name, hvalue => by
    rw [exprText, exprText, exprText_agrees h object hvalue.2, propertyText_agrees h hvalue.1]
  | .call span callee typeArgs args, hvalue => by
    obtain ⟨htypes, hcallee, hargs⟩ := hvalue
    have htexts : exprTexts ⟨model', options⟩ locals args = exprTexts ⟨model, options⟩ locals args :=
      exprTexts_agrees h args hargs
    cases hnamed : callee.isNamed with
    | false =>
      rw [exprText_call _ _ hnamed, exprText_call _ _ hnamed, exprText_agrees h callee hcallee, htexts]
    | true =>
      cases callee with
      | ident place name =>
        rw [exprText, exprText, htexts]
        split
        · rfl
        · rename_i hbound
          have hfree : locals.binds name = false := Bool.not_eq_true _ ▸ hbound
          exact functionCallText_agrees h hfree span (htypes place name rfl hfree) args _
      | property place object name =>
        rw [exprText, exprText, htexts, exprText_agrees h object hcallee.2,
          methodCallText_agrees h hcallee.1]
      | _ => cases hnamed
  | .new span target args, hvalue => by
    rw [exprText, exprText, exprTexts_agrees h args hvalue]
    unfold newText
    simp only [h.class?]
    rfl
  | .binary _ op left right, hvalue => by
    rw [exprText, exprText, exprText_agrees h left hvalue.1, exprText_agrees h right hvalue.2]
  | .unary _ op operand, hvalue => by rw [exprText, exprText, exprText_agrees h operand hvalue]
  | .paren _ inner, hvalue => by rw [exprText, exprText, exprText_agrees h inner hvalue]
  | .comma _ items, hvalue => by rw [exprText, exprText, exprTexts_agrees h items hvalue]
  | .receiverCall span owner method args, hvalue => by
    rw [exprText, exprText, exprTexts_agrees h args hvalue.2, receiverCallText_agrees h _ _ hvalue.1]

theorem exprTexts_agrees {options : Options} (h : AgreeOutside locals model model') :
    ∀ items : List Expr, Expr.AllWrittenOutside locals items →
      exprTexts ⟨model', options⟩ locals items = exprTexts ⟨model, options⟩ locals items
  | [], _ => rfl
  | item :: rest, hitems => by
    rw [exprTexts, exprTexts, exprText_agrees h item hitems.1, exprTexts_agrees h rest hitems.2]

end

end Texts

/-! ## Everything together -/

/-- **What heeds that a variable shadows the global of its name, and what does not.** Take models that
differ only in what shadowed names stand for as values. The type of an expression is the same in all
of them exactly if it is not taken from a function of such a name, and so is what is a call of a
built-in exactly if the callee is not such a name. Receivers are made explicit in the same way and
the text is the same, also if it is an error, wherever the types that decide about them are so. -/
theorem shadowing_respected_iff (locals : Locals) (value : Expr) :
    ((∀ model model' : TypedModel, AgreeOutside locals model model' →
        model'.typeOf locals value = model.typeOf locals value) ↔ value.TypedOutside locals) ∧
    (∀ builtin, (∀ model model' : TypedModel, AgreeOutside locals model model' →
        Address.isBuiltinCall model' builtin value = Address.isBuiltinCall model builtin value) ↔
      ∀ span name, value = .ident span name → locals.binds name = false) ∧
    ∀ model model' : TypedModel, AgreeOutside locals model model' →
      (value.InjectedOutside locals → Walk.expr (Receiver.injecting model' locals) value
        = Walk.expr (Receiver.injecting model locals) value) ∧
      (value.WrittenOutside locals → ∀ options,
        exprText ⟨model', options⟩ locals value = exprText ⟨model, options⟩ locals value) :=
  ⟨TypedModel.typeOf_respects_iff locals value,
    fun builtin => Address.isBuiltinCall_respects_iff locals builtin value,
    fun _ _ h => ⟨Receiver.inject_agrees h value, fun hvalue _ => exprText_agrees h value hvalue⟩⟩

section Windows

open Build

/-- A function with a parameter of the name of a built-in, which it calls. -/
def callingProgram : Program :=
  Build.program [function "main" [param "addressof" (keyword .number)] void
    [exprStmt (call (ident "consume") [call (ident "addressof") [call (ident "make") []]])]]

/-- Windows that native code provides. -/
def nativeWindows : Program :=
  Build.program [declared (classOf "Window" [method "close" [] void []])]

/-- Functions of the runtime: a built-in, one that makes windows and one that takes them. -/
def windowRuntime : Program :=
  Build.program [declaredFunction "addressof" [param "value" (type "Window")] (type "Window"),
    declaredFunction "make" [] (type "Window"),
    declaredFunction "consume" [param "value" (type "Window")] void]

def windowTables (more : List Program) : Tables :=
  (Tables.build (Model.sources callingProgram (nativeWindows :: more))).toOption.getD {}

def windowModel (more : List Program) : TypedModel := (windowTables more).names.model

/-- Variables with the names of the functions of the runtime. -/
def shadowingLocals : Locals :=
  (((Locals.start none).declare "addressof" (.primitive .number)).declare "make" .function).declare
    "consume" .function

theorem windowModel_agrees :
    AgreeOutside shadowingLocals (windowModel []) (windowModel [windowRuntime]) := by
  obtain ⟨window, main, consume, make, addressof, hbare, hfull⟩ :
      ∃ window main consume make addressof,
        (windowTables []).values = [("main", main), ("Window", window)] ∧
        (windowTables [windowRuntime]).values = [("main", main), ("consume", consume),
          ("make", make), ("addressof", addressof), ("Window", window)] :=
    ⟨_, _, _, _, _, rfl, rfl⟩
  refine ⟨fun _ => rfl, fun _ => rfl, fun name hname => ?_⟩
  have hconsume : (name == "consume") = false := beq_false_of_ne (by rintro rfl; cases hname)
  have hmake : (name == "make") = false := beq_false_of_ne (by rintro rfl; cases hname)
  have haddressof : (name == "addressof") = false :=
    beq_false_of_ne (by rintro rfl; cases hname)
  simp [windowModel, Names.model, Tables.names, Tables.resolve?, hbare, hfull, List.lookup_cons,
    hconsume, hmake, haddressof]

/-- The call of a variable that shadows a function is written without regard to the function. -/
theorem shadowing_respected_iff_make :
    AgreeOutside shadowingLocals (windowModel []) (windowModel [windowRuntime]) ∧
      exprText ⟨windowModel [windowRuntime], {}⟩ shadowingLocals (call (ident "make") [])
        = exprText ⟨windowModel [], {}⟩ shadowingLocals (call (ident "make") []) := by
  obtain ⟨-, -, hboth⟩ := shadowing_respected_iff shadowingLocals (call (ident "make") [])
  obtain ⟨-, htext⟩ := hboth _ _ windowModel_agrees
  refine ⟨windowModel_agrees, htext ⟨?_, trivial, trivial⟩ {}⟩
  rintro span name ⟨⟩ hfree
  cases hfree

/-- The type of that call is taken from the function all the same, and so are its owner, what is
written for its members and what is a call of a built-in. So the operand of a variable gets a
temporary. -/
theorem shadowed_functions_heeded :
    Model.build callingProgram [nativeWindows] = .ok (windowModel []) ∧
    Model.build callingProgram [nativeWindows, windowRuntime] = .ok (windowModel [windowRuntime]) ∧
    AgreeOutside shadowingLocals (windowModel []) (windowModel [windowRuntime]) ∧
    (windowModel [windowRuntime]).typeOf shadowingLocals (call (ident "make") [])
      ≠ (windowModel []).typeOf shadowingLocals (call (ident "make") []) ∧
    Address.isBuiltinCall (windowModel [windowRuntime]) .addressOf (ident "addressof")
      ≠ Address.isBuiltinCall (windowModel []) .addressOf (ident "addressof") ∧
    Walk.expr (Receiver.injecting (windowModel [windowRuntime]) shadowingLocals)
        (methodCall (call (ident "make") []) "close" [])
      ≠ Walk.expr (Receiver.injecting (windowModel []) shadowingLocals)
        (methodCall (call (ident "make") []) "close" []) ∧
    exprText ⟨windowModel [windowRuntime], {}⟩ shadowingLocals
        (property (call (ident "make") []) "close")
      ≠ exprText ⟨windowModel [], {}⟩ shadowingLocals
        (property (call (ident "make") []) "close") ∧
    (generate {} callingProgram [nativeWindows, windowRuntime]).toOption = some
      ("void tscc_main(double addressof)\n\x7b\n    std::shared_ptr<tscc_Window> _tscc_temp_1;\n" ++
        "    tscc_consume((_tscc_temp_1 = tscc_make(), addressof(_tscc_temp_1)));\n\x7d\n") := by
  refine ⟨Model.build_eq_ok.mpr ⟨windowTables [], rfl, rfl⟩,
    Model.build_eq_ok.mpr ⟨windowTables [windowRuntime], rfl, rfl⟩, windowModel_agrees,
    ?_, ?_, ?_, ?_, ?_⟩
  · decide +kernel
  · decide +kernel
  · intro hsame
    have hrun := congrArg (fun step : ExprM Expr =>
      (step.run ⟨1, []⟩).toOption.map fun entry => entry.1.typedBy?) hsame
    revert hrun
    decide +kernel
  · intro hsame
    have hrun := congrArg Except.toOption hsame
    revert hrun
    decide +kernel
  · decide +kernel

end Windows

end NativeLowering
