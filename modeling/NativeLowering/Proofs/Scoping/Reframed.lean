import NativeLowering.Proofs.Receiver.Word
import NativeLowering.Proofs.Scoping.Operands

/-!
# The same variables in other frames

Bindings are looked up by name. How they are split into frames makes no difference to the type of an
expression, to what the passes do with it, or to its text. So bindings with the same variables in
scope and of the same class can stand for each other (`Locals.Reframed`).

Nor does the text of an expression depend on the passes that are selected (`exprText_reframed`).
-/

set_option autoImplicit false

namespace NativeLowering

/-- The same variables are in scope, in the same class, and a frame is open to declare more. -/
structure Locals.Reframed (locals other : Locals) : Prop where
  visible : other.visible = locals.visible
  thisClass : other.thisClass = locals.thisClass
  isOpen : locals.Open
  otherOpen : other.Open

namespace Locals.Reframed

variable {locals other : Locals}

theorem refl (h : locals.Open) : locals.Reframed locals := ⟨rfl, rfl, h, h⟩

/-- The frames on the two sides need not be of the same kind. -/
theorem push (h : locals.Reframed other) (kind otherKind : FrameKind) :
    (locals.push kind).Reframed (other.push otherKind) :=
  ⟨h.visible, h.thisClass, .push locals kind, .push other otherKind⟩

theorem pushOther (h : locals.Reframed other) (kind : FrameKind) :
    locals.Reframed (other.push kind) :=
  ⟨h.visible, h.thisClass, h.isOpen, .push other kind⟩

theorem declare (h : locals.Reframed other) (name : String) (type : Ty) :
    (locals.declare name type).Reframed (other.declare name type) where
  visible := by
    rw [Locals.visible_declare h.isOpen, Locals.visible_declare h.otherOpen, h.visible]
  thisClass := by rw [Locals.declare_thisClass, Locals.declare_thisClass, h.thisClass]
  isOpen := Locals.declare_frames_ne_nil h.isOpen name type
  otherOpen := Locals.declare_frames_ne_nil h.otherOpen name type

variable (h : locals.Reframed other)
include h

theorem lookup? (name : String) : other.lookup? name = locals.lookup? name := by
  rw [Locals.lookup?, Locals.lookup?, h.visible]

theorem binds (name : String) : other.binds name = locals.binds name := by
  rw [Locals.binds, Locals.binds, h.lookup?]

theorem requireThis (span : Span) :
    NativeLowering.requireThis other span = NativeLowering.requireThis locals span := by
  unfold NativeLowering.requireThis
  rw [h.thisClass]

variable (model : Model) [model.Typed]

theorem typeOf (value : Expr) : model.typeOf other value = model.typeOf locals value :=
  Model.typeOf_congr h.thisClass value fun name _ => h.lookup? name

theorem declaredType (decl : VariableDecl) :
    model.declaredType other decl = model.declaredType locals decl := by
  unfold Model.declaredType
  cases decl.type with
  | some node => rfl
  | none =>
    cases decl.init with
    | none => rfl
    | some init => exact h.typeOf model init

theorem declareLocal (decl : VariableDecl) :
    (NativeLowering.declareLocal model locals decl).Reframed
      (NativeLowering.declareLocal model other decl) := by
  unfold NativeLowering.declareLocal
  cases decl.name.ident? with
  | none => exact h
  | some name =>
    dsimp only
    rw [h.declaredType]
    exact h.declare name _

/-! ## The passes -/

theorem injectCall (value : Expr) :
    Receiver.injectCall model other value = Receiver.injectCall model locals value := by
  unfold Receiver.injectCall
  split
  · rw [h.typeOf]
  · rfl

theorem materializeCall (value : Expr) :
    Address.materializeCall model other value = Address.materializeCall model locals value := by
  unfold Address.materializeCall
  split
  · rw [h.typeOf]
  · rfl

end Locals.Reframed

/-! ## Texts -/

/-- The context with other passes selected. -/
def Context.withPasses (cx : Context) (passes : PassSet) : Context :=
  { cx with options := { cx.options with passes } }

theorem Context.withPasses_model (cx : Context) (passes : PassSet) :
    (cx.withPasses passes).model = cx.model := rfl

section Texts

variable {cx : Context} {locals other : Locals} (h : locals.Reframed other) (passes : PassSet)
include h

theorem instanceMemberText_reframed (member : String) (span : Span) :
    instanceMemberText (cx.withPasses passes) other member span
      = instanceMemberText cx locals member span := by
  unfold instanceMemberText
  rw [h.requireThis]
  rfl

theorem memberText_reframed (object : Expr) (owner : Ty) (member : String) (span : Span)
    (objectText : Lowered String) :
    memberText (cx.withPasses passes) other object owner member span objectText
      = memberText cx locals object owner member span objectText := by
  unfold memberText
  rw [instanceMemberText_reframed h]
  rfl

omit h in
theorem exprTexts_reframed {items : List Expr} (hitems : ∀ item ∈ items,
      exprText (cx.withPasses passes) other item = exprText cx locals item) :
    exprTexts (cx.withPasses passes) other items = exprTexts cx locals items := by
  induction items with
  | nil => rfl
  | cons item rest ih =>
    rw [exprTexts, exprTexts, hitems item (by simp),
      ih fun other hm => hitems other (by simp [hm])]

variable [cx.model.Typed]

theorem propertyText_reframed (object : Expr) (name : String) (span : Span)
    (objectText : Lowered String) :
    propertyText (cx.withPasses passes) other object name span objectText
      = propertyText cx locals object name span objectText := by
  unfold propertyText
  simp only [cx.withPasses_model, h.typeOf, instanceMemberText_reframed h, memberText_reframed h]
  rfl

theorem methodCallText_reframed (object : Expr) (name : String) (span : Span)
    (objectText : Lowered String) (argTexts : Lowered (List String)) :
    methodCallText (cx.withPasses passes) other object name span objectText argTexts
      = methodCallText cx locals object name span objectText argTexts := by
  unfold methodCallText
  simp only [cx.withPasses_model, h.typeOf, memberText_reframed h, propertyText_reframed h]
  rfl

theorem receiverCallText_reframed (owner method : String) (args : List Expr) (span : Span)
    (argTexts : Lowered (List String)) :
    receiverCallText (cx.withPasses passes) other owner method args span argTexts
      = receiverCallText cx locals owner method args span argTexts := by
  have hshared (value : Expr) :
      isSharedHandle (cx.withPasses passes) other value = isSharedHandle cx locals value := by
    unfold isSharedHandle
    rw [cx.withPasses_model, h.typeOf]
  unfold receiverCallText
  simp only [hshared]
  rfl

/-- **The text of an expression** depends on the variables in scope and the class. It depends on no
pass. -/
theorem exprText_reframed (value : Expr) :
    exprText (cx.withPasses passes) other value = exprText cx locals value := by
  induction value using Expr.indCallee with
  | ident span name =>
    rw [exprText, exprText, identText_eq, identText_eq, h.binds]
    rfl
  | thisRef span => rw [exprText, exprText, h.requireThis]
  | literal span value => rfl
  | property span object name ih => rw [exprText, exprText, propertyText_reframed h, ih]
  | call span callee typeArgs args ihcallee ihobject ihargs =>
    have hargs := exprTexts_reframed passes ihargs
    cases hnamed : callee.isNamed with
    | false => rw [exprText_call _ _ hnamed, exprText_call _ _ hnamed, ihcallee, hargs]
    | true =>
      cases callee with
      | ident place name =>
        rw [exprText, exprText, h.binds, hargs]
        rfl
      | property place object name =>
        rw [exprText, exprText, methodCallText_reframed h, ihobject place object name rfl, hargs]
      | _ => cases hnamed
  | new span target args ih =>
    rw [exprText, exprText, exprTexts_reframed passes ih]
    rfl
  | binary span op left right ihleft ihright => rw [exprText, exprText, ihleft, ihright]
  | unary span op operand ih => rw [exprText, exprText, ih]
  | paren span inner ih => rw [exprText, exprText, ih]
  | comma span items ih => rw [exprText, exprText, exprTexts_reframed passes ih]
  | receiverCall span owner method args ih =>
    rw [exprText, exprText, receiverCallText_reframed h, exprTexts_reframed passes ih]

end Texts

end NativeLowering
