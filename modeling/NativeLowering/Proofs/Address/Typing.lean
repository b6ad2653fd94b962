import NativeLowering.Proofs.Emit.ExprText
import NativeLowering.Proofs.Address.Complete

/-!
# Types and materialized operands

A call whose operand gets a variable becomes an assignment and a call on the variable, in
parentheses. Its type stays: a list in parentheses has the type of its last item, and a call is typed
by its callee. So an expression has one type before and after the pass, whatever is in scope
(`materializing_typeOf`), and the variables need not be.

How a member access or a method call is written follows from the type of the object, and so does the
raw pointer that a receiver call takes from its receiver. `owners` lists these objects and
receivers, and what stands around each of them is written as it was (`WrittenAlike`). And a variable
is declared with the type that its operand has in the source, even if the operand holds operands with
variables of their own.
-/

set_option autoImplicit false

namespace NativeLowering.Address

/-! ## Objects and receivers -/

mutual

/-- The objects of the members and the receivers in an expression, in order. -/
def owners : Expr → List Expr
  | .ident .. | .thisRef _ | .literal .. => []
  | .property _ object _ => owners object ++ [object]
  | .call _ callee _ args => owners callee ++ ownersAll args
  | .new _ _ args => ownersAll args
  | .binary _ _ left right => owners left ++ owners right
  | .unary _ _ operand => owners operand
  | .paren _ inner => owners inner
  | .comma _ items => ownersAll items
  | .receiverCall _ _ _ args => ownersAll args ++ args.take 1

def ownersAll : List Expr → List Expr
  | [] => []
  | item :: rest => owners item ++ ownersAll rest

end

/-- What stands around an object or a receiver is written for the second expression as it is for the
first: only the text of the second stands in it. -/
structure WrittenAlike (cx : Context) (scope : Locals) (value result : Expr) : Prop where
  property : ∀ span name, exprText cx scope (.property span result name)
    = propertyText cx scope value name span (exprText cx scope result)
  method : ∀ span inner name typeArgs args,
    exprText cx scope (.call span (.property inner result name) typeArgs args)
      = methodCallText cx scope value name span (exprText cx scope result) (exprTexts cx scope args)
  receiver : ∀ span owner method args,
    exprText cx scope (.receiverCall span owner method (result :: args))
      = receiverCallText cx scope owner method (value :: args) span
          (exprTexts cx scope (result :: args))

section Alike

variable {model : Model}

/-- Members are written by the type of the object and by whether it is the current instance. -/
theorem Kept.writtenAlike {cx : Context} {value result : Expr} (h : Kept cx.model value result)
    (scope : Locals) : WrittenAlike cx scope value result := by
  have hproperty (name : String) (span : Span) (text : Lowered String) :
      propertyText cx scope result name span text = propertyText cx scope value name span text := by
    simp only [propertyText, memberText, h.type, h.isThis]
  have hhandle : isSharedHandle cx scope result = isSharedHandle cx scope value := by
    simp only [isSharedHandle, h.type]
  refine ⟨fun span name => ?_, fun span inner name typeArgs args => ?_,
    fun span owner method args => ?_⟩
  · rw [exprText, hproperty]
  · rw [exprText]
    simp only [methodCallText, hproperty, memberText, h.type, h.isThis]
  · rw [exprText]
    simp only [receiverCallText, hhandle]

/-- The assignment and the call on the variable hold what the call on the operand held. -/
theorem owners_thread (number : Nat) (span : Span) (callee : Expr)
    (typeArgs : Option (List TypeNode)) (args : List Expr) :
    owners (thread model number (.call span callee typeArgs args))
      = owners (.call span callee typeArgs args) := by
  unfold thread
  split
  · rename_i operand heq
    obtain ⟨rfl, rfl, rfl, rfl⟩ := Expr.call.inj heq
    split
    · rename_i hneeds
      -- The callee is a name, so no object of it stands before the operand.
      have hcallee : owners callee = [] := by
        cases callee with
        | ident => rfl
        | _ => simp [isBuiltinCall] at hneeds
      simp [throughTemporary, owners, ownersAll, hcallee]
    · rfl
  · rfl

theorem kept_ownersAll {items : List Expr}
    (h : ∀ item ∈ items, ∀ next,
      List.Forall₂ (Kept model) (owners item) (owners (threaded model next item)))
    (next : Nat) :
    List.Forall₂ (Kept model) (ownersAll items) (ownersAll (threadedAll model next items)) := by
  induction items generalizing next with
  | nil => exact .nil
  | cons item rest ih =>
    exact List.rel_append (h item (by simp) next) (ih (fun other hm => h other (by simp [hm])) _)

variable [model.Typed]

/-- Objects and receivers stay in order, and what is looked at of them stays. -/
theorem kept_owners (value : Expr) : ∀ next,
    List.Forall₂ (Kept model) (owners value) (owners (threaded model next value)) := by
  induction value using Expr.ind with
  | ident | thisRef | literal => exact fun next => .nil
  | property span object name hobject =>
    intro next
    exact List.rel_append (hobject next) (.cons (kept_threaded object next) .nil)
  | call span callee typeArgs args hcallee hargs =>
    intro next
    rw [threaded, owners_thread]
    exact List.rel_append (hcallee next) (kept_ownersAll hargs _)
  | new span target args hargs => exact kept_ownersAll hargs
  | binary span op left right hleft hright =>
    intro next
    exact List.rel_append (hleft next) (hright _)
  | unary span op operand hoperand => exact hoperand
  | paren span inner hinner => exact hinner
  | comma span items hitems => exact kept_ownersAll hitems
  | receiverCall span owner method args hargs =>
    intro next
    have hkept : List.Forall₂ (Kept model) args (threadedAll model next args) :=
      kept_threadedAll (fun arg _ => kept_threaded arg) next
    exact List.rel_append (kept_ownersAll hargs next) (List.forall₂_take 1 hkept)

end Alike

/-! ## The rewriting of an expression -/

/-- What a successful visit of an expression leaves and what it asks for. -/
theorem threaded_of_run {model : Model} [model.Typed] {locals : Locals} {value result : Expr}
    {pending after : Walk.Pending}
    (h : (Walk.expr (materializeCall model locals) value).run pending = .ok (result, after)) :
    result = threaded model pending.next value ∧
      after.before
        = pending.before ++ declarations model pending.next (exprSites model locals value) := by
  have hvisit := @visits_expr model _ locals value pending.next pending.before
  unfold Settles at hvisit
  rw [hvisit] at h
  obtain ⟨_, -, hresult⟩ := Lowered.map_eq_ok.mp h
  obtain ⟨rfl, rfl⟩ := Prod.mk.inj hresult
  exact ⟨rfl, rfl⟩

/-- **Materialization keeps types.** An expression has the type it had, whatever is in scope, and
denotes a storage location if it did. Every member access, method call and receiver call in it finds
the object it found. And the variables that the expression asks for are declared with the types of
the operands as they stood in it. -/
theorem materializing_typeOf {model : Model} [model.Typed] {locals : Locals} {value result : Expr}
    {pending after : Walk.Pending}
    (h : (Walk.expr (materializeCall model locals) value).run pending = .ok (result, after)) :
    (∀ scope, model.typeOf scope result = model.typeOf scope value) ∧
    result.isAddressable = value.isAddressable ∧
    (∀ cx scope, cx.model = model →
      List.Forall₂ (WrittenAlike cx scope) (owners value) (owners result)) ∧
    after.before
      = pending.before ++ declarations model pending.next (exprSites model locals value) := by
  obtain ⟨rfl, hbefore⟩ := threaded_of_run h
  have hkept : Kept model value (threaded model pending.next value) :=
    kept_threaded value pending.next
  refine ⟨hkept.type, hkept.isAddressable, ?_, hbefore⟩
  rintro cx scope rfl
  exact (kept_owners value pending.next).imp fun _ _ hkept => hkept.writtenAlike scope

/-! ## A chain of calls -/

section Chain

open Build

/-- A function that makes a number, one that takes addresses, and a class of nodes in a list. -/
def listing : Program :=
  program [declaredFunction "addressof" [] (keyword .number),
    declaredFunction "make" [] (keyword .number),
    classOf "Node" [method "next" [param "step" (keyword .number)] (type "Node") []]]

/-- A node. -/
def listingLocals : Locals := (Locals.start none).declare "head" (.classTy "Node")

/-- A call on what another call returns, and both are passed addresses of numbers that are made. The
second is the address of an address. -/
def chained : Expr :=
  methodCall (methodCall (ident "head") "next" [addressOfMade]) "next"
    [call (ident "addressof") [addressOfMade]]

theorem materializing_typeOf_chained : ∃ model result after, Model.build listing [] = .ok model ∧
    (Walk.expr (materializeCall model listingLocals) chained).run ⟨1, []⟩ = .ok (result, after) ∧
    after.next = 4 ∧
    (∀ scope, model.typeOf scope result = model.typeOf scope chained) ∧
    model.typeOf listingLocals result = .classTy "Node" := by
  obtain ⟨model, hmodel⟩ : ∃ model, Model.build listing [] = .ok model := ⟨_, rfl⟩
  obtain ⟨result, after, hresult, hafter⟩ : ∃ result after,
      (Walk.expr (materializeCall model listingLocals) chained).run ⟨1, []⟩
        = .ok (result, after) ∧ after.next = 4 := by
    cases hmodel
    exact ⟨_, _, rfl, rfl⟩
  obtain ⟨htype, -⟩ := materializing_typeOf hresult
  refine ⟨model, result, after, hmodel, hresult, hafter, htype, ?_⟩
  rw [htype]
  cases hmodel
  rfl

end Chain

end NativeLowering.Address
