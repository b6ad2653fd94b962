import NativeLowering.Proofs.Parens.Text
import NativeLowering.Proofs.Receiver.Passes

/-!
# Passes over more parentheses

Two walks are in tandem if they succeed or fail together, from states that match to states that match,
with related results (`Walk.InTandem`). The injection of receivers and the variables for operands go
over an expression and over the same expression with more parentheses in tandem: the results differ by
parentheses alone (`injecting_parenthesizes`, `materializeCall_parenthesizes`). So a call is rewritten in one
exactly if the call is in the other.
-/

set_option autoImplicit false

namespace NativeLowering

open Lowered (Corresponds)

namespace Walk

/-- The declarations of one variable, with the annotation of one type. Spans may differ. -/
inductive SameVariable : Stmt → Stmt → Prop
  | intro {span span' : Span} {name : String} {type : Ty} {node node' : TypeNode} :
      type.toTypeNode? span = some node → type.toTypeNode? span' = some node' →
      SameVariable (Address.declaration span name node) (Address.declaration span' name node')

/-- The same variables are asked for, and the next has the same number. -/
structure Pending.Matches (pending pending' : Pending) : Prop where
  next : pending'.next = pending.next
  before : List.Forall₂ SameVariable pending.before pending'.before

section InTandem

variable {α β γ δ : Type} {R : α → β → Prop}

/-- From states that match, both steps succeed, with related results in states that match, or both
fail with the same message. -/
def InTandem (R : α → β → Prop) (first : ExprM α) (second : ExprM β) : Prop :=
  ∀ pending pending', pending.Matches pending' →
    Corresponds (fun entry entry' => R entry.1 entry'.1 ∧ entry.2.Matches entry'.2)
      (first.run pending) (second.run pending')

theorem InTandem.pure {result : α} {result' : β} (h : R result result') :
    InTandem R (pure result) (pure result') := fun _ _ hpending => .ok ⟨h, hpending⟩

theorem InTandem.lift {computed : Lowered α} {computed' : Lowered β}
    (h : Corresponds R computed computed') : InTandem R (liftM computed) (liftM computed') := by
  intro pending pending' hpending
  cases h with
  | ok hresult => exact .ok ⟨hresult, hpending⟩
  | error hmessage => exact .error hmessage

theorem InTandem.bind {S : γ → δ → Prop} {first : ExprM α} {second : ExprM β} {next : α → ExprM γ}
    {next' : β → ExprM δ} (h : InTandem R first second)
    (hnext : ∀ result result', R result result' → InTandem S (next result) (next' result')) :
    InTandem S (first >>= next) (second >>= next') := by
  intro pending pending' hpending
  exact (h _ _ hpending).bind fun entry entry' hentry => hnext _ _ hentry.1 _ _ hentry.2

theorem InTandem.imp {S : α → β → Prop} {first : ExprM α} {second : ExprM β}
    (h : InTandem R first second) (himp : ∀ result result', R result result' → S result result') :
    InTandem S first second := by
  intro pending pending' hpending
  rw [← bind_pure (first.run pending), ← bind_pure (second.run pending')]
  exact (h _ _ hpending).bind fun entry entry' hentry => .ok ⟨himp _ _ hentry.1, hentry.2⟩

end InTandem

end Walk

open Walk (InTandem)
open Receiver (OnlyCalls)

/-! ## Visits that treat calls alike -/

section Visits

/-- What becomes of an expression and of the one with more parentheses is the same but for
parentheses. Neither becomes the current instance, a name or a member, or ceases to be one. -/
structure Parallel (value value' result result' : Expr) : Prop where
  encloses : result.Encloses False result'
  this : result.isThis = value.isThis
  named : result.isNamed = value.isNamed
  named' : result'.isNamed = value'.isNamed

/-- A visit that leaves alone whatever is not a call, and does the same to a call with more
parentheses. -/
structure Parenthesizes (visit : Expr → Walk.ExprM Expr) : Prop where
  onlyCalls : OnlyCalls visit
  calls : ∀ {span span' : Span} {callee callee' : Expr} {typeArgs typeArgs' : Option (List TypeNode)}
    {args args' : List Expr},
    (Expr.call span callee typeArgs args).Encloses False (.call span' callee' typeArgs' args') →
    InTandem (Parallel (.call span callee typeArgs args) (.call span' callee' typeArgs' args'))
      (visit (.call span callee typeArgs args)) (visit (.call span' callee' typeArgs' args'))

variable {visit : Expr → Walk.ExprM Expr}

/-- What the visit leaves alone on both sides. -/
theorem Parenthesizes.alone (h : Parenthesizes visit) {value value' result result' : Expr}
    (hcall : result.isCall = false) (hcall' : result'.isCall = false)
    (hresult : Parallel value value' result result') :
    InTandem (Parallel value value') (visit result) (visit result') := by
  rw [h.onlyCalls result hcall, h.onlyCalls result' hcall']
  exact .pure hresult

theorem exprs_inTandem {items items' : List Expr}
    (h : List.Forall₂ (fun item item' =>
      InTandem (Parallel item item') (Walk.expr visit item) (Walk.expr visit item')) items items') :
    InTandem (List.Forall₂ (Expr.Encloses False)) (Walk.exprs visit items)
      (Walk.exprs visit items') := by
  induction h with
  | nil => exact .pure .nil
  | cons hitem _ ih =>
    exact hitem.bind fun _ _ hresult => ih.bind fun _ _ hrest => .pure (.cons hresult.encloses hrest)

/-- **A visit that treats calls alike goes in tandem** over an expression and over the same with more
parentheses. -/
theorem expr_inTandem (hvisit : Parenthesizes visit) {value value' : Expr}
    (h : value.Encloses False value') :
    InTandem (Parallel value value') (Walk.expr visit value) (Walk.expr visit value') := by
  induction value' using Expr.ind generalizing value with
  | ident | thisRef | literal =>
    cases h
    exact hvisit.alone rfl rfl ⟨by constructor, rfl, rfl, rfl⟩
  | property span object name ih =>
    cases h with
    | property hobject =>
      exact (ih hobject).bind fun _ _ hresult =>
        hvisit.alone rfl rfl ⟨.property hresult.encloses, rfl, rfl, rfl⟩
  | call span callee typeArgs args ihcallee ihargs =>
    cases h with
    | call hcallee hnamed hargs =>
      refine (ihcallee hcallee).bind fun result result' hresult => ?_
      refine (exprs_inTandem (Expr.Encloses.forall₂ hargs ihargs)).bind fun _ _ hresults => ?_
      refine (hvisit.calls (.call hresult.encloses ?_ hresults)).imp fun _ _ hresult =>
        ⟨hresult.encloses, hresult.this, hresult.named, hresult.named'⟩
      rw [hresult.named', hresult.named, hnamed]
  | new span target args ih =>
    cases h with
    | new htarget hnamed hargs =>
      exact (exprs_inTandem (Expr.Encloses.forall₂ hargs ih)).bind fun _ _ hresults =>
        hvisit.alone rfl rfl ⟨.new htarget hnamed hresults, rfl, rfl, rfl⟩
  | binary span op left right ihleft ihright =>
    cases h with
    | binary hleft hright =>
      exact (ihleft hleft).bind fun _ _ hleft => (ihright hright).bind fun _ _ hright =>
        hvisit.alone rfl rfl ⟨.binary hleft.encloses hright.encloses, rfl, rfl, rfl⟩
  | unary span op operand ih =>
    cases h with
    | unary hoperand =>
      exact (ih hoperand).bind fun _ _ hresult =>
        hvisit.alone rfl rfl ⟨.unary hresult.encloses, rfl, rfl, rfl⟩
  | paren span inner ih =>
    cases h with
    | paren hinner =>
      exact (ih hinner).bind fun _ _ hresult =>
        hvisit.alone rfl rfl ⟨.paren hresult.encloses, rfl, rfl, rfl⟩
    | wrap hinner hthis =>
      -- On the left there is no node for the parentheses.
      rw [← bind_pure (Walk.expr visit value)]
      refine (ih hinner).bind fun result result' hresult => ?_
      rw [hvisit.onlyCalls _ rfl]
      exact .pure ⟨.wrap hresult.encloses fun h => hthis (hresult.this.symm.trans h), hresult.this,
        hresult.named, rfl⟩
  | comma span items ih =>
    cases h with
    | comma hitems =>
      exact (exprs_inTandem (Expr.Encloses.forall₂ hitems ih)).bind fun _ _ hresults =>
        hvisit.alone rfl rfl ⟨.comma hresults, rfl, rfl, rfl⟩
  | receiverCall span owner method args ih =>
    cases h with
    | receiverCall hargs =>
      exact (exprs_inTandem (Expr.Encloses.forall₂ hargs ih)).bind fun _ _ hresults =>
        hvisit.alone rfl rfl ⟨.receiverCall hresults, rfl, rfl, rfl⟩

end Visits

/-! ## Making receivers explicit -/

section Inject

open Receiver (owningClass addressOf argument injectCall injecting)

variable {model : Model} {locals : Locals}

theorem owningClass_corresponds (method : String) (span span' : Span) (type : Ty) :
    Corresponds Eq (owningClass model method span type) (owningClass model method span' type) := by
  induction type with
  | classTy name =>
    unfold owningClass
    split <;> exact .ok rfl
  | interfaceTy name =>
    unfold owningClass
    split
    · split
      · exact .fail ..
      · exact .ok rfl
    · exact .ok rfl
  | pointer inner ih =>
    unfold owningClass
    exact ih
  | _ => exact .ok rfl

theorem addressOf_corresponds {object object' : Expr} (h : object.Encloses False object') :
    Corresponds (Expr.Encloses False) (addressOf model object) (addressOf model object') := by
  unfold addressOf Receiver.builtinCallee
  cases model.builtin? .addressOf with
  | none => exact .fail ..
  | some symbol => exact .ok (.call .ident rfl (.cons h .nil))

/-- Parentheses never decide how a receiver is passed. -/
theorem argument_corresponds {object object' : Expr} (h : object.Encloses False object')
    (owner : String) (type : Ty) :
    Corresponds (Expr.Encloses False) (argument model owner object type)
      (argument model owner object' type) := by
  cases hthis : object.isThis with
  | true =>
    obtain ⟨span, rfl⟩ := Expr.eq_this hthis
    obtain ⟨span', rfl⟩ := Expr.eq_this (h.isThis.trans hthis)
    exact .ok h
  | false =>
    rw [Receiver.argument_value hthis, Receiver.argument_value (h.isThis.trans hthis)]
    split
    · exact .ok h
    · split
      · exact .ok h
      · exact addressOf_corresponds h
    · exact addressOf_corresponds h

/-- Only calls of members are made explicit. -/
theorem injectCall_stays {callee : Expr} (h : callee.memberName? = none) (span : Span)
    (typeArgs : Option (List TypeNode)) (args : List Expr) :
    injectCall model locals (.call span callee typeArgs args)
      = .ok (.call span callee typeArgs args) := by
  cases callee with
  | property => cases h
  | _ => rfl

variable [model.Typed]

theorem injectCall_corresponds {span span' : Span} {callee callee' : Expr}
    {typeArgs typeArgs' : Option (List TypeNode)} {args args' : List Expr}
    (h : (Expr.call span callee typeArgs args).Encloses False (.call span' callee' typeArgs' args')) :
    Corresponds (Parallel (.call span callee typeArgs args) (.call span' callee' typeArgs' args'))
      (injectCall model locals (.call span callee typeArgs args))
      (injectCall model locals (.call span' callee' typeArgs' args')) := by
  have hstay : Parallel (.call span callee typeArgs args) (.call span' callee' typeArgs' args')
      (.call span callee typeArgs args) (.call span' callee' typeArgs' args') := ⟨h, rfl, rfl, rfl⟩
  cases h with
  | call hcallee hnamed hargs =>
    cases callee' with
    | property place' object' name =>
      cases hcallee with
      | property hobject =>
        simp only [injectCall]
        by_cases hdestructor : name = Spelling.destructor
        · rw [if_pos hdestructor, if_pos hdestructor]
          exact .ok hstay
        · rw [if_neg hdestructor, if_neg hdestructor, hobject.typeOf]
          refine (owningClass_corresponds name span span' _).bind ?_
          rintro target _ rfl
          cases target with
          | none => exact .ok hstay
          | some owner =>
            exact (argument_corresponds hobject owner _).bind fun _ _ hreceiver =>
              .ok ⟨.receiverCall (.cons hreceiver hargs), rfl, rfl, rfl⟩
    | _ =>
      have hmember : callee.memberName? = none := by
        cases callee with
        | property => cases hcallee <;> cases hnamed
        | _ => rfl
      rw [injectCall_stays hmember, injectCall_stays rfl]
      exact .ok hstay

theorem injecting_parenthesizes : Parenthesizes (injecting model locals) where
  onlyCalls := Receiver.injecting_onlyCalls
  calls := fun h => .lift (injectCall_corresponds h)

end Inject

/-! ## Variables for operands -/

section Materialize

open Address (materializeCall isBuiltinCall throughTemporary)

variable {model : Model} {locals : Locals}

theorem isBuiltinCall_encloses {callee callee' : Expr} (h : callee.Encloses False callee')
    (hnamed : callee'.isNamed = callee.isNamed) (builtin : Vocabulary.Builtin) :
    isBuiltinCall model builtin callee' = isBuiltinCall model builtin callee := by
  cases callee' with
  | ident => cases h; rfl
  | _ =>
    cases callee with
    | ident => cases h <;> cases hnamed
    | _ => rfl

/-- Whether a type has an annotation does not depend on where it would stand. -/
theorem toTypeNode?_cases (type : Ty) (span span' : Span) :
    (type.toTypeNode? span = none ∧ type.toTypeNode? span' = none) ∨
      ∃ node node', type.toTypeNode? span = some node ∧ type.toTypeNode? span' = some node' := by
  induction type with
  | pointer inner ih =>
    rcases ih with ⟨hnone, hnone'⟩ | ⟨node, node', hnode, hnode'⟩
    · exact .inl (by simp [Ty.toTypeNode?, hnone, hnone'])
    · exact .inr (by simp [Ty.toTypeNode?, hnode, hnode'])
  | moduleTy | function | unknown => exact .inl ⟨rfl, rfl⟩
  | _ => exact .inr ⟨_, _, rfl, rfl⟩

theorem throughTemporary_encloses {span span' : Span} {callee callee' operand operand' : Expr}
    (hcallee : callee.Encloses False callee') (hnamed : callee'.isNamed = callee.isNamed)
    (hoperand : operand.Encloses False operand') (name : String) (typeArgs : Option (List TypeNode)) :
    (throughTemporary span name operand callee typeArgs).Encloses False
      (throughTemporary span' name operand' callee' typeArgs) :=
  .paren (.comma (.cons (.binary .ident hoperand)
    (.cons (.call hcallee hnamed (.cons .ident .nil)) .nil)))

theorem materializeCall_parenthesizes [model.Typed] :
    Parenthesizes (materializeCall model locals) where
  onlyCalls := Receiver.materializing_onlyCalls
  calls := by
    intro span span' callee callee' typeArgs typeArgs' args args' h
    have hstay : Parallel (.call span callee typeArgs args) (.call span' callee' typeArgs' args')
      (.call span callee typeArgs args) (.call span' callee' typeArgs' args') := ⟨h, rfl, rfl, rfl⟩
    cases h with
    | call hcallee hnamed hargs =>
      cases hargs with
      | nil => exact .pure hstay
      | cons hoperand hrest =>
        cases hrest with
        | cons => exact .pure hstay
        | nil =>
          rename_i operand operand'
          simp only [materializeCall, isBuiltinCall_encloses hcallee hnamed, hoperand.isAddressable,
            hoperand.typeOf]
          split
          · rcases toTypeNode?_cases (model.typeOf locals operand) operand.span operand'.span with
              ⟨hnone, hnone'⟩ | ⟨node, node', hnode, hnode'⟩
            · rw [hnone, hnone']
              exact fun _ _ _ => .error rfl
            · rw [hnode, hnode']
              -- The counters agree, so both get the same variable.
              rintro ⟨next, before⟩ ⟨_, before'⟩ ⟨rfl, hbefore⟩
              exact .ok ⟨⟨throughTemporary_encloses hcallee hnamed hoperand _ _, rfl, rfl, rfl⟩,
                rfl, List.rel_append hbefore (.cons (.intro hnode hnode') .nil)⟩
          · exact .pure hstay

end Materialize

end NativeLowering
