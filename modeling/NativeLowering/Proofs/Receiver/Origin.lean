import NativeLowering.Proofs.Receiver.Typing

/-!
# Where receiver calls come from

The receiver calls of a body that has been through the passes go in pairs, in order, with the parts
of the body that become one. These are the method calls that get an explicit receiver, and the
receiver calls that were there before (`Receiver.Injected.explicit`). Variables for operands make no
receiver calls and lose none (`Address.receiverCalls_threaded`).
-/

set_option autoImplicit false

namespace NativeLowering

namespace Expr

def isReceiverCall : Expr → Bool
  | .receiverCall .. => true
  | _ => false

/-- The receiver calls among the parts of an expression. -/
def receiverCalls (value : Expr) : List Expr := value.parts.filter isReceiverCall

end Expr

/-- Two receiver calls with one target, whose arguments are related. -/
inductive SameCall (R : Expr → Expr → Prop) : Expr → Expr → Prop
  | intro {span : Span} {owner name : String} {args args' : List Expr} : List.Forall₂ R args args' →
      SameCall R (.receiverCall span owner name args) (.receiverCall span owner name args')

namespace Address

section Operands

variable {model : Model} {P : Expr × Nat → Prop}

/-- The second expression is the first with its operands in variables. The operands meet the
condition with the numbers of these. -/
def ThreadedWith (model : Model) (P : Expr × Nat → Prop) (value result : Expr) : Prop :=
  ∃ next, result = threaded model next value ∧
    ∀ numbered ∈ (operands model value).zipIdx next, P numbered

theorem threadedWith_all {items : List Expr} : ∀ {next : Nat},
    (∀ numbered ∈ (operandsAll model items).zipIdx next, P numbered) →
    List.Forall₂ (ThreadedWith model P) items (threadedAll model next items) := by
  induction items with
  | nil => exact fun _ => .nil
  | cons item rest ih =>
    intro next h
    rw [operandsAll, List.zipIdx_append] at h
    obtain ⟨hitem, hrest⟩ := List.forall_mem_append.mp h
    exact .cons ⟨next, rfl, hitem⟩ (ih hrest)

/-- A variable for the operand of a call changes no receiver call. -/
theorem receiverCalls_thread (number : Nat) (value : Expr) :
    (thread model number value).receiverCalls = value.receiverCalls := by
  unfold thread
  split
  · split
    · rename_i span callee typeArgs operand hthrough
      -- The callee is a name.
      cases callee with
      | ident => simp [Expr.receiverCalls, throughTemporary, Expr.parts, Expr.partsAll,
          Expr.isReceiverCall]
      | _ => simp [isBuiltinCall] at hthrough
    · rfl
  · rfl

theorem receiverCalls_threadedAll {items : List Expr}
    (h : ∀ item ∈ items, ∀ next,
      (∀ numbered ∈ (operands model item).zipIdx next, P numbered) →
      List.Forall₂ (SameCall (ThreadedWith model P)) item.receiverCalls
        (threaded model next item).receiverCalls) : ∀ {next : Nat},
    (∀ numbered ∈ (operandsAll model items).zipIdx next, P numbered) →
    List.Forall₂ (SameCall (ThreadedWith model P))
      ((Expr.partsAll items).filter Expr.isReceiverCall)
      ((Expr.partsAll (threadedAll model next items)).filter Expr.isReceiverCall) := by
  induction items with
  | nil => exact fun _ => .nil
  | cons item rest ih =>
    intro next hnumbered
    rw [operandsAll, List.zipIdx_append] at hnumbered
    obtain ⟨hitem, hrest⟩ := List.forall_mem_append.mp hnumbered
    rw [threadedAll, Expr.partsAll, Expr.partsAll, List.filter_append, List.filter_append]
    exact List.rel_append (h item (by simp) next hitem)
      (ih (fun other hother => h other (by simp [hother])) hrest)

/-- The receiver calls stay when operands get their variables. -/
theorem receiverCalls_threaded (value : Expr) : ∀ next : Nat,
    (∀ numbered ∈ (operands model value).zipIdx next, P numbered) →
    List.Forall₂ (SameCall (ThreadedWith model P)) value.receiverCalls
      (threaded model next value).receiverCalls := by
  induction value using Expr.ind with
  | ident | thisRef | literal => exact fun _ _ => .nil
  | property place object name hobject => exact hobject
  | call place callee typeArgs args hcallee hargs =>
    intro next h
    rw [operands, List.append_assoc, List.zipIdx_append] at h
    obtain ⟨hleft, h⟩ := List.forall_mem_append.mp h
    rw [List.zipIdx_append] at h
    obtain ⟨hright, -⟩ := List.forall_mem_append.mp h
    rw [threaded, receiverCalls_thread, Expr.receiverCalls, Expr.receiverCalls, Expr.parts,
      Expr.parts]
    simp only [List.filter_cons, List.filter_append, Expr.isReceiverCall, Bool.false_eq_true,
      if_false]
    exact List.rel_append (hcallee next hleft) (receiverCalls_threadedAll hargs hright)
  | new place target args hargs => exact fun next h => receiverCalls_threadedAll hargs h
  | binary place op left right hleft hright =>
    intro next h
    rw [operands, List.zipIdx_append] at h
    obtain ⟨hfirst, hsecond⟩ := List.forall_mem_append.mp h
    rw [threaded, Expr.receiverCalls, Expr.receiverCalls, Expr.parts, Expr.parts]
    simp only [List.filter_cons, List.filter_append, Expr.isReceiverCall, Bool.false_eq_true,
      if_false]
    exact List.rel_append (hleft next hfirst) (hright _ hsecond)
  | unary place op operand hoperand => exact hoperand
  | paren place inner hinner => exact hinner
  | comma place items hitems => exact fun next h => receiverCalls_threadedAll hitems h
  | receiverCall place target name args hargs =>
    exact fun next h => .cons (.intro (threadedWith_all h)) (receiverCalls_threadedAll hargs h)

end Operands

end Address

namespace Receiver

section Parts

variable {model : Model} {locals : Locals}

/-- Whether a method of a class is called on an object of the type. -/
def callsMethod (model : Model) (type : Ty) (name : String) : Bool :=
  name != Spelling.destructor &&
    match type.pointee with
    | .classTy owner => model.declaresMethod owner name
    | _ => false

theorem callsMethod_iff {type : Ty} {name : String} :
    callsMethod model type name = true ↔ ∃ owner, Calls model type name owner := by
  unfold callsMethod
  constructor
  · intro h
    obtain ⟨hname, hdeclares⟩ := Bool.and_eq_true_iff.mp h
    split at hdeclares
    · rename_i owner hpointee
      exact ⟨owner, bne_iff_ne.mp hname, hpointee, hdeclares⟩
    · cases hdeclares
  · rintro ⟨owner, hname, hpointee, hdeclares⟩
    rw [hpointee]
    exact Bool.and_eq_true_iff.mpr ⟨bne_iff_ne.mpr hname, hdeclares⟩

/-- Whether a part of an expression is a receiver call once the calls have their receivers. -/
def turns (model : Model) (locals : Locals) : Expr → Bool
  | .call _ (.property _ object name) _ _ =>
    callsMethod model (typeThrough model locals object) name
  | .receiverCall .. => true
  | _ => false

/-- A part of an expression and the receiver call that is there then: it is made for a method call,
or it has been there. -/
inductive Explicit (model : Model) (locals : Locals) : Expr → Expr → Prop
  | made {span place : Span} {source object receiver : Expr} {name owner : String}
      {typeArgs : Option (List TypeNode)} {args args' : List Expr} :
      Injected model locals source object → List.Forall₂ (Injected model locals) args args' →
      Calls model (model.typeOf locals object) name owner →
      Passes model owner object (model.typeOf locals object) receiver →
      Explicit model locals (.call span (.property place source name) typeArgs args)
        (.receiverCall span owner name (receiver :: args'))
  | there {span : Span} {owner name : String} {args args' : List Expr} :
      List.Forall₂ (Injected model locals) args args' →
      Explicit model locals (.receiverCall span owner name args)
        (.receiverCall span owner name args')

/-- What is passed as the receiver has the receiver calls of the object. -/
theorem Passes.receiverCalls {owner : String} {object receiver : Expr} {type : Ty}
    (h : Passes model owner object type receiver) :
    receiver.receiverCalls = object.receiverCalls := by
  cases h with
  | thisRef | pointer | handle => rfl
  | value => simp [Expr.receiverCalls, Expr.parts, Expr.partsAll, Expr.isReceiverCall]

/-- A call that gets no receiver is none of a class's method. -/
theorem turns_call [model.Typed] {span : Span} {callee callee' : Expr}
    {typeArgs : Option (List TypeNode)}
    {args : List Expr} (h : Injected model locals callee callee')
    (hother : ∀ place object name owner, callee' = .property place object name →
      ¬ Calls model (model.typeOf locals object) name owner) :
    turns model locals (.call span callee typeArgs args) = false := by
  cases h with
  | @property place object object' name hobject =>
    rw [turns, ← hobject.typeOf, ← Bool.not_eq_true, callsMethod_iff]
    rintro ⟨owner, hcalls⟩
    exact hother _ _ _ owner rfl hcalls
  | _ => rfl

theorem explicit_all {items results : List Expr}
    (h : ∀ item ∈ items, ∀ result, Injected model locals item result →
      List.Forall₂ (Explicit model locals) (item.parts.filter (turns model locals))
        result.receiverCalls)
    (hinjected : List.Forall₂ (Injected model locals) items results) :
    List.Forall₂ (Explicit model locals) ((Expr.partsAll items).filter (turns model locals))
      ((Expr.partsAll results).filter Expr.isReceiverCall) := by
  induction hinjected with
  | nil => exact .nil
  | @cons item result rest results hitem _ ih =>
    rw [Expr.partsAll, Expr.partsAll, List.filter_append, List.filter_append]
    exact List.rel_append (h item (by simp) result hitem)
      (ih fun other hother => h other (by simp [hother]))

/-- The receiver calls of an expression go in pairs with what they come from. -/
theorem Injected.explicit [model.Typed] (value : Expr) :
    ∀ result : Expr, Injected model locals value result →
    List.Forall₂ (Explicit model locals) (value.parts.filter (turns model locals))
      result.receiverCalls := by
  induction value using Expr.ind with
  | ident | thisRef | literal =>
    intro result h
    cases h
    exact .nil
  | property place object member hobject =>
    intro result h
    cases h with
    | @property _ _ object' _ hinjected => exact hobject object' hinjected
  | call place callee typeArgs args hcallee hargs =>
    intro result h
    cases h with
    | @method _ place source object _ name owner _ _ _ hobject hinjected hcalls hpasses =>
      have hturns : callsMethod model (typeThrough model locals source) name = true := by
        rw [← hobject.typeOf, callsMethod_iff]
        exact ⟨owner, hcalls⟩
      simp only [Expr.receiverCalls, Expr.parts, Expr.partsAll, List.filter_cons,
        List.filter_append, turns, hturns, Expr.isReceiverCall, if_true]
      refine .cons (.made hobject hinjected hcalls hpasses) ?_
      refine List.rel_append ?_ (explicit_all hargs hinjected)
      -- The callee is gone, but the receiver calls of its object are still there.
      rw [← Expr.receiverCalls, hpasses.receiverCalls]
      exact hcallee (.property place object name) (.property hobject)
    | call hinjected hinjected' hother =>
      rw [Expr.receiverCalls, Expr.parts, Expr.parts]
      simp only [List.filter_cons, List.filter_append, turns_call hinjected hother,
        Expr.isReceiverCall, Bool.false_eq_true, if_false]
      exact List.rel_append (hcallee _ hinjected) (explicit_all hargs hinjected')
  | new place target args hargs =>
    intro result h
    cases h with
    | new hinjected => exact explicit_all hargs hinjected
  | binary place op left right hleft hright =>
    intro result h
    cases h with
    | binary hinjected hinjected' =>
      rw [Expr.receiverCalls, Expr.parts, Expr.parts]
      simp only [List.filter_cons, List.filter_append, turns, Expr.isReceiverCall,
        Bool.false_eq_true, if_false]
      exact List.rel_append (hleft _ hinjected) (hright _ hinjected')
  | unary place op operand hoperand =>
    intro result h
    cases h with
    | @unary _ _ _ operand' hinjected => exact hoperand operand' hinjected
  | paren place inner hinner =>
    intro result h
    cases h with
    | @paren _ _ inner' hinjected => exact hinner inner' hinjected
  | comma place items hitems =>
    intro result h
    cases h with
    | comma hinjected => exact explicit_all hitems hinjected
  | receiverCall place target method args hargs =>
    intro result h
    cases h with
    | receiverCall hinjected => exact .cons (.there hinjected) (explicit_all hargs hinjected)

end Parts

end Receiver

end NativeLowering
