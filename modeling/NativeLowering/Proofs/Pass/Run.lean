import NativeLowering.Proofs.Pass.Transport

/-!
# The selected passes as one

The passes over a body run in a fixed order, each if it is asked for. `passes_transport` carries two
corresponding bodies through all of them, given that each pass carries them.

What a visit does to an expression is put together from what it does to the parts. `Walk.Alike`
compares two visits step by step, so that the walk's state stays out of the comparison.
-/

set_option autoImplicit false

namespace NativeLowering
namespace Walk

open Stmt (AllList mapList)

/-! ## Visits that do the same -/

section Alike

variable {α β γ δ : Type} {m : Expr → Expr} {Q : Expr → Prop} {D : DeclCondition}

/-- Whenever the first step succeeds so does the second, with a related result, and what they ask
for corresponds. Nothing depends on what was asked for before. -/
def Alike (m : Expr → Expr) (Q : Expr → Prop) (D : DeclCondition) (R : α → β → Prop)
    (first : ExprM α) (second : ExprM β) : Prop :=
  ∀ (pending after : Pending) (result : α), first.run pending = .ok (result, after) →
    ∃ result' added, R result result' ∧ AllList Q D added ∧
      after.before = pending.before ++ added ∧
      ∀ earlier, second.run ⟨pending.next, earlier⟩
        = .ok (result', ⟨after.next, earlier ++ mapList m added⟩)

theorem Alike.pure {R : α → β → Prop} {result : α} {result' : β} (h : R result result') :
    Alike m Q D R (pure result) (pure result') := by
  intro pending after value hrun
  obtain ⟨rfl, rfl⟩ := Lowered.run_pure.mp hrun
  refine ⟨result', [], h, trivial, (List.append_nil _).symm, fun earlier => ?_⟩
  rw [mapList, List.append_nil]
  rfl

theorem Alike.lift {R : α → β → Prop} {computed : Lowered α} {computed' : Lowered β}
    (h : ∀ result, computed = .ok result → ∃ result', computed' = .ok result' ∧ R result result') :
    Alike m Q D R (liftM computed) (liftM computed') := by
  intro pending after value hrun
  obtain ⟨hvalue, rfl⟩ := Lowered.run_lift.mp hrun
  obtain ⟨result', hresult', hR⟩ := h value hvalue
  refine ⟨result', [], hR, trivial, (List.append_nil _).symm, fun earlier => ?_⟩
  rw [mapList, List.append_nil]
  exact Lowered.run_lift.mpr ⟨hresult', rfl⟩

theorem Alike.bind {R : α → β → Prop} {S : γ → δ → Prop} {first : ExprM α} {second : ExprM β}
    {next : α → ExprM γ} {next' : β → ExprM δ} (h : Alike m Q D R first second)
    (hnext : ∀ result result', R result result' → Alike m Q D S (next result) (next' result')) :
    Alike m Q D S (first >>= next) (second >>= next') := by
  intro pending after value hrun
  obtain ⟨result, between, hfirst, hrest⟩ := Lowered.run_bind.mp hrun
  obtain ⟨result', added, hR, hadded, hbefore, hsecond⟩ := h _ _ _ hfirst
  obtain ⟨value', more, hS, hmore, hbefore', hrest'⟩ := hnext _ _ hR _ _ _ hrest
  refine ⟨value', added ++ more, hS, Stmt.allList_append.mpr ⟨hadded, hmore⟩, ?_, fun earlier => ?_⟩
  · rw [hbefore', hbefore, List.append_assoc]
  · rw [Stmt.mapList_append, ← List.append_assoc]
    exact Lowered.run_bind.mpr ⟨result', _, hsecond earlier, hrest' _⟩

theorem Alike.imp {R S : α → β → Prop} {first : ExprM α} {second : ExprM β}
    (h : Alike m Q D R first second) (himp : ∀ result result', R result result' → S result result') :
    Alike m Q D S first second := by
  intro pending after value hrun
  obtain ⟨result', added, hR, hrest⟩ := h _ _ _ hrun
  exact ⟨result', added, himp _ _ hR, hrest⟩

end Alike

/-- A visit carries corresponding expressions if it does the same to them. -/
theorem VisitTransport.of_alike {m : Expr → Expr} {ρ : Locals → Locals → Prop} {P Q : Expr → Prop}
    {D : DeclCondition} {B C : Expr → Prop} {visit visit' : Visit}
    (h : ∀ locals locals' value, ρ locals locals' → P value →
      Alike m Q D (fun result result' => result' = m result ∧ Q result ∧ (C result → B value))
        (expr (visit locals) value) (expr (visit' locals') (m value))) :
    VisitTransport m ρ P Q D B C visit visit' := by
  intro locals locals' value result next last before hlocals hvalue hrun
  obtain ⟨result', added, ⟨rfl, hresult, hback⟩, hadded, hbefore, hrun'⟩ :=
    h locals locals' value hlocals hvalue _ _ _ hrun
  obtain rfl : before = added := hbefore
  exact ⟨hresult, hback, hadded, hrun' []⟩

/-- For one body alone, a visit has to lead from one condition to the other. -/
theorem VisitTransport.unary {P Q : Expr → Prop} {D : DeclCondition} {visit : Visit}
    (h : ∀ locals value result next last before, P value →
      (expr (visit locals) value).run ⟨next, []⟩ = .ok (result, ⟨last, before⟩) →
        Q result ∧ AllList Q D before) :
    VisitTransport id Eq P Q D (fun _ => True) (fun _ => True) visit visit := by
  intro locals locals' value result next last before hlocals hvalue hrun
  cases hlocals
  obtain ⟨hresult, hbefore⟩ := h locals value result next last before hvalue hrun
  refine ⟨hresult, fun _ => trivial, hbefore, ?_⟩
  rw [Stmt.mapList_id]
  exact hrun

end Walk

/-! ## All passes -/

open Stmt (AllList mapList)

/-- The passes that run, in their order. -/
theorem PassSet.run_eq (passes : PassSet) (model : Model) (policy : DestructorPolicy)
    (locals : Locals) (body : List Stmt) :
    passes.run model policy locals body =
      (let cleaned := if passes.destructors then Cleanup.run model policy locals body else body
       (if passes.receiver then Receiver.run model locals cleaned else pure cleaned) >>=
        fun injected =>
          if passes.materialize then Address.run model locals injected else pure injected) := by
  obtain ⟨destructors, receiver, materialize⟩ := passes
  have hlast (next : List Stmt → Lowered (List Stmt)) (body : List Stmt) :
      (next body >>= pure) = next body := bind_pure _
  cases destructors <;> cases receiver <;> cases materialize <;>
    first
    | rfl
    | exact hlast (Address.run model locals) _
    | exact bind_congr fun injected => hlast (Address.run model locals) injected

/-- Corresponding bodies correspond after the passes, if every pass carries them. If receivers are
not made explicit, the condition in the end has to be one that the bodies meet from the start. -/
theorem passes_transport {model model' : Model} {m : Expr → Expr} {ρ : Locals → Locals → Prop}
    {P Q : Expr → Prop} {D : DeclCondition} {B C : Expr → Prop} {E : DeclCondition}
    {passes : PassSet} (policy : DestructorPolicy)
    (hskip : passes.receiver = false → (∀ value, P value → Q value) ∧ ∀ value, C value → B value)
    (tracks : Tracks model model' m ρ P D) (tracks' : Tracks model model' m ρ Q D)
    (hcalls : Cleanup.CallsFit m P D)
    (hinject : Walk.VisitTransport m ρ P Q D B C
      (fun locals value => liftM (Receiver.injectCall model locals value))
      fun locals value => liftM (Receiver.injectCall model' locals value))
    (hmaterialize : Walk.VisitTransport m ρ Q Q D C C (Address.materializeCall model)
      (Address.materializeCall model'))
    {locals locals' : Locals} (hlocals : ρ locals locals') {body result : List Stmt}
    (hall : AllList P D body) (h : passes.run model policy locals body = .ok result) :
    AllList Q D result ∧
      passes.run model' policy locals' (mapList m body) = .ok (mapList m result) ∧
      (AllList C E result → AllList B E body) := by
  rw [PassSet.run_eq, Lowered.bind_eq_ok] at h
  obtain ⟨injected, hinjected, hresult⟩ := h
  rw [PassSet.run_eq, Lowered.bind_eq_ok]
  -- Destructor calls, if they are asked for.
  obtain ⟨cleaned, hcleaned, hall₁, hmap₁, hback₁⟩ : ∃ cleaned,
      (if passes.destructors then Cleanup.run model policy locals body else body) = cleaned ∧
      AllList P D cleaned ∧
      (if passes.destructors then Cleanup.run model' policy locals' (mapList m body)
        else mapList m body) = mapList m cleaned ∧
      (AllList B E cleaned → AllList B E body) := by
    cases passes.destructors with
    | false => exact ⟨body, rfl, hall, rfl, fun hback => hback⟩
    | true =>
      obtain ⟨hall', hmap, hback⟩ := Cleanup.cleanup_transport policy tracks hcalls hlocals hall
      exact ⟨_, rfl, hall', hmap, hback⟩
  rw [hcleaned] at hinjected
  rw [hmap₁]
  -- Receivers, if they are asked for.
  obtain ⟨hall₂, hmap₂, hback₂⟩ : AllList Q D injected ∧
      (if passes.receiver then Receiver.run model' locals' (mapList m cleaned)
        else pure (mapList m cleaned)) = .ok (mapList m injected) ∧
      (AllList C E injected → AllList B E cleaned) := by
    cases hr : passes.receiver with
    | false =>
      simp only [hr] at hinjected
      obtain rfl := Lowered.pure_eq_ok.mp hinjected
      obtain ⟨hforth, hback⟩ := hskip hr
      exact ⟨hall₁.imp hforth fun _ _ hd => hd, rfl, fun hlast => hlast.imp hback fun _ _ hd => hd⟩
    | true =>
      simp only [hr, if_true] at hinjected
      exact Walk.walk_transport tracks' hinject hlocals hall₁ hinjected
  -- Variables for operands, if they are asked for.
  cases hm : passes.materialize with
  | false =>
    simp only [hm] at hresult
    obtain rfl := Lowered.pure_eq_ok.mp hresult
    exact ⟨hall₂, ⟨_, hmap₂, rfl⟩, fun hback => hback₁ (hback₂ hback)⟩
  | true =>
    simp only [hm, if_true] at hresult
    obtain ⟨hall₃, hmap₃, hback₃⟩ := Walk.walk_transport tracks' hmaterialize hlocals hall₂ hresult
    exact ⟨hall₃, ⟨_, hmap₂, hmap₃⟩, fun hback => hback₁ (hback₂ (hback₃ hback))⟩

end NativeLowering
