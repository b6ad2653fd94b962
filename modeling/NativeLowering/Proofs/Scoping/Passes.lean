import NativeLowering.Proofs.Pass.Run
import NativeLowering.Proofs.Receiver.Passes
import NativeLowering.Proofs.Scoping.Cleanup
import NativeLowering.Proofs.Scoping.Walk

/-!
# What the passes see

The selected passes over a body run with a log of what each sees (`PassSet.runLogged`); without the
log they are the passes (`runLogged_erases`). What they see agrees, and what they leave has the same
scopes, but for the variables of operands (`runLogged_agree`). For that it is enough to know what a
pass asks for: the injection of receivers asks for nothing (`injecting_declares`), and the
materialization of operands asks for such variables (`materializeCall_declares`).
-/

set_option autoImplicit false

namespace NativeLowering
namespace Walk

open Stmt (AllList)

/-! ## What visits ask for -/

section Asking

variable {α β : Type} {Q : Stmt → Prop}

/-- What the step asks for meets a condition. -/
def Asks (Q : Stmt → Prop) (step : ExprM α) : Prop :=
  ∀ (pending after : Pending) (result : α), step.run pending = .ok (result, after) →
    (∀ statement ∈ pending.before, Q statement) → ∀ statement ∈ after.before, Q statement

theorem Asks.pure (value : α) : Asks Q (Pure.pure value) := by
  intro pending after result h hbefore
  obtain ⟨-, rfl⟩ := Lowered.run_pure.mp h
  exact hbefore

theorem Asks.lift (computed : Lowered α) : Asks Q (liftM computed : ExprM α) := by
  intro pending after result h hbefore
  obtain ⟨-, rfl⟩ := Lowered.run_lift.mp h
  exact hbefore

theorem Asks.bind {first : ExprM α} {next : α → ExprM β} (h : Asks Q first)
    (hnext : ∀ value, Asks Q (next value)) : Asks Q (first >>= next) := by
  intro pending after result hrun hbefore
  obtain ⟨value, between, hfirst, hrest⟩ := Lowered.run_bind.mp hrun
  exact hnext value _ _ _ hrest (h _ _ _ hfirst hbefore)

variable {visit : Expr → ExprM Expr}

mutual

theorem expr_asks (h : ∀ value, Asks Q (visit value)) : ∀ value, Asks Q (expr visit value)
  | .ident .. => by
    rw [expr]
    exact h _
  | .thisRef _ => by
    rw [expr]
    exact h _
  | .literal .. => by
    rw [expr]
    exact h _
  | .property span object name => by
    rw [expr]
    exact (expr_asks h object).bind fun _ => h _
  | .call span callee typeArgs args => by
    rw [expr]
    exact (expr_asks h callee).bind fun _ => (exprs_asks h args).bind fun _ => h _
  | .new span target args => by
    rw [expr]
    exact (exprs_asks h args).bind fun _ => h _
  | .binary span op left right => by
    rw [expr]
    exact (expr_asks h left).bind fun _ => (expr_asks h right).bind fun _ => h _
  | .unary span op operand => by
    rw [expr]
    exact (expr_asks h operand).bind fun _ => h _
  | .paren span inner => by
    rw [expr]
    exact (expr_asks h inner).bind fun _ => h _
  | .comma span items => by
    rw [expr]
    exact (exprs_asks h items).bind fun _ => h _
  | .receiverCall span owner method args => by
    rw [expr]
    exact (exprs_asks h args).bind fun _ => h _

theorem exprs_asks (h : ∀ value, Asks Q (visit value)) : ∀ items, Asks Q (exprs visit items)
  | [] => by
    rw [exprs]
    exact .pure _
  | item :: rest => by
    rw [exprs]
    exact (expr_asks h item).bind fun _ => (exprs_asks h rest).bind fun _ => .pure _

end

/-- A visit asks for what it asks for at each part of an expression. -/
theorem declaring_of_asks {model : Model} {P : String × Ty → Prop} {visit : Visit}
    (h : ∀ locals value, Asks (Declares model P) (visit locals value)) :
    Declaring model P visit :=
  fun locals value _ _ _ _ hrun => expr_asks (h locals) value _ _ _ hrun (List.forall_mem_nil _)

end Asking

/-- A walk drops no annotation. -/
theorem body_annotated {model : Model} {visit : Visit} {locals : Locals}
    {statements result : List Stmt} (h : body model visit locals statements = .ok result)
    (hall : AllList (fun _ => True) (fun _ type => type.isSome) result) :
    AllList (fun _ => True) (fun _ type => type.isSome) statements := by
  have htrivial (body : List Stmt) : AllList (fun _ => True) (fun _ _ => True) body :=
    Stmt.allList_iff.mpr fun stmt _ => stmt.all_trivial
  refine (walk_transport (Q := fun _ => True) (.refl model _ _) (.unary fun _ _ _ _ _ before _ _ => ?_) rfl
    (htrivial statements) h).2.2 hall
  exact ⟨trivial, htrivial before⟩

/-! ## A pass that may be selected -/

/-- Walks a body, if that is selected, and logs what is visited. -/
def selectedLogged (selected : Bool) (model : Model) (visit : Visit) (locals : Locals)
    (statements : List Stmt) : Lowered (List Stmt × Log) :=
  if selected then bodyLogged model visit locals statements else return (statements, [])

/-- What a selected visit makes of an expression with these variables in scope. -/
def Becomes (selected : Bool) (visit : Visit) (there : Occurrence Expr) (result : Expr) : Prop :=
  if selected then ∃ locals next pending, locals.visible = there.visible ∧
    (expr (visit locals) there.node).run ⟨next, []⟩ = .ok (result, pending)
  else result = there.node

/-- An expression before a walk and after it. -/
structure Passed (selected : Bool) (visit : Visit) (P : String × Ty → Prop)
    (there result : Occurrence Expr) : Prop where
  visible : Inserted (fun binding => selected = true ∧ P binding) there.visible result.visible
  value : Becomes selected visit there result.node

variable {selected : Bool} {model : Model} {visit : Visit} {locals : Locals}

theorem selectedLogged_erases (statements : List Stmt) :
    Erases (selectedLogged selected model visit locals statements)
      (if selected then body model visit locals statements else return statements) := by
  unfold selectedLogged
  cases selected with
  | false => exact .pure _ _
  | true => exact bodyLogged_erases locals statements

theorem selectedLogged_annotated {statements result : List Stmt} {log : Log}
    (h : selectedLogged selected model visit locals statements = .ok (result, log))
    (hall : AllList (fun _ => True) (fun _ type => type.isSome) result) :
    AllList (fun _ => True) (fun _ type => type.isSome) statements := by
  have hplain := (selectedLogged_erases statements).eq_ok.mpr ⟨log, h⟩
  cases selected with
  | false =>
    cases hplain
    exact hall
  | true => exact body_annotated hplain hall

theorem selectedLogged_passed {P : String × Ty → Prop} (hvisit : Declaring model P visit)
    (hopen : locals.Open) {statements result : List Stmt} {log : Log}
    (hall : AllList (fun _ => True) (fun _ type => type.isSome) statements)
    (h : selectedLogged selected model visit locals statements = .ok (result, log)) :
    (selected = true →
      log.map Visited.occurrence = (Stmt.valuesAll model statements).found locals.visible) ∧
    List.Forall₂ (Passed selected visit P) ((Stmt.valuesAll model statements).found locals.visible)
      ((Stmt.valuesAll model result).found locals.visible) := by
  unfold selectedLogged at h
  cases selected with
  | false =>
    cases h
    refine ⟨?_, List.forall₂_same.mpr fun there _ => ⟨.refl _, rfl⟩⟩
    rintro ⟨⟩
  | true =>
    obtain ⟨after, hwalked⟩ := bodyLogged_walked hvisit hopen hall h
    refine ⟨fun _ => hwalked.occurrences, ?_⟩
    rw [← hwalked.occurrences, List.forall₂_map_left_iff]
    refine (hwalked.rewritten (.refl _)).imp fun visited there hrewritten => ?_
    obtain ⟨next, pending, hvalue⟩ := hrewritten.value
    exact ⟨hrewritten.visible.imp fun _ hbinding => ⟨rfl, hbinding⟩,
      visited.locals, next, pending, rfl, hvalue⟩

end Walk

/-- Destructor calls are put in with no annotation dropped. -/
theorem Cleanup.run_annotated {model : Model} {policy : DestructorPolicy} {locals : Locals}
    {body : List Stmt}
    (hall : Stmt.AllList (fun _ => True) (fun _ type => type.isSome) (run model policy locals body)) :
    Stmt.AllList (fun _ => True) (fun _ type => type.isSome) body := by
  refine (cleanup_transport (P := fun _ => True) (D := fun _ _ => True) policy (.refl model _ _)
    ?_ rfl (Stmt.allList_iff.mpr fun stmt _ => stmt.all_trivial)).2.2 hall
  intro span name type _
  exact ⟨trivial, Stmt.mapExprs_id _⟩

/-- Making receivers explicit asks for no variables. -/
theorem Receiver.injecting_declares (model : Model) :
    Walk.Declaring model (fun _ => False) (injecting model) :=
  Walk.declaring_of_asks fun _ _ => .lift _

/-- The variable of an operand. -/
def IsTemporary (binding : String × Ty) : Prop := ∃ number, binding.1 = Spelling.temporary number

theorem Address.declaration_declares (model : Model) (span : Span) (number : Nat) (type : TypeNode) :
    Walk.Declares model IsTemporary (declaration span (Spelling.temporary number) type) :=
  ⟨(Spelling.temporary number, model.typeFromNode type), ⟨number, rfl⟩, rfl⟩

/-- Giving operands variables asks for these. -/
theorem Address.materializeCall_declares (model : Model) :
    Walk.Declaring model IsTemporary (materializeCall model) := by
  refine Walk.declaring_of_asks fun locals value => ?_
  unfold materializeCall
  split
  · split
    · split
      · intro pending after result h
        cases h
      · rename_i type htype
        intro pending after result h hbefore
        cases h
        exact List.forall_mem_append.mpr ⟨hbefore,
          List.forall_mem_singleton.mpr (declaration_declares model _ _ _)⟩
    · exact .pure _
  · exact .pure _

/-! ## All passes -/

theorem forall₂_comp {α β γ : Type} {R : α → β → Prop} {S : β → γ → Prop} :
    ∀ {first : List α} {second : List β} {third : List γ}, List.Forall₂ R first second →
      List.Forall₂ S second third → List.Forall₂ (Relation.Comp R S) first third
  | _, _, _, .nil, .nil => .nil
  | _, _, _, .cons h hrest, .cons h' hrest' => .cons ⟨_, h, h'⟩ (forall₂_comp hrest hrest')

namespace PassSet

open Stmt (AllList)

/-- What the passes over a body see. One that is not selected sees nothing. -/
structure Log where
  cleanup : Cleanup.Log
  receiver : Walk.Log
  address : Walk.Log

/-- Adds destructor calls, if that is selected, and logs the declarators met. -/
def cleanedLogged (passes : PassSet) (model : Model) (policy : DestructorPolicy) (locals : Locals)
    (body : List Stmt) : List Stmt × Cleanup.Log :=
  if passes.destructors then Cleanup.runLogged model policy locals body else (body, [])

/-- Runs the selected passes over a body and logs what they see. -/
def runLogged (passes : PassSet) (model : Model) (policy : DestructorPolicy) (locals : Locals)
    (body : List Stmt) : Lowered (List Stmt × Log) := do
  let (cleaned, cleanup) := cleanedLogged passes model policy locals body
  let (injected, receiver) ←
    Walk.selectedLogged passes.receiver model (Receiver.injecting model) locals cleaned
  let (lowered, address) ←
    Walk.selectedLogged passes.materialize model (Address.materializeCall model) locals injected
  return (lowered, { cleanup, receiver, address })

variable {passes : PassSet} {model : Model} {policy : DestructorPolicy} {locals : Locals}

theorem cleanedLogged_erases (body : List Stmt) :
    (cleanedLogged passes model policy locals body).1
      = if passes.destructors then Cleanup.run model policy locals body else body := by
  unfold cleanedLogged
  cases passes.destructors with
  | false => rfl
  | true => exact Cleanup.runLogged_erases locals body

/-- Without their log the passes are the passes. -/
theorem runLogged_erases (body : List Stmt) :
    Erases (passes.runLogged model policy locals body) (passes.run model policy locals body) := by
  rw [PassSet.run_eq, ← cleanedLogged_erases]
  refine (Walk.selectedLogged_erases _).bind ?_
  rintro ⟨injected, receiver⟩
  let log (address : Walk.Log) : Log :=
    { cleanup := (passes.cleanedLogged model policy locals body).2, receiver, address }
  exact (Walk.selectedLogged_erases injected).relog log

/-- What the selected passes make of an expression with these variables in scope. -/
def Becomes (passes : PassSet) (model : Model) (there : Occurrence Expr) (result : Expr) : Prop :=
  ∃ injected, Walk.Becomes passes.receiver (Receiver.injecting model) there injected ∧
    Walk.Becomes passes.materialize (Address.materializeCall model) ⟨there.visible, injected⟩ result

/-- The passes over a body see the same scopes, and so does what comes after them, but for the
variables of operands. An expression is found in the body once destructor calls are in it. -/
structure Agree (passes : PassSet) (model : Model) (visible : Bindings) (body : List Stmt)
    (log : Log) (found written : List (Occurrence Expr)) : Prop where
  calls : Inserted (fun there => passes.destructors = true ∧ Cleanup.IsCall there)
    ((Stmt.valuesAll model body).found visible) found
  cleanup : (log.cleanup.map Visited.occurrence).Sublist
    ((Stmt.declaratorsAll model body).found visible)
  receiver : passes.receiver = true → log.receiver.map Visited.occurrence = found
  address : passes.materialize = true → List.Forall₂
    (fun there injected => injected.visible = there.visible ∧
      Walk.Becomes passes.receiver (Receiver.injecting model) there injected.node)
    found (log.address.map Visited.occurrence)
  emit : List.Forall₂
    (fun there lowered =>
      Inserted (fun binding => passes.materialize = true ∧ IsTemporary binding) there.visible
        lowered.visible ∧
      passes.Becomes model there lowered.node)
    found written

theorem cleanedLogged_annotated {body : List Stmt}
    (hall : AllList (fun _ => True) (fun _ type => type.isSome)
      (cleanedLogged passes model policy locals body).1) :
    AllList (fun _ => True) (fun _ type => type.isSome) body := by
  rw [cleanedLogged_erases] at hall
  split at hall
  · exact Cleanup.run_annotated hall
  · exact hall

theorem cleanedLogged_inserts (body : List Stmt) (visible : Bindings) :
    Inserted (fun there => passes.destructors = true ∧ Cleanup.IsCall there)
      ((Stmt.valuesAll model body).found visible)
      ((Stmt.valuesAll model (cleanedLogged passes model policy locals body).1).found visible) := by
  rw [cleanedLogged_erases]
  split
  · rename_i hselected
    exact ((Cleanup.run_inserts locals body).found visible).imp fun _ hcall => ⟨hselected, hcall⟩
  · exact .refl _

theorem cleanedLogged_reaches (hopen : locals.Open) {body : List Stmt}
    (hall : AllList (fun _ => True) (fun _ type => type.isSome) body) :
    ((cleanedLogged passes model policy locals body).2.map Visited.occurrence).Sublist
      ((Stmt.declaratorsAll model body).found locals.visible) := by
  unfold cleanedLogged
  split
  · exact Cleanup.runLogged_reaches hopen hall
  · exact List.nil_sublist _

/-- **The passes see the same scopes.** -/
theorem runLogged_agree (hopen : locals.Open) {body lowered : List Stmt} {log : Log}
    (hall : AllList (fun _ => True) (fun _ type => type.isSome) lowered)
    (h : passes.runLogged model policy locals body = .ok (lowered, log)) :
    ∃ found, passes.Agree model locals.visible body log found
      ((Stmt.valuesAll model lowered).found locals.visible) := by
  obtain ⟨⟨injected, receiver⟩, (hinjected : Walk.selectedLogged passes.receiver model
    (Receiver.injecting model) locals (cleanedLogged passes model policy locals body).1
      = .ok (injected, receiver)), h⟩ := Lowered.bind_eq_ok.mp h
  obtain ⟨⟨lowered, address⟩, hlowered, h⟩ := Lowered.bind_eq_ok.mp h
  cases h
  -- Annotations are known of what is written, so they are carried backwards.
  have hall' := Walk.selectedLogged_annotated hlowered hall
  have hall'' := Walk.selectedLogged_annotated hinjected hall'
  obtain ⟨hreceiver, hinject⟩ :=
    Walk.selectedLogged_passed (Receiver.injecting_declares model) hopen hall'' hinjected
  obtain ⟨haddress, hmaterialize⟩ :=
    Walk.selectedLogged_passed (Address.materializeCall_declares model) hopen hall' hlowered
  refine ⟨_, cleanedLogged_inserts body _, cleanedLogged_reaches hopen
    (cleanedLogged_annotated hall''), hreceiver, fun hselected => ?_, ?_⟩
  · rw [haddress hselected]
    exact hinject.imp fun there result h => ⟨h.visible.eq_of_not fun _ h => h.2, h.value⟩
  -- Only the second walk puts variables in, so the scopes in between are those before it.
  · refine (forall₂_comp hinject hmaterialize).imp fun there result h => ?_
    obtain ⟨between, hfirst, hsecond⟩ := h
    have hvisible := hfirst.visible.eq_of_not fun _ h => h.2
    refine ⟨hvisible ▸ hsecond.visible, between.node, hfirst.value, ?_⟩
    rw [← hvisible]
    exact hsecond.value

end PassSet

end NativeLowering
