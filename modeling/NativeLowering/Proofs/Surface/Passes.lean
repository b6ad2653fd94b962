import NativeLowering.Proofs.Pass.Run
import NativeLowering.Proofs.Surface.Spared

/-!
# The passes with an addition

A body that spares an addition comes out of the passes the same, whether the model knows the
addition or not, and the result spares it as well (`passes_same`, `bindReceiver_same`). Variables may
get different types on the way, but only ones of which nothing is known.

The passes make up names: those of temporaries, of the receiver parameter and of built-ins. A
built-in is known under its name, so that is spared. The others are names of variables, which need
not be spared unless they are called. The one that can be called is the receiver parameter, where
the body calls the bare instance.
-/

set_option autoImplicit false

namespace NativeLowering

open Walk (Alike ExprM)
open Stmt (AllList mapList)

/-- The annotation of a variable is spared. -/
def Addition.SparesBinding (added : Addition) : DeclCondition :=
  fun _ type => added.SparesOption type

namespace Addition.Extended

variable {added : Addition} {model model' : Model} {thisCalled : Prop}
  (h : added.Extended model model')

/-! ## Destructor calls -/

section Cleanup

include h

theorem isDestructible_same (policy : DestructorPolicy) {type type' : Ty}
    (htype : Ty.Same added type type') :
    Cleanup.isDestructible model' policy type' = Cleanup.isDestructible model policy type := by
  rcases htype with ⟨heq, hspares⟩ | ⟨hblank, hblank'⟩
  · rw [heq]
    cases type with
    | classTy name => simp only [Cleanup.isDestructible, h.classInfo?_of_spares hspares.1]
    | _ => rfl
  · cases type <;> cases hblank <;> cases type' <;> cases hblank' <;> rfl

theorem tracks [model.Typed] [model'.Typed] :
    Tracks model model' id (Locals.Same added) (added.SparesExpr thisCalled)
      added.SparesBinding where
  push kind hlocals := hlocals.push kind
  destroyed policy hlocals hdecl := by
    rw [VariableDecl.mapExprs, Option.map_id]
    exact h.isDestructible_same policy (h.declaredType_same hlocals hdecl)
  declare hlocals hdecl _ := by
    rw [VariableDecl.mapExprs, Option.map_id]
    exact hlocals.declare _ (h.declaredType_same hlocals hdecl)

end Cleanup

theorem callsFit : Cleanup.CallsFit id (added.SparesExpr thisCalled) added.SparesBinding := by
  intro span name type _
  refine ⟨⟨⟨trivial, trivial⟩, trivial, trivial⟩, Stmt.mapExprs_id _⟩

/-! ## Visits -/

/-- What becomes of an expression: the same with both models, and it spares the addition, also as a
callee if it did so before. -/
structure Spared (added : Addition) (thisCalled : Prop) (value result result' : Expr) : Prop where
  same : result' = result
  spares : added.SparesExpr thisCalled result
  callee : added.SparesCallee thisCalled value → added.SparesCallee thisCalled result

/-- The visits do the same to expressions that spare the addition. -/
def SameVisits (added : Addition) (thisCalled : Prop) (visit visit' : Expr → ExprM Expr) : Prop :=
  ∀ value, added.SparesExpr thisCalled value →
    Alike id (added.SparesExpr thisCalled) added.SparesBinding (Spared added thisCalled value)
      (visit value) (visit' value)

section Visits

variable {visit visit' : Expr → ExprM Expr}

theorem Spared.refl {value : Expr} (hvalue : added.SparesExpr thisCalled value) :
    Spared added thisCalled value value value :=
  ⟨rfl, hvalue, fun hcallee => hcallee⟩

theorem exprs_same {items : List Expr}
    (hitems : ∀ item ∈ items, added.SparesExpr thisCalled item →
      Alike id (added.SparesExpr thisCalled) added.SparesBinding (Spared added thisCalled item)
        (Walk.expr visit item) (Walk.expr visit' item))
    (hspares : added.SparesExprs thisCalled items) :
    Alike id (added.SparesExpr thisCalled) added.SparesBinding
      (fun results results' => results' = results ∧ added.SparesExprs thisCalled results)
      (Walk.exprs visit items) (Walk.exprs visit' items) := by
  induction items with
  | nil => exact Alike.pure ⟨rfl, trivial⟩
  | cons item rest ih =>
    rw [Walk.exprs, Walk.exprs]
    refine (hitems item (by simp) hspares.1).bind fun result _ hresult => ?_
    refine (ih (fun other hmem => hitems other (by simp [hmem])) hspares.2).bind
      fun results _ hresults => ?_
    exact Alike.pure ⟨by rw [hresult.same, hresults.1], hresult.spares, hresults.2⟩

/-- A visit of an expression with another visible form is one of an expression that is no name and
not the bare instance. -/
theorem visit_same (hvisit : SameVisits added thisCalled visit visit') {value visited : Expr}
    (hvisited : added.SparesExpr thisCalled visited)
    (hcallee : added.SparesCallee thisCalled value → added.SparesCallee thisCalled visited) :
    Alike id (added.SparesExpr thisCalled) added.SparesBinding (Spared added thisCalled value)
      (visit visited) (visit' visited) :=
  (hvisit visited hvisited).imp fun _ _ hresult =>
    ⟨hresult.same, hresult.spares, fun hvalue => hresult.callee (hcallee hvalue)⟩

theorem expr_same (hvisit : SameVisits added thisCalled visit visit') (value : Expr) :
    added.SparesExpr thisCalled value →
    Alike id (added.SparesExpr thisCalled) added.SparesBinding (Spared added thisCalled value)
      (Walk.expr visit value) (Walk.expr visit' value) := by
  induction value using Expr.ind with
  | ident span name | thisRef span | literal span value => exact hvisit _
  | property span object name hobject =>
    intro hvalue
    rw [Walk.expr, Walk.expr]
    refine (hobject hvalue).bind fun object' _ hresult => ?_
    rw [hresult.same]
    exact visit_same hvisit hresult.spares fun _ => trivial
  | call span callee typeArgs args hcallee hargs =>
    intro hvalue
    obtain ⟨⟨hcalled, htypes⟩, hspares, hsparesArgs⟩ := hvalue
    rw [Walk.expr, Walk.expr]
    refine (hcallee hspares).bind fun callee' _ hresult => ?_
    refine (exprs_same hargs hsparesArgs).bind fun args' _ hresults => ?_
    rw [hresult.same, hresults.1]
    exact visit_same hvisit
      ⟨⟨hresult.callee hcalled, htypes⟩, hresult.spares, hresults.2⟩ fun _ => trivial
  | new span target args hargs =>
    intro hvalue
    rw [Walk.expr, Walk.expr]
    refine (exprs_same hargs hvalue.2).bind fun args' _ hresults => ?_
    rw [hresults.1]
    exact visit_same hvisit ⟨hvalue.1, hresults.2⟩ fun _ => trivial
  | binary span op left right hleft hright =>
    intro hvalue
    rw [Walk.expr, Walk.expr]
    refine (hleft hvalue.1).bind fun left' _ hresult => ?_
    refine (hright hvalue.2).bind fun right' _ hresult' => ?_
    rw [hresult.same, hresult'.same]
    exact visit_same hvisit ⟨hresult.spares, hresult'.spares⟩ fun _ => trivial
  | unary span op operand hoperand =>
    intro hvalue
    rw [Walk.expr, Walk.expr]
    refine (hoperand hvalue).bind fun operand' _ hresult => ?_
    rw [hresult.same]
    exact visit_same hvisit hresult.spares fun _ => trivial
  | paren span inner hinner =>
    intro hvalue
    rw [Walk.expr, Walk.expr]
    refine (hinner hvalue).bind fun inner' _ hresult => ?_
    rw [hresult.same]
    exact visit_same hvisit hresult.spares fun _ => trivial
  | comma span items hitems =>
    intro hvalue
    rw [Walk.expr, Walk.expr]
    refine (exprs_same hitems hvalue).bind fun items' _ hresults => ?_
    rw [hresults.1]
    exact visit_same hvisit hresults.2 fun _ => trivial
  | receiverCall span owner method args hargs =>
    intro hvalue
    rw [Walk.expr, Walk.expr]
    refine (exprs_same hargs hvalue.2).bind fun args' _ hresults => ?_
    rw [hresults.1]
    exact visit_same hvisit ⟨hvalue.1, hresults.2⟩ fun _ => trivial

end Visits

/-! ## Receivers -/

section Inject

include h

/-- A class that declares a method is found with both models, and spared. -/
theorem owningClass_same (method : String) (span : Span) {type : Ty} (htype : added.SparesTy type) :
    Receiver.owningClass model' method span type = Receiver.owningClass model method span type ∧
      ∀ owner, Receiver.owningClass model method span type = .ok (some owner) →
        added.Spares owner := by
  induction type with
  | classTy name =>
    simp only [Receiver.owningClass, h.classInfo?_of_spares htype.1]
    refine ⟨trivial, ?_⟩
    intro owner howner
    split at howner
    · cases howner
      exact htype.1
    · cases howner
  | pointer inner ih => exact ih htype
  | interfaceTy name =>
    simp only [Receiver.owningClass, h.type name htype.1]
    refine ⟨trivial, ?_⟩
    intro owner howner
    split at howner
    · split at howner
      · cases howner
      · cases howner
    · cases howner
  | named | primitive | moduleTy | function | unknown =>
    refine ⟨rfl, ?_⟩
    intro owner howner
    cases howner

omit h in
theorem owningClass_blank {type : Ty} (htype : type.Blank) (model : Model) (method : String)
    (span : Span) : Receiver.owningClass model method span type = .ok none := by
  cases type <;> cases htype <;> rfl

theorem addressOf_same {object result : Expr} (hobject : added.SparesExpr thisCalled object)
    (hrun : Receiver.addressOf model object = .ok result) :
    Receiver.addressOf model' object = .ok result ∧ added.SparesExpr thisCalled result := by
  unfold Receiver.addressOf Receiver.builtinCallee at hrun ⊢
  cases hknown : model.builtin? .addressOf with
  | none =>
    rw [hknown] at hrun
    cases hrun
  | some symbol =>
    rw [hknown] at hrun
    cases hrun
    rw [h.builtin? hknown]
    exact ⟨rfl, ⟨h.builtin?_name hknown, trivial⟩, trivial, hobject, trivial⟩

theorem argument_same {owner : String} (howner : added.Spares owner) {object result : Expr}
    (hobject : added.SparesExpr thisCalled object) (type : Ty)
    (hrun : Receiver.argument model owner object type = .ok result) :
    Receiver.argument model' owner object type = .ok result ∧
      added.SparesExpr thisCalled result := by
  unfold Receiver.argument at hrun ⊢
  rw [h.isSharedClass_of_spares howner]
  split at hrun
  · cases hrun
    exact ⟨rfl, hobject⟩
  · cases hrun
    exact ⟨rfl, hobject⟩
  · by_cases hshared : model.isSharedClass owner = true
    · rw [if_pos hshared] at hrun ⊢
      cases hrun
      exact ⟨rfl, hobject⟩
    · rw [if_neg hshared] at hrun ⊢
      exact h.addressOf_same hobject hrun
  · exact h.addressOf_same hobject hrun

variable [model.Typed] [model'.Typed]

theorem methodCall_same {locals locals' : Locals} (hlocals : Locals.Same added locals locals')
    {span place : Span} {object : Expr} {name : String} {typeArgs : Option (List TypeNode)}
    {args : List Expr} {result : Expr}
    (hvalue : added.SparesExpr thisCalled (.call span (.property place object name) typeArgs args))
    (hrun : Receiver.injectCall model locals (.call span (.property place object name) typeArgs args)
      = .ok result) :
    Receiver.injectCall model' locals' (.call span (.property place object name) typeArgs args)
        = .ok result ∧
      added.SparesExpr thisCalled result ∧ added.SparesCallee thisCalled result := by
  unfold Receiver.injectCall at hrun ⊢
  dsimp only at hrun ⊢
  by_cases hname : name = Spelling.destructor
  · rw [if_pos hname] at hrun ⊢
    cases hrun
    exact ⟨rfl, hvalue, trivial⟩
  · rw [if_neg hname] at hrun ⊢
    obtain ⟨found, howning, hrun⟩ := Lowered.bind_eq_ok.mp hrun
    have hobject : added.SparesExpr thisCalled object := hvalue.2.1
    rcases h.typeOf_same hlocals object hobject with ⟨htype, hspares⟩ | ⟨hblank, hblank'⟩
    · obtain ⟨hsame, hfound⟩ := h.owningClass_same name span hspares
      cases found with
      | none =>
        cases hrun
        refine ⟨Lowered.bind_eq_ok.mpr ⟨none, ?_, rfl⟩, hvalue, trivial⟩
        rw [htype, hsame]
        exact howning
      | some owner =>
        have howner := hfound owner howning
        obtain ⟨receiver, hreceiver, hrun⟩ := Lowered.bind_eq_ok.mp hrun
        cases hrun
        obtain ⟨hreceiver', hsparesReceiver⟩ := h.argument_same howner hobject _ hreceiver
        refine ⟨Lowered.bind_eq_ok.mpr ⟨some owner, ?_, ?_⟩,
          ⟨howner, hsparesReceiver, hvalue.2.2⟩, trivial⟩
        · rw [htype, hsame]
          exact howning
        · rw [htype]
          exact Lowered.bind_eq_ok.mpr ⟨receiver, hreceiver', rfl⟩
    · rw [owningClass_blank hblank] at howning
      cases howning
      cases hrun
      refine ⟨Lowered.bind_eq_ok.mpr ⟨none, ?_, rfl⟩, hvalue, trivial⟩
      exact owningClass_blank hblank' model' name span

theorem injectCall_same {locals locals' : Locals} (hlocals : Locals.Same added locals locals') :
    SameVisits added thisCalled (fun value => liftM (Receiver.injectCall model locals value))
      fun value => liftM (Receiver.injectCall model' locals' value) := by
  intro value hvalue
  refine Alike.lift ?_
  intro result hrun
  cases value with
  | call span callee typeArgs args =>
    cases callee with
    | property place object name =>
      obtain ⟨hrun', hspares, hcallee⟩ := h.methodCall_same hlocals hvalue hrun
      exact ⟨result, hrun', rfl, hspares, fun _ => hcallee⟩
    | _ =>
      cases hrun
      exact ⟨_, rfl, .refl hvalue⟩
  | _ =>
    cases hrun
    exact ⟨_, rfl, .refl hvalue⟩

end Inject

/-! ## Variables for operands -/

section Materialize

include h

theorem isBuiltinCall_same {callee : Expr} (hcallee : added.SparesCallee thisCalled callee)
    (builtin : Vocabulary.Builtin) :
    Address.isBuiltinCall model' builtin callee = Address.isBuiltinCall model builtin callee := by
  cases callee with
  | ident span name =>
    have hname : name ∉ added.functions := hcallee
    simp only [Address.isBuiltinCall, h.function? hname]
  | _ => rfl

theorem materializeCall_same [model.Typed] [model'.Typed] {locals locals' : Locals}
    (hlocals : Locals.Same added locals locals') :
    SameVisits added thisCalled (Address.materializeCall model locals)
      (Address.materializeCall model' locals') := by
  intro value hvalue
  have hstay : Alike id (added.SparesExpr thisCalled) added.SparesBinding
      (Spared added thisCalled value) (pure value) (pure value) := Alike.pure (.refl hvalue)
  unfold Address.materializeCall
  split
  · rename_i span callee typeArgs operand
    obtain ⟨⟨hcallee, htypes⟩, hspares, hoperand, -⟩ := hvalue
    rw [h.isBuiltinCall_same hcallee]
    split
    · -- The counter decides the name, so both bodies get the same variable.
      intro pending after result hrun
      rcases h.typeOf_same hlocals operand hoperand with ⟨htype, hsparesType⟩ | ⟨hblank, -⟩
      · rw [htype]
        cases hnode : (model.typeOf locals operand).toTypeNode? operand.span with
        | none =>
          rw [hnode] at hrun
          cases hrun
        | some node =>
          rw [hnode] at hrun
          have hsparesNode := toTypeNode?_spares hsparesType hnode
          simp only [Lowered.run_bind, Lowered.run_get, Lowered.run_set, Lowered.run_pure] at hrun
          obtain ⟨_, _, ⟨rfl, rfl⟩, _, _, rfl, rfl, rfl⟩ := hrun
          refine ⟨_, [Address.declaration operand.span (Spelling.temporary _) node],
            ⟨rfl, ?_, fun _ => trivial⟩, ?_, rfl, fun earlier => ?_⟩
          · exact ⟨⟨trivial, hoperand⟩, ⟨⟨hcallee, htypes⟩, hspares, trivial, trivial⟩, trivial⟩
          · refine ⟨?_, trivial⟩
            intro decl hdecl
            obtain rfl := List.mem_singleton.mp hdecl
            refine ⟨?_, by simp⟩
            rintro written ⟨⟩
            exact hsparesNode
          · rw [Stmt.mapList_id]
            rfl
      · cases hoperandType : model.typeOf locals operand <;> rw [hoperandType] at hblank hrun <;>
          cases hblank <;> cases hrun
    · exact hstay
  · exact hstay

end Materialize

/-! ## All passes -/

section Bodies

variable {locals locals' : Locals} {body result : List Stmt}

theorem visitTransport {visit visit' : Walk.Visit}
    (hvisit : ∀ locals locals', Locals.Same added locals locals' →
      SameVisits added thisCalled (visit locals) (visit' locals')) :
    Walk.VisitTransport id (Locals.Same added) (added.SparesExpr thisCalled)
      (added.SparesExpr thisCalled) added.SparesBinding (fun _ => True) (fun _ => True) visit
      visit' := by
  refine .of_alike ?_
  intro locals locals' value hlocals hvalue
  refine (expr_same (hvisit locals locals' hlocals) value hvalue).imp ?_
  intro result result' hresult
  exact ⟨hresult.same, hresult.spares, fun _ => trivial⟩

include h

variable [model.Typed] [model'.Typed]

/-- The passes make the same of a body that spares the addition. -/
theorem passes_same {passes : PassSet} {policy : DestructorPolicy}
    (hlocals : Locals.Same added locals locals')
    (hbody : AllList (added.SparesExpr thisCalled) added.SparesBinding body)
    (hrun : passes.run model policy locals body = .ok result) :
    passes.run model' policy locals' body = .ok result ∧
      AllList (added.SparesExpr thisCalled) added.SparesBinding result := by
  obtain ⟨hspares, hrun', -⟩ := passes_transport (E := fun _ _ => True) policy
    (fun _ => ⟨fun _ hvalue => hvalue, fun _ _ => trivial⟩) h.tracks h.tracks callsFit
    (visitTransport fun _ _ hlocals => h.injectCall_same hlocals)
    (visitTransport fun _ _ hlocals => h.materializeCall_same hlocals) hlocals hbody hrun
  rw [Stmt.mapList_id, Stmt.mapList_id] at hrun'
  exact ⟨hrun', hspares⟩

/-- So does putting the receiver parameter in place of the instance, which may be called if the
parameter may. -/
theorem bindReceiver_same (hself : thisCalled → Spelling.receiver ∉ added.functions)
    (hlocals : Locals.Same added locals locals')
    (hbody : AllList (added.SparesExpr thisCalled) added.SparesBinding body)
    (hrun : Receiver.bindReceiver model locals body = .ok result) :
    Receiver.bindReceiver model' locals' body = .ok result ∧
      AllList (added.SparesExpr thisCalled) added.SparesBinding result := by
  have hvisit : SameVisits added thisCalled (fun value => pure (Receiver.bindThis value))
      fun value => pure (Receiver.bindThis value) := by
    intro value hvalue
    refine Alike.pure ?_
    cases value with
    | thisRef span => exact ⟨rfl, trivial, hself⟩
    | _ => exact .refl hvalue
  obtain ⟨hspares, hrun', -⟩ := Walk.walk_transport (E := fun _ _ => True) h.tracks
    (visitTransport fun _ _ _ => hvisit) hlocals hbody hrun
  rw [Stmt.mapList_id, Stmt.mapList_id] at hrun'
  exact ⟨hrun', hspares⟩

end Bodies

end Addition.Extended

end NativeLowering
