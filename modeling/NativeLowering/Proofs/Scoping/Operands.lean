import NativeLowering.Proofs.Address.Fresh
import NativeLowering.Proofs.Scoping.Passes

/-!
# The variables of operands are in scope

What a visit asks for is declared before the statement at hand, so it is in scope at the expression
that it was asked for (`Walk.bodyLogged_provides`). For the operands of an expression this says that
each has a variable of its type there (`Address.HeldAll`).
-/

set_option autoImplicit false

namespace NativeLowering

/-! ## What a type depends on -/

namespace Model

section Lookups

variable {model : Model} [model.Typed] {locals other : Locals}

mutual

/-- The type of an expression depends on what its identifiers are bound to, and on the class. -/
theorem typeOf_congr (hclass : other.thisClass = locals.thisClass) : ∀ value : Expr,
    (∀ name ∈ Address.identifiers value, other.lookup? name = locals.lookup? name) →
    model.typeOf other value = model.typeOf locals value
  | .ident _ name, h => by
    rw [model.typeOf_ident, model.typeOf_ident, h name (List.mem_singleton_self name)]
  | .thisRef _, _ => by rw [model.typeOf_thisRef, model.typeOf_thisRef, hclass]
  | .literal .., _ => by rw [model.typeOf_literal, model.typeOf_literal]
  | .property _ object name, h => by
    rw [model.typeOf_property, model.typeOf_property, typeOf_congr hclass object h]
  | .call _ callee _ _, h => by
    cases callee with
    | ident => rw [model.typeOf_functionCall, model.typeOf_functionCall]
    | property _ object name =>
      rw [model.typeOf_methodCall, model.typeOf_methodCall,
        typeOf_congr hclass object fun name hname => h name (List.mem_append_left _ hname)]
    | _ => rw [model.typeOf_call_computed _ _ rfl, model.typeOf_call_computed _ _ rfl]
  | .new _ target args, _ => by rw [model.typeOf_new, model.typeOf_new locals]
  | .binary _ op left right, h => by
    rw [model.typeOf_binary, model.typeOf_binary,
      typeOf_congr hclass left fun name hname => h name (List.mem_append_left _ hname)]
  | .unary _ op operand, h => by
    rw [model.typeOf_unary, model.typeOf_unary, typeOf_congr hclass operand h]
  | .paren _ inner, h => by
    rw [model.typeOf_paren, model.typeOf_paren, typeOf_congr hclass inner h]
  | .comma _ items, h => by
    rw [model.typeOf_comma, model.typeOf_comma, typeOfLast_congr hclass items h]
  | .receiverCall .., _ => by rw [model.typeOf_receiverCall, model.typeOf_receiverCall]

theorem typeOfLast_congr (hclass : other.thisClass = locals.thisClass) : ∀ items : List Expr,
    (∀ name ∈ Address.identifiersAll items, other.lookup? name = locals.lookup? name) →
    model.typeOfLast other items = model.typeOfLast locals items
  | [], _ => rfl
  | [item], h => by
    rw [model.typeOfLast_single, model.typeOfLast_single,
      typeOf_congr hclass item fun name hname => h name (List.mem_append_left _ hname)]
  | _ :: second :: rest, h =>
    typeOfLast_congr hclass (second :: rest) fun name hname =>
      h name (List.mem_append_right _ hname)

end

end Lookups

end Model

namespace Walk

/-! ## What has been asked for -/

section Asking

variable {model : Model} {visit : Visit} {P : String × Ty → Prop}

/-- What statements declare is in scope. -/
def Holds (model : Model) (before : List Stmt) (visible : Bindings) : Prop :=
  ∀ statement ∈ before, ∀ binding : String × Ty,
    statement.values model = .binding (fun more => binding :: more) → binding ∈ visible

theorem Holds.mono {before : List Stmt} {visible more : Bindings} (h : Holds model before visible)
    (hmore : visible ⊆ more) : Holds model before more :=
  fun statement hstatement binding hread => hmore (h statement hstatement binding hread)

theorem holds_append {before more : List Stmt} {visible : Bindings} :
    Holds model (before ++ more) visible ↔ Holds model before visible ∧ Holds model more visible :=
  List.forall_mem_append

/-- Declarations put what they declare in scope, and leave what there is. -/
theorem valuesAll_holds {before : List Stmt} (h : ∀ statement ∈ before, Declares model P statement)
    (visible : Bindings) : Holds model before ((Stmt.valuesAll model before).after visible) ∧
      visible ⊆ (Stmt.valuesAll model before).after visible := by
  induction before generalizing visible with
  | nil => exact ⟨List.forall_mem_nil _, List.Subset.refl _⟩
  | cons statement rest ih =>
    obtain ⟨binding, -, hread⟩ := h statement List.mem_cons_self
    obtain ⟨hholds, hgrows⟩ :=
      ih (fun other hother => h other (List.mem_cons_of_mem _ hother)) (binding :: visible)
    rw [Stmt.valuesAll, Stmt.readAll, ← Stmt.values, hread]
    refine ⟨List.forall_mem_cons.mpr ⟨fun other hother => ?_, hholds⟩,
      List.Subset.trans (List.subset_cons_self _ _) hgrows⟩
    -- The statement declares one variable only.
    have hsame : [binding] = [other] :=
      congrArg (fun reading : Reading (Occurrence Expr) => reading.after []) (hread.symm.trans hother)
    rw [← List.head_eq_of_cons_eq hsame]
    exact hgrows List.mem_cons_self

/-- The expression that a visit puts in the place of another, with what the visit asked for in
scope. -/
def Provides (model : Model) (visit : Visit) (visited : Visited Expr)
    (there : Occurrence Expr) : Prop :=
  ∃ next pending,
    (expr (visit visited.locals) visited.node).run ⟨next, []⟩ = .ok (there.node, pending) ∧
    Holds model pending.before there.visible

/-- A stretch of a walk, with what is to be declared before it. -/
structure Provided (model : Model) (visit : Visit) (P : String × Ty → Prop)
    (result : Reading (Occurrence Expr)) (before : List Stmt) (log : Log) : Prop where
  found : ∀ visible, Holds model before visible →
    List.Forall₂ (Provides model visit) log (result.found visible)
  grows : ∀ visible, visible ⊆ result.after visible
  declares : ∀ statement ∈ before, Declares model P statement

namespace Provided

variable {result result' : Reading (Occurrence Expr)} {before before' : List Stmt} {log log' : Log}

theorem nothing : Provided model visit P .nothing [] [] :=
  ⟨fun _ _ => .nil, fun _ => List.Subset.refl _, List.forall_mem_nil _⟩

theorem andThen (h : Provided model visit P result before log)
    (h' : Provided model visit P result' before' log') :
    Provided model visit P (result.andThen result') (before ++ before') (log ++ log') where
  found visible hholds := by
    obtain ⟨hfirst, hsecond⟩ := holds_append.mp hholds
    exact List.rel_append (h.found visible hfirst) (h'.found _ (hsecond.mono (h.grows visible)))
  grows visible := List.Subset.trans (h.grows visible) (h'.grows _)
  declares := List.forall_mem_append.mpr ⟨h.declares, h'.declares⟩

theorem inside (h : Provided model visit P result [] log) :
    Provided model visit P result.inside [] log :=
  ⟨h.found, fun _ => List.Subset.refl _, h.declares⟩

theorem declare (decl : VariableDecl) :
    Provided model visit P (.binding (decl.bind model)) [] [] := by
  refine ⟨fun _ _ => .nil, fun visible => ?_, List.forall_mem_nil _⟩
  show visible ⊆ decl.bind model visible
  unfold VariableDecl.bind
  split
  · exact List.Subset.refl _
  · exact List.subset_cons_self _ _

/-- What is asked for is declared before the statement. -/
theorem staged (h : Provided model visit P result before log) :
    Provided model visit P ((Stmt.valuesAll model before).andThen result) [] log where
  found visible _ := by
    obtain ⟨hholds, -⟩ := valuesAll_holds h.declares visible
    show List.Forall₂ _ log (_ ++ _)
    rw [(valuesAll_declares h.declares visible).1]
    exact h.found _ hholds
  grows visible := List.Subset.trans (valuesAll_holds h.declares visible).2 (h.grows _)
  declares := List.forall_mem_nil _

end Provided

section Parts

variable (hvisit : Declaring model P visit)
include hvisit

theorem atPointLogged_provided {value result : Expr} {before : List Stmt} {log : Log}
    {point after : Point}
    (h : (atPointLogged visit value).run point = .ok (((result, before), log), after)) :
    Provided model visit P (.leaf ([⟨·, result⟩])) before log := by
  simp only [atPointLogged, Lowered.run_bind, Lowered.run_get, Lowered.run_pure] at h
  obtain ⟨_, _, ⟨rfl, rfl⟩, _, _, hrun, ⟨⟨rfl, rfl⟩, rfl⟩⟩ := h
  obtain ⟨last, hvalue, rfl⟩ := run_atPoint.mp hrun
  exact ⟨fun visible hholds => .cons ⟨_, _, hvalue, hholds⟩ .nil, fun _ => List.Subset.refl _,
    hvisit _ _ _ _ _ _ hvalue⟩

theorem atPointOptionLogged_provided {value result : Option Expr} {before : List Stmt} {log : Log}
    {point after : Point}
    (h : (atPointOptionLogged visit value).run point = .ok (((result, before), log), after)) :
    Provided model visit P (Expr.valuesOption result) before log := by
  cases value with
  | none =>
    cases h
    exact .nothing
  | some value =>
    obtain ⟨⟨⟨result, before⟩, log⟩, between, hrun, h⟩ := Lowered.run_bind.mp h
    cases h
    exact atPointLogged_provided hvisit hrun

theorem varDeclLogged_provided {decl result : VariableDecl} {before : List Stmt} {log : Log}
    {point after : Point}
    (h : (varDeclLogged model visit decl).run point = .ok (((result, before), log), after)) :
    Provided model visit P (result.values model) before log := by
  obtain ⟨⟨⟨init, before⟩, log⟩, between, hinit, h⟩ := Lowered.run_bind.mp h
  have hprovided := atPointOptionLogged_provided hvisit hinit
  obtain ⟨rfl, rfl, rfl⟩ : result = { decl with init } ∧ _ = before ∧ _ = log := by
    dsimp only at h
    cases hname : decl.name.ident? with
    | none =>
      rw [hname] at h
      cases h
      exact ⟨rfl, rfl, rfl⟩
    | some name =>
      rw [hname] at h
      cases h
      exact ⟨rfl, rfl, rfl⟩
  have hall := Provided.nothing.andThen (hprovided.andThen (.declare { decl with init }))
  rw [List.append_nil, List.append_nil] at hall
  exact hall

theorem varDeclsLogged_provided : ∀ {decls result : List VariableDecl} {before : List Stmt} {log : Log}
    {point after : Point},
    (varDeclsLogged model visit decls).run point = .ok (((result, before), log), after) →
    Provided model visit P (VariableDecl.valuesAll model result) before log
  | [], _, _, _, _, _, h => by
    cases h
    exact .nothing
  | decl :: rest, _, _, _, _, _, h => by
    obtain ⟨⟨⟨one, before⟩, first⟩, between, hdecl, h⟩ := Lowered.run_bind.mp h
    obtain ⟨⟨⟨others, more⟩, second⟩, last, hrest, h⟩ := Lowered.run_bind.mp h
    cases h
    exact (varDeclLogged_provided hvisit hdecl).andThen (varDeclsLogged_provided hrest)

end Parts

mutual

theorem stmtLogged_provided (hvisit : Declaring model P visit) :
    ∀ (statement : Stmt) {result : Stmt} {log : Log} {point after : Point},
    (stmtLogged model visit statement).run point = .ok ((result, log), after) →
    Provided model visit P (result.values model) [] log
  | .vars span kind decls, _, _, _, _, h => by
    rw [stmtLogged] at h
    obtain ⟨⟨⟨walked, before⟩, log⟩, between, hdecls, h⟩ := Lowered.run_bind.mp h
    cases h
    rw [read_stage]
    exact (varDeclsLogged_provided hvisit hdecls).staged
  | .expr span value, _, _, _, _, h => by
    rw [stmtLogged] at h
    obtain ⟨⟨⟨walked, before⟩, log⟩, between, hvalue, h⟩ := Lowered.run_bind.mp h
    cases h
    rw [read_stage]
    exact (atPointLogged_provided hvisit hvalue).staged
  | .ret span value, _, _, _, _, h => by
    rw [stmtLogged] at h
    obtain ⟨⟨⟨walked, before⟩, log⟩, between, hvalue, h⟩ := Lowered.run_bind.mp h
    cases h
    rw [read_stage]
    exact (atPointOptionLogged_provided hvisit hvalue).staged
  | .ifElse span condition thenBranch elseBranch, _, _, _, _, h => by
    rw [stmtLogged] at h
    obtain ⟨⟨⟨head, before⟩, first⟩, one, hcondition, h⟩ := Lowered.run_bind.mp h
    obtain ⟨⟨walked, second⟩, two, hinner, h⟩ := Lowered.run_bind.mp h
    obtain ⟨⟨other, third⟩, three, hother, h⟩ := Lowered.run_bind.mp h
    cases h
    obtain ⟨inner, hrun, rfl⟩ := run_inFrame.mp hinner
    have hfirst := (stmtLogged_provided hvisit thenBranch hrun).inside
    have hhead := atPointLogged_provided hvisit hcondition
    have hall := hhead.andThen (hfirst.andThen (elseLogged_provided hvisit elseBranch hother))
    simp only [List.append_nil] at hall
    rw [read_stage]
    exact hall.staged
  | .loop span condition body, _, _, _, _, h => by
    rw [stmtLogged] at h
    obtain ⟨⟨⟨head, before⟩, first⟩, one, hcondition, h⟩ := Lowered.run_bind.mp h
    obtain ⟨⟨walked, second⟩, two, hinner, h⟩ := Lowered.run_bind.mp h
    cases h
    obtain ⟨inner, hrun, rfl⟩ := run_inFrame.mp hinner
    have hall := (atPointLogged_provided hvisit hcondition).andThen
      (stmtLogged_provided hvisit body hrun).inside
    rw [List.append_nil] at hall
    rw [read_stage]
    exact hall.staged
  | .brk span, _, _, _, _, h => by
    rw [stmtLogged] at h
    cases h
    exact .nothing
  | .cont span, _, _, _, _, h => by
    rw [stmtLogged] at h
    cases h
    exact .nothing
  | .block span body, _, _, _, _, h => by
    rw [stmtLogged] at h
    obtain ⟨⟨walked, log⟩, between, hinner, h⟩ := Lowered.run_bind.mp h
    cases h
    obtain ⟨inner, hrun, rfl⟩ := run_inFrame.mp hinner
    exact (stmtsLogged_provided hvisit body hrun).inside
  | .staged span before body, _, _, _, _, h => by
    rw [stmtLogged] at h
    obtain ⟨⟨staged, first⟩, one, hbefore, h⟩ := Lowered.run_bind.mp h
    obtain ⟨⟨walked, second⟩, two, hbody, h⟩ := Lowered.run_bind.mp h
    cases h
    rw [read_restage]
    exact (stmtsLogged_provided hvisit before hbefore).andThen
      (stmtLogged_provided hvisit body hbody)

theorem elseLogged_provided (hvisit : Declaring model P visit) :
    ∀ (branch : Option Stmt) {result : Option Stmt} {log : Log}
    {point after : Point}, (elseLogged model visit branch).run point = .ok ((result, log), after) →
    Provided model visit P (Stmt.valuesElse model result) [] log
  | none, _, _, _, _, h => by
    rw [elseLogged] at h
    cases h
    exact .nothing
  | some branch, _, _, _, _, h => by
    rw [elseLogged] at h
    obtain ⟨⟨walked, log⟩, between, hinner, h⟩ := Lowered.run_bind.mp h
    cases h
    obtain ⟨inner, hrun, rfl⟩ := run_inFrame.mp hinner
    exact (stmtLogged_provided hvisit branch hrun).inside

theorem stmtsLogged_provided (hvisit : Declaring model P visit) :
    ∀ (body : List Stmt) {result : List Stmt} {log : Log}
    {point after : Point}, (stmtsLogged model visit body).run point = .ok ((result, log), after) →
    Provided model visit P (Stmt.valuesAll model result) [] log
  | [], _, _, _, _, h => by
    rw [stmtsLogged] at h
    cases h
    exact .nothing
  | head :: rest, _, _, _, _, h => by
    rw [stmtsLogged] at h
    obtain ⟨⟨walked, first⟩, one, hhead, h⟩ := Lowered.run_bind.mp h
    obtain ⟨⟨others, second⟩, two, hrest, h⟩ := Lowered.run_bind.mp h
    cases h
    exact (stmtLogged_provided hvisit head hhead).andThen (stmtsLogged_provided hvisit rest hrest)

end

/-- What a visit asked for is in scope at the expression that it left. -/
theorem bodyLogged_provides (hvisit : Declaring model P visit) {locals : Locals}
    {statements result : List Stmt} {log : Log}
    (h : bodyLogged model visit locals statements = .ok (result, log)) (visible : Bindings) :
    List.Forall₂ (Provides model visit) log ((Stmt.valuesAll model result).found visible) := by
  change Except.map Prod.fst ((stmtsLogged model visit statements).run ⟨locals, 1⟩) = _ at h
  obtain ⟨⟨_, after⟩, hrun, rfl⟩ := Lowered.map_eq_ok.mp h
  exact (stmtsLogged_provided hvisit statements hrun).found visible (List.forall_mem_nil _)

end Asking

end Walk

/-! ## Operands -/

namespace Address

section Operands

variable {model : Model}

/-- An operand has the numbered variable, which has been declared with the operand's type. -/
def Held (model : Model) (locals : Locals) (visible : Bindings) (numbered : Expr × Nat) : Prop :=
  ∃ node, (model.typeOf locals numbered.1).toTypeNode? numbered.1.span = some node ∧
    (Spelling.temporary numbered.2, model.typeFromNode node) ∈ visible

/-- The operands of an expression have their variables, from the given number on. -/
def HeldAll (model : Model) (locals : Locals) (visible : Bindings) (next : Nat)
    (value : Expr) : Prop :=
  ∀ numbered ∈ (operands model value).zipIdx next, Held model locals visible numbered

theorem allNamed_eq_ok : ∀ {sites : List Site}, allNamed model sites = .ok () →
    ∀ site ∈ sites, (site.node? model).isSome = true
  | [], _ => List.forall_mem_nil _
  | site :: rest, h => by
    obtain ⟨_, hfirst, hrest⟩ := Lowered.bind_eq_ok.mp h
    refine List.forall_mem_cons.mpr ⟨?_, allNamed_eq_ok hrest⟩
    unfold Site.named at hfirst
    split at hfirst
    · cases hfirst
    · rename_i node hnode
      rw [hnode]
      rfl

variable [model.Typed]

theorem HeldAll.congr {locals other : Locals} {visible : Bindings} {next : Nat} {value : Expr}
    (h : HeldAll model locals visible next value) (hvisible : other.visible = locals.visible)
    (hclass : other.thisClass = locals.thisClass) : HeldAll model other visible next value := by
  intro numbered hnumbered
  have htype : model.typeOf other numbered.1 = model.typeOf locals numbered.1 :=
    Model.typeOf_congr hclass numbered.1 fun name _ => by rw [Locals.lookup?, Locals.lookup?, hvisible]
  rw [Held, htype]
  exact h numbered hnumbered

/-- What the visit of operands leaves of an expression, and what it puts in scope for that. -/
theorem provides_threaded {visited : Visited Expr} {there : Occurrence Expr}
    (h : Walk.Provides model (materializeCall model) visited there) :
    ∃ next, there.node = threaded model next visited.node ∧
      HeldAll model visited.locals there.visible next visited.node := by
  obtain ⟨next, pending, hrun, hholds⟩ := h
  have hvisit := @visits_expr model _ visited.locals visited.node next []
  unfold Settles at hvisit
  rw [hvisit] at hrun
  obtain ⟨_, hnamed, hresult⟩ := Lowered.map_eq_ok.mp hrun
  obtain ⟨hnode, rfl⟩ := Prod.mk.inj hresult
  refine ⟨next, hnode, fun ⟨operand, number⟩ hnumbered => ?_⟩
  have hsite : (Site.mk visited.locals operand, number) ∈
      (exprSites model visited.locals visited.node).zipIdx next := by
    rw [exprSites, List.zipIdx_map]
    exact List.mem_map.mpr ⟨_, hnumbered, rfl⟩
  obtain ⟨node, hfound⟩ := Option.isSome_iff_exists.mp
    (allNamed_eq_ok hnamed _ (List.fst_mem_of_mem_zipIdx hsite))
  refine ⟨node, hfound, ?_⟩
  have hdeclared := hholds _ (List.mem_append_right _ (List.mem_map.mpr ⟨_, hsite, rfl⟩))
    (Spelling.temporary number, model.typeFromNode node)
  refine hdeclared ?_
  rw [Site.declaration, hfound]
  rfl

end Operands

end Address

end NativeLowering
