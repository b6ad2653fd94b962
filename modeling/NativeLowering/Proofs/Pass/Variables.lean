import NativeLowering.Proofs.Scoping.Passes

/-!
# The variables that the passes leave

The passes move statements into blocks and behind stages, and they replace expressions. The
variables that a body introduces stay, with their annotations and in their order
(`Stmt.introduced`). The destructor calls and the explicit receivers bring no variables of their
own (`Cleanup.run_introduced`, `Receiver.run_introduced`). The materialization of operands puts in
block-scoped ones only (`Address.run_introduced`).

So a function has the same function-scoped variables before the passes and after them
(`PassSet.run_hoistable`).
-/

set_option autoImplicit false

namespace NativeLowering

/-! ## Introducing variables -/

/-- A variable as a statement introduces it, without its initial value. -/
structure Introduced where
  kind : VariableKind
  name : BindingName
  type : Option TypeNode

/-- Whether the variable belongs to the whole function. -/
def Introduced.isHoistable (entry : Introduced) : Bool := entry.kind = .varKind

/-- The variable of a declarator. -/
def VariableDecl.introduced (kind : VariableKind) (decl : VariableDecl) : Introduced :=
  ⟨kind, decl.name, decl.type⟩

namespace Stmt

mutual

/-- The variables that a statement and the statements in it introduce, in the order they are
written. -/
def introduced : Stmt → List Introduced
  | .vars _ kind decls => decls.map (VariableDecl.introduced kind)
  | .expr .. | .ret .. | .brk _ | .cont _ => []
  | .ifElse _ _ thenBranch elseBranch => thenBranch.introduced ++ introducedElse elseBranch
  | .loop _ _ body => body.introduced
  | .block _ body => introducedAll body
  | .staged _ before body => introducedAll before ++ body.introduced

def introducedElse : Option Stmt → List Introduced
  | none => []
  | some branch => branch.introduced

def introducedAll : List Stmt → List Introduced
  | [] => []
  | stmt :: rest => stmt.introduced ++ introducedAll rest

end

theorem introducedAll_append (first second : List Stmt) :
    introducedAll (first ++ second) = introducedAll first ++ introducedAll second := by
  induction first with
  | nil => rfl
  | cons stmt rest ih => rw [List.cons_append, introducedAll, introducedAll, ih, List.append_assoc]

theorem introducedAll_eq_flatMap (body : List Stmt) :
    introducedAll body = body.flatMap introduced := by
  induction body with
  | nil => rfl
  | cons stmt rest ih => rw [introducedAll, ih, List.flatMap_cons]

theorem introduced_withSpan (span : Span) (stmt : Stmt) :
    (stmt.withSpan span).introduced = stmt.introduced := by
  cases stmt <;> rfl

/-- The variables of a body that belong to the whole function. -/
def hoistable (body : List Stmt) : List Introduced :=
  (introducedAll body).filter Introduced.isHoistable

end Stmt

/-! ## Destructor calls -/

namespace Cleanup

section Cleanup

variable {model : Model} {policy : DestructorPolicy}

theorem introducedAll_calls (names : List String) (span : Span) :
    Stmt.introducedAll (names.map (destructorCall span)) = [] := by
  induction names with
  | nil => rfl
  | cons name rest ih => rw [List.map_cons, Stmt.introducedAll, ih]; rfl

theorem introducedAll_exitCalls (scope : Scope) (exit : Exit) (span : Span) :
    Stmt.introducedAll (scope.exitCalls exit span) = [] := by
  rw [Scope.exitCalls, exitCalls_eq, introducedAll_calls]

theorem introducedAll_endCalls (scope : Scope) (span : Span) :
    Stmt.introducedAll (scope.endCalls span) = [] := by
  unfold Scope.endCalls
  cases scope.frames with
  | nil => rfl
  | cons frame outer => exact introducedAll_calls frame.names span

/-- The statement introduces the same variables once calls are added inside it. -/
def Introduces (model : Model) (policy : DestructorPolicy) (stmt : Stmt) : Prop :=
  ∀ (scope : Scope) (kind : FrameKind),
    (statement model policy scope kind stmt).1.introduced = stmt.introduced

theorem loneBlock_introduced {stmt : Stmt} (h : Introduces model policy stmt) (scope : Scope) :
    (loneBlock scope stmt (statement model policy scope .block stmt)).introduced
      = stmt.introduced := by
  unfold loneBlock
  rw [Stmt.introduced]
  cases exitOf? stmt with
  | some exit =>
    simp [Stmt.introducedAll_append, introducedAll_exitCalls, Stmt.introducedAll]
  | none => simp [Stmt.introducedAll, introducedAll_endCalls, h scope .block]

theorem branch_introduced {stmt : Stmt} (h : Introduces model policy stmt) (scope : Scope)
    (kind : FrameKind) :
    (if stmt.isBlock then (statement model policy scope kind stmt).1
      else loneBlock (scope.enter kind) stmt
        (statement model policy (scope.enter kind) .block stmt)).introduced = stmt.introduced := by
  by_cases hblock : stmt.isBlock = true
  · rw [if_pos hblock]
    exact h scope kind
  · rw [if_neg hblock]
    exact loneBlock_introduced h _

theorem statements_introduced {body : List Stmt} (h : ∀ stmt ∈ body, Introduces model policy stmt)
    (scope : Scope) (span : Span) :
    Stmt.introducedAll (statements model policy scope span body) = Stmt.introducedAll body := by
  induction body generalizing scope span with
  | nil => exact introducedAll_endCalls scope span
  | cons stmt rest ih =>
    rw [statements]
    cases exitOf? stmt with
    | some exit => simp [Stmt.introducedAll_append, introducedAll_exitCalls]
    | none =>
      have hrest := ih fun other hm => h other (by simp [hm])
      simp [Stmt.introducedAll, h stmt (by simp) scope .block, hrest]

theorem staged_introduced {body : List Stmt} (h : ∀ stmt ∈ body, Introduces model policy stmt)
    (scope : Scope) :
    Stmt.introducedAll (staged model policy scope body).1 = Stmt.introducedAll body := by
  induction body generalizing scope with
  | nil => rfl
  | cons stmt rest ih =>
    have hrest := ih fun other hm => h other (by simp [hm])
    simp [staged, Stmt.introducedAll, h stmt (by simp) scope .block, hrest]

theorem statement_introduced (stmt : Stmt) : Introduces model policy stmt := by
  induction stmt using Stmt.ind with
  | vars | expr | ret | brk | cont => exact fun scope kind => rfl
  | ifElse span condition thenBranch elseBranch hThen hElse =>
    intro scope kind
    rw [statement, Stmt.introduced, Stmt.introduced, branch_introduced hThen]
    cases elseBranch with
    | none => rfl
    | some branch =>
      rw [elseStatement, Stmt.introducedElse, branch_introduced (hElse branch rfl)]
      rfl
  | loop span condition body hBody =>
    intro scope kind
    rw [statement, Stmt.introduced, Stmt.introduced, branch_introduced hBody]
  | block span body hBody =>
    intro scope kind
    rw [statement, Stmt.introduced, Stmt.introduced, statements_introduced hBody]
  | staged span before body hBefore hBody =>
    intro scope kind
    rw [statement, Stmt.introduced, Stmt.introduced, staged_introduced hBefore, hBody]

theorem run_introduced (locals : Locals) (body : List Stmt) :
    Stmt.introducedAll (run model policy locals body) = Stmt.introducedAll body :=
  statements_introduced (fun stmt _ => statement_introduced stmt) _ _

end Cleanup

end Cleanup

/-! ## Walks -/

namespace Walk

section Walks

variable {model : Model} {visit : Visit} {P : Introduced → Prop}

/-- Every variable that the statement introduces meets the condition. -/
def Introduces (P : Introduced → Prop) (stmt : Stmt) : Prop := ∀ entry ∈ stmt.introduced, P entry

theorem inserted_of_introduces {before : List Stmt} (h : ∀ stmt ∈ before, Introduces P stmt)
    {first second : List Introduced} (hlist : Inserted P first second) :
    Inserted P first (Stmt.introducedAll before ++ second) := by
  have hall : ∀ entry ∈ Stmt.introducedAll before, P entry := by
    rw [Stmt.introducedAll_eq_flatMap]
    intro entry hentry
    obtain ⟨stmt, hstmt, hentry⟩ := List.mem_flatMap.mp hentry
    exact h stmt hstmt entry hentry
  generalize Stmt.introducedAll before = more at hall ⊢
  induction more with
  | nil => exact hlist
  | cons entry rest ih =>
    exact .insert (hall entry (by simp)) (ih fun other hm => hall other (by simp [hm]))

theorem introduced_stage (before : List Stmt) (stmt : Stmt) :
    (stage before stmt).introduced = Stmt.introducedAll before ++ stmt.introduced := by
  cases before <;> rfl

theorem introduced_restage (span : Span) (before : List Stmt) (stmt : Stmt) :
    (restage span before stmt).introduced = Stmt.introducedAll before ++ stmt.introduced := by
  cases stmt with
  | staged _ more body =>
    rw [restage, introduced_stage, Stmt.introducedAll_append, Stmt.introduced_withSpan,
      Stmt.introduced, List.append_assoc]
  | _ => exact introduced_stage before _

variable (hvisit : ∀ locals value, Asks (Introduces P) (visit locals value))
include hvisit

theorem atPoint_introduces {value result : Expr} {before : List Stmt} {locals : Locals} {next : Nat}
    {point : Point} (h : (atPoint visit value).run ⟨locals, next⟩ = .ok ((result, before), point)) :
    ∀ stmt ∈ before, Introduces P stmt := by
  obtain ⟨last, hrun, -⟩ := run_atPoint.mp h
  exact expr_asks (hvisit locals) value _ _ _ hrun (List.forall_mem_nil _)

theorem atPointOption_introduces {value result : Option Expr} {before : List Stmt} {locals : Locals}
    {next : Nat} {point : Point}
    (h : (atPointOption visit value).run ⟨locals, next⟩ = .ok ((result, before), point)) :
    ∀ stmt ∈ before, Introduces P stmt := by
  cases value with
  | none =>
    cases h
    exact List.forall_mem_nil _
  | some value =>
    obtain ⟨inner, hrun, rfl⟩ := run_atPointOption_some.mp h
    exact atPoint_introduces hvisit hrun

theorem varDecls_introduces (kind : VariableKind) {decls results : List VariableDecl}
    {before : List Stmt} {locals : Locals} {next : Nat} {point : Point}
    (h : (varDecls model visit decls).run ⟨locals, next⟩ = .ok ((results, before), point)) :
    results.map (VariableDecl.introduced kind) = decls.map (VariableDecl.introduced kind) ∧
      ∀ stmt ∈ before, Introduces P stmt := by
  induction decls generalizing locals next results before with
  | nil =>
    cases h
    exact ⟨rfl, List.forall_mem_nil _⟩
  | cons decl rest ih =>
    obtain ⟨first, asked, ⟨between, mid⟩, others, more, hfirst, hothers, rfl, rfl⟩ :=
      run_varDecls_cons.mp h
    obtain ⟨init, number, hinit, rfl, -⟩ := run_varDecl.mp hfirst
    obtain ⟨hmap, hmore⟩ := ih hothers
    refine ⟨?_, List.forall_mem_append.mpr ⟨atPointOption_introduces hvisit hinit, hmore⟩⟩
    rw [List.map_cons, List.map_cons, hmap]
    rfl

/-- A walk through the statement leaves its variables, and puts in some that meet the condition. -/
def Grows (model : Model) (visit : Visit) (P : Introduced → Prop) (statement : Stmt) : Prop :=
  ∀ (locals : Locals) (next : Nat) (result : Stmt) (point : Point),
    (stmt model visit statement).run ⟨locals, next⟩ = .ok (result, point) →
    Inserted P statement.introduced result.introduced

omit hvisit in
theorem stmts_grow {body result : List Stmt} (h : ∀ statement ∈ body, Grows model visit P statement)
    {locals : Locals} {next : Nat} {point : Point}
    (hrun : (stmts model visit body).run ⟨locals, next⟩ = .ok (result, point)) :
    Inserted P (Stmt.introducedAll body) (Stmt.introducedAll result) := by
  induction body generalizing locals next result with
  | nil =>
    cases hrun
    exact .nil
  | cons head rest ih =>
    obtain ⟨first, between, others, hfirst, hothers, rfl⟩ := run_stmts_cons.mp hrun
    exact (h head (by simp) _ _ _ _ hfirst).append
      (ih (fun other hm => h other (by simp [hm])) hothers)

omit hvisit in
theorem inFrame_grows {statement : Stmt} (h : Grows model visit P statement) {kind : FrameKind}
    {locals : Locals} {next : Nat} {result : Stmt} {point : Point}
    (hrun : (inFrame kind (stmt model visit statement)).run ⟨locals, next⟩ = .ok (result, point)) :
    Inserted P statement.introduced result.introduced := by
  obtain ⟨inner, hinner, -⟩ := run_inFrame.mp hrun
  exact h _ _ _ _ hinner

omit hvisit in
theorem elseStmt_grows {elseBranch result : Option Stmt}
    (h : ∀ branch, elseBranch = some branch → Grows model visit P branch) {locals : Locals}
    {next : Nat} {point : Point}
    (hrun : (elseStmt model visit elseBranch).run ⟨locals, next⟩ = .ok (result, point)) :
    Inserted P (Stmt.introducedElse elseBranch) (Stmt.introducedElse result) := by
  cases elseBranch with
  | none =>
    cases hrun
    exact .nil
  | some branch =>
    obtain ⟨walked, hbranch, rfl⟩ := run_elseStmt_some.mp hrun
    exact inFrame_grows (h branch rfl) hbranch

theorem stmt_grows (statement : Stmt) : Grows model visit P statement := by
  induction statement using Stmt.ind with
  | vars span kind decls =>
    intro locals next result point hrun
    obtain ⟨walked, before, hdecls, rfl⟩ := run_stmt_vars.mp hrun
    obtain ⟨hsame, hbefore⟩ := varDecls_introduces hvisit kind hdecls
    rw [introduced_stage, Stmt.introduced, Stmt.introduced, hsame]
    exact inserted_of_introduces hbefore (.refl _)
  | expr span value =>
    intro locals next result point hrun
    obtain ⟨walked, before, hvalue, rfl⟩ := run_stmt_expr.mp hrun
    rw [introduced_stage]
    exact inserted_of_introduces (atPoint_introduces hvisit hvalue) .nil
  | ret span value =>
    intro locals next result point hrun
    obtain ⟨walked, before, hvalue, rfl⟩ := run_stmt_ret.mp hrun
    rw [introduced_stage]
    exact inserted_of_introduces (atPointOption_introduces hvisit hvalue) .nil
  | ifElse span condition thenBranch elseBranch hThen hElse =>
    intro locals next result point hrun
    obtain ⟨walked, before, between, first, mid, second, hcondition, hthen, helse, rfl⟩ :=
      run_stmt_ifElse.mp hrun
    rw [introduced_stage]
    exact inserted_of_introduces (atPoint_introduces hvisit hcondition)
      ((inFrame_grows hThen hthen).append (elseStmt_grows hElse helse))
  | loop span condition body hBody =>
    intro locals next result point hrun
    obtain ⟨walked, before, between, inner, hcondition, hbody, rfl⟩ := run_stmt_loop.mp hrun
    have hinner := inFrame_grows hBody hbody
    rw [introduced_stage]
    exact inserted_of_introduces (atPoint_introduces hvisit hcondition) hinner
  | brk | cont =>
    intro locals next result point hrun
    cases hrun
    exact .nil
  | block span body hBody =>
    intro locals next result point hrun
    obtain ⟨inner, hframe, rfl⟩ := run_stmt_block.mp hrun
    obtain ⟨after, hbody, -⟩ := run_inFrame.mp hframe
    exact stmts_grow hBody hbody
  | staged span before body hBefore hBody =>
    intro locals next result point hrun
    obtain ⟨before', between, body', hbefore, hbody, rfl⟩ := run_stmt_staged.mp hrun
    rw [introduced_restage]
    exact (stmts_grow hBefore hbefore).append (hBody _ _ _ _ hbody)

theorem body_grows {locals : Locals} {statements result : List Stmt}
    (h : body model visit locals statements = .ok result) :
    Inserted P (Stmt.introducedAll statements) (Stmt.introducedAll result) := by
  obtain ⟨point, hrun⟩ := body_eq_ok.mp h
  exact stmts_grow (fun statement _ => stmt_grows hvisit statement) hrun

end Walks

end Walk

/-! ## The passes -/

section Passes

variable {model : Model} {locals : Locals} {body result : List Stmt}

/-- Making receivers explicit changes no variable. -/
theorem Receiver.run_introduced (h : Receiver.run model locals body = .ok result) :
    Stmt.introducedAll result = Stmt.introducedAll body :=
  (Walk.body_grows (P := fun _ => False) (fun _ _ => .lift _) h).eq_of_not fun _ => id

/-- The variables of operands belong to blocks. -/
theorem Address.run_introduced (h : Address.run model locals body = .ok result) :
    Inserted (fun entry => entry.kind = .letKind) (Stmt.introducedAll body)
      (Stmt.introducedAll result) := by
  refine Walk.body_grows (fun locals value => ?_) h
  unfold materializeCall
  split
  · split
    · split
      · intro pending after result h
        cases h
      · rename_i type htype
        intro pending after result h hbefore
        cases h
        exact List.forall_mem_append.mpr ⟨hbefore,
          List.forall_mem_singleton.mpr (List.forall_mem_singleton.mpr rfl)⟩
    · exact .pure _
  · exact .pure _

/-- **The passes leave the function-scoped variables.** -/
theorem PassSet.run_hoistable {passes : PassSet} {policy : DestructorPolicy}
    (h : passes.run model policy locals body = .ok result) :
    Stmt.hoistable result = Stmt.hoistable body := by
  rw [PassSet.run_eq] at h
  obtain ⟨injected, hinjected, h⟩ := Lowered.bind_eq_ok.mp h
  have hlast : Stmt.hoistable result = Stmt.hoistable injected := by
    by_cases hmaterialize : passes.materialize = true
    · rw [if_pos hmaterialize] at h
      refine (Address.run_introduced h).filter_eq fun entry hkind => ?_
      rw [Introduced.isHoistable, hkind]
      rfl
    · rw [if_neg hmaterialize] at h
      rw [Lowered.pure_eq_ok.mp h]
  have hcleaned : Stmt.introducedAll injected = Stmt.introducedAll body := by
    have hfirst : Stmt.introducedAll (if passes.destructors then
        Cleanup.run model policy locals body else body) = Stmt.introducedAll body := by
      by_cases hdestructors : passes.destructors = true
      · rw [if_pos hdestructors, Cleanup.run_introduced]
      · rw [if_neg hdestructors]
    by_cases hreceiver : passes.receiver = true
    · rw [if_pos hreceiver] at hinjected
      rw [Receiver.run_introduced hinjected, hfirst]
    · rw [if_neg hreceiver] at hinjected
      rw [Lowered.pure_eq_ok.mp hinjected, hfirst]
  rw [hlast, Stmt.hoistable, hcleaned, Stmt.hoistable]

end Passes

end NativeLowering
