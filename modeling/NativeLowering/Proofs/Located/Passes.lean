import NativeLowering.Pass.Run
import NativeLowering.Proofs.Located.Basic

/-!
# Places of errors in passes

The passes put nodes of their own into a body: destructor calls, receivers, temporaries with their
annotations. Each of these takes its span from a node that is there, so all spans stay within the
set that those of the body are in (`PassSet.run_located`), and so do the spans of errors. Only the
calls at the end of an empty block would have none to take, and there are no such calls.
-/

set_option autoImplicit false

namespace NativeLowering

open Lowered

variable {S : Span → Prop}

/-- All the spans of the statements are in the set. -/
abbrev WithinAll (S : Span → Prop) (body : List Stmt) : Prop := ∀ stmt ∈ body, Within S stmt.spans

/-! ## Destructor calls -/

namespace Cleanup

variable {model : Model} {policy : DestructorPolicy}

theorem destructorCall_within {span : Span} (h : S span) (name : String) :
    Within S (destructorCall span name).spans := by
  simp [destructorCall, Stmt.spans, Expr.spans, Expr.spansList, spansOption, h]

theorem calls_within {span : Span} (h : S span) (frame : Tracked) :
    WithinAll S (frame.calls span) := by
  intro stmt hstmt
  obtain ⟨name, -, rfl⟩ := List.mem_map.mp hstmt
  exact destructorCall_within h name

theorem exitCalls_within {span : Span} (h : S span) (exit : Exit) : ∀ frames : List Tracked,
    WithinAll S (exitCalls exit span frames)
  | [] => List.forall_mem_nil _
  | frame :: outer => by
    rw [exitCalls]
    refine List.forall_mem_append.mpr ⟨calls_within h frame, ?_⟩
    split
    · exact List.forall_mem_nil _
    · exact exitCalls_within h exit outer

theorem endCalls_within {span : Span} (h : S span) (scope : Scope) :
    WithinAll S (scope.endCalls span) := by
  unfold Scope.endCalls
  split
  · exact List.forall_mem_nil _
  · exact calls_within h _

theorem loneBlock_within {scope : Scope} {stmt : Stmt} {processed : Stmt × Scope}
    (hstmt : Within S stmt.spans) (hprocessed : Within S processed.1.spans) :
    Within S (loneBlock scope stmt processed).spans := by
  simp only [loneBlock, Stmt.spans, within_cons, within_stmtSpans]
  refine ⟨hstmt.stmt, ?_⟩
  split
  · exact List.forall_mem_append.mpr
      ⟨exitCalls_within hstmt.stmt _ _, List.forall_mem_singleton.mpr hstmt⟩
  · exact List.forall_mem_cons.mpr ⟨hprocessed, endCalls_within hstmt.stmt _⟩

mutual

theorem statement_within : ∀ (scope : Scope) (kind : FrameKind) (stmt : Stmt),
    Within S stmt.spans → Within S (statement model policy scope kind stmt).1.spans
  | _, _, .vars .., h | _, _, .expr .., h | _, _, .ret .., h | _, _, .brk _, h | _, _, .cont _, h => h
  | scope, _, .ifElse span condition thenBranch elseBranch, h => by
    simp only [Stmt.spans, within_cons, within_append] at h
    obtain ⟨hspan, hcondition, hthen, helse⟩ := h
    simp only [statement, Stmt.spans, within_cons, within_append]
    refine ⟨hspan, hcondition, ?_, elseStatement_within scope elseBranch helse⟩
    split
    · exact statement_within scope .block thenBranch hthen
    · exact loneBlock_within hthen (statement_within _ .block thenBranch hthen)
  | scope, _, .loop span condition body, h => by
    simp only [Stmt.spans, within_cons, within_append] at h
    obtain ⟨hspan, hcondition, hbody⟩ := h
    simp only [statement, Stmt.spans, within_cons, within_append]
    refine ⟨hspan, hcondition, ?_⟩
    split
    · exact statement_within scope .loop body hbody
    · exact loneBlock_within hbody (statement_within _ .block body hbody)
  | scope, kind, .block span body, h => by
    obtain ⟨hspan, hbody⟩ := within_cons.mp h
    simp only [statement, Stmt.spans, within_cons, within_stmtSpans]
    exact ⟨hspan, statements_within (scope.enter kind) {} body (.inr fun _ => rfl) hbody⟩
  | scope, _, .staged span before body, h => by
    simp only [Stmt.spans, within_cons, within_append] at h
    obtain ⟨hspan, hbefore, hbody⟩ := h
    simp only [statement, Stmt.spans, within_cons, within_append, within_stmtSpans]
    exact ⟨hspan, staged_within scope before hbefore, statement_within _ .block body hbody⟩

theorem elseStatement_within : ∀ (scope : Scope) (branch : Option Stmt),
    Within S (Stmt.spansElse branch) →
    Within S (Stmt.spansElse (elseStatement model policy scope branch))
  | _, none, h => h
  | scope, some branch, h => by
    simp only [elseStatement, Stmt.spansElse]
    split
    · exact statement_within scope .block branch h
    · exact loneBlock_within h (statement_within _ .block branch h)

/-- Either there is a statement to take a span from, or no variable to destroy. -/
theorem statements_within : ∀ (scope : Scope) (span : Span) (body : List Stmt),
    (S span ∨ ∀ place, scope.endCalls place = []) → Within S (Stmt.spansList body) →
    WithinAll S (statements model policy scope span body)
  | scope, span, [], hspan, _ => by
    rw [statements]
    rcases hspan with hspan | hempty
    · exact endCalls_within hspan scope
    · rw [hempty]
      exact List.forall_mem_nil _
  | scope, _, stmt :: rest, _, h => by
    obtain ⟨hstmt, hrest⟩ := within_append.mp h
    rw [statements]
    split
    · refine List.forall_mem_append.mpr ⟨exitCalls_within hstmt.stmt _ _, ?_⟩
      exact List.forall_mem_cons.mpr ⟨hstmt, within_stmtSpans.mp hrest⟩
    · exact List.forall_mem_cons.mpr ⟨statement_within scope .block stmt hstmt,
        statements_within _ stmt.span rest (.inl hstmt.stmt) hrest⟩

theorem staged_within : ∀ (scope : Scope) (body : List Stmt), Within S (Stmt.spansList body) →
    WithinAll S (staged model policy scope body).1
  | _, [], _ => List.forall_mem_nil _
  | scope, stmt :: rest, h => by
    obtain ⟨hstmt, hrest⟩ := within_append.mp h
    simp only [staged]
    exact List.forall_mem_cons.mpr ⟨statement_within scope .block stmt hstmt,
      staged_within _ rest hrest⟩

end

theorem run_within (locals : Locals) {body : List Stmt} (h : WithinAll S body) :
    WithinAll S (run model policy locals body) :=
  statements_within _ _ body (.inr fun _ => rfl) (within_stmtSpans.mpr h)

end Cleanup

/-! ## Walks -/

namespace Walk

/-- What a visit replaces an expression by, what it asks for and how it fails stay within the set. -/
def Placing (S : Span → Prop) (visit : Expr → ExprM Expr) : Prop :=
  ∀ (value : Expr) (pending : Pending), Within S value.spans → WithinAll S pending.before →
    Located S (fun entry => Within S entry.1.spans ∧ WithinAll S entry.2.before)
      ((visit value).run pending)

theorem Placing.of_lift {change : Expr → Lowered Expr}
    (h : ∀ value, Within S value.spans → (change value).Located S fun result => Within S result.spans) :
    Placing S fun value => liftM (change value) := by
  intro value pending hvalue hbefore
  refine (Located.run_lift (h value hvalue)).imp ?_
  rintro ⟨result, after⟩ ⟨hresult, rfl⟩
  exact ⟨hresult, hbefore⟩

section Expressions

variable {visit : Expr → ExprM Expr}

mutual

theorem expr_located (hvisit : Placing S visit) : Placing S (expr visit)
  | .ident .., pending, h, hbefore => hvisit _ pending h hbefore
  | .thisRef _, pending, h, hbefore => hvisit _ pending h hbefore
  | .literal .., pending, h, hbefore => hvisit _ pending h hbefore
  | .property span object name, pending, h, hbefore => by
    obtain ⟨hspan, hobject⟩ := within_cons.mp h
    refine Located.run_bind (expr_located hvisit object pending hobject hbefore) ?_
    intro object after ⟨hobject, hbefore⟩
    exact hvisit _ after (within_cons.mpr ⟨hspan, hobject⟩) hbefore
  | .call span callee typeArgs args, pending, h, hbefore => by
    simp only [Expr.spans, within_cons, within_append] at h
    obtain ⟨hspan, hcallee, htypes, hargs⟩ := h
    refine Located.run_bind (expr_located hvisit callee pending hcallee hbefore) ?_
    intro callee between ⟨hcallee, hbetween⟩
    refine Located.run_bind (exprs_located hvisit args between hargs hbetween) ?_
    intro args after ⟨hargs, hbefore⟩
    refine hvisit _ after ?_ hbefore
    simp only [Expr.spans, within_cons, within_append]
    exact ⟨hspan, hcallee, htypes, hargs⟩
  | .new span target args, pending, h, hbefore => by
    simp only [Expr.spans, within_cons, within_append] at h
    obtain ⟨hspan, htarget, hargs⟩ := h
    refine Located.run_bind (exprs_located hvisit args pending hargs hbefore) ?_
    intro args after ⟨hargs, hbefore⟩
    refine hvisit _ after ?_ hbefore
    simp only [Expr.spans, within_cons, within_append]
    exact ⟨hspan, htarget, hargs⟩
  | .binary span op left right, pending, h, hbefore => by
    simp only [Expr.spans, within_cons, within_append] at h
    obtain ⟨hspan, hleft, hright⟩ := h
    refine Located.run_bind (expr_located hvisit left pending hleft hbefore) ?_
    intro left between ⟨hleft, hbetween⟩
    refine Located.run_bind (expr_located hvisit right between hright hbetween) ?_
    intro right after ⟨hright, hbefore⟩
    refine hvisit _ after ?_ hbefore
    simp only [Expr.spans, within_cons, within_append]
    exact ⟨hspan, hleft, hright⟩
  | .unary span op operand, pending, h, hbefore => by
    obtain ⟨hspan, hoperand⟩ := within_cons.mp h
    refine Located.run_bind (expr_located hvisit operand pending hoperand hbefore) ?_
    intro operand after ⟨hoperand, hbefore⟩
    exact hvisit _ after (within_cons.mpr ⟨hspan, hoperand⟩) hbefore
  | .paren span inner, pending, h, hbefore => by
    obtain ⟨hspan, hinner⟩ := within_cons.mp h
    refine Located.run_bind (expr_located hvisit inner pending hinner hbefore) ?_
    intro inner after ⟨hinner, hbefore⟩
    exact hvisit _ after (within_cons.mpr ⟨hspan, hinner⟩) hbefore
  | .comma span items, pending, h, hbefore => by
    obtain ⟨hspan, hitems⟩ := within_cons.mp h
    refine Located.run_bind (exprs_located hvisit items pending hitems hbefore) ?_
    intro items after ⟨hitems, hbefore⟩
    exact hvisit _ after (within_cons.mpr ⟨hspan, hitems⟩) hbefore
  | .receiverCall span owner method args, pending, h, hbefore => by
    obtain ⟨hspan, hargs⟩ := within_cons.mp h
    refine Located.run_bind (exprs_located hvisit args pending hargs hbefore) ?_
    intro args after ⟨hargs, hbefore⟩
    exact hvisit _ after (within_cons.mpr ⟨hspan, hargs⟩) hbefore

theorem exprs_located (hvisit : Placing S visit) : ∀ (items : List Expr) (pending : Pending),
    Within S (Expr.spansList items) → WithinAll S pending.before →
    Located S (fun entry => Within S (Expr.spansList entry.1) ∧ WithinAll S entry.2.before)
      ((exprs visit items).run pending)
  | [], _, _, hbefore => ⟨by simp [Expr.spansList], hbefore⟩
  | item :: rest, pending, h, hbefore => by
    obtain ⟨hitem, hrest⟩ := within_append.mp h
    refine Located.run_bind (expr_located hvisit item pending hitem hbefore) ?_
    intro item between ⟨hitem, hbetween⟩
    refine Located.run_bind (exprs_located hvisit rest between hrest hbetween) ?_
    intro rest after ⟨hrest, hbefore⟩
    exact ⟨within_append.mpr ⟨hitem, hrest⟩, hbefore⟩

end

end Expressions

section Statements

variable {model : Model} {visit : Visit}

section Parts

variable (hvisit : ∀ locals, Placing S (visit locals))
include hvisit

theorem atPoint_located {value : Expr} (h : Within S value.spans) (point : Point) :
    Located S (fun entry => Within S entry.1.1.spans ∧ WithinAll S entry.1.2)
      ((atPoint visit value).run point) := by
  refine Located.run_bind (Q := fun entry => entry = (point, point)) rfl ?_
  intro _ _ heq
  cases heq
  have hvalue := expr_located (hvisit point.locals) value ⟨point.next, []⟩ h (List.forall_mem_nil _)
  refine Located.run_bind (Located.run_lift hvalue) ?_
  rintro ⟨result, pending⟩ after ⟨⟨hresult, hbefore⟩, rfl⟩
  exact ⟨hresult, hbefore⟩

theorem atPointOption_located {value : Option Expr} (h : ∀ part ∈ value, Within S part.spans)
    (point : Point) :
    Located S (fun entry => (∀ part ∈ entry.1.1, Within S part.spans) ∧ WithinAll S entry.1.2)
      ((atPointOption visit value).run point) := by
  cases value with
  | none => exact ⟨h, List.forall_mem_nil _⟩
  | some value =>
    refine Located.run_bind (atPoint_located hvisit (h value rfl) point) ?_
    rintro ⟨result, before⟩ after ⟨hresult, hbefore⟩
    exact ⟨fun part hpart => Option.some.inj hpart ▸ hresult, hbefore⟩

theorem varDecl_located {decl : VariableDecl} (h : Within S decl.spans) (point : Point) :
    Located S (fun entry => Within S entry.1.1.spans ∧ WithinAll S entry.1.2)
      ((varDecl model visit decl).run point) := by
  simp only [VariableDecl.spans, within_cons, within_append, within_spansOption] at h
  obtain ⟨hspan, htype, hinit⟩ := h
  refine Located.run_bind (atPointOption_located hvisit hinit point) ?_
  rintro ⟨init, before⟩ after ⟨hinit, hbefore⟩
  have hresult : Within S (VariableDecl.spans { decl with init }) := by
    simp only [VariableDecl.spans, within_cons, within_append, within_spansOption]
    exact ⟨hspan, htype, hinit⟩
  dsimp only
  cases decl.name.ident? with
  | none => exact ⟨hresult, hbefore⟩
  | some name => exact ⟨hresult, hbefore⟩

theorem varDecls_located : ∀ (decls : List VariableDecl) (point : Point),
    (∀ decl ∈ decls, Within S decl.spans) →
    Located S (fun entry => (∀ decl ∈ entry.1.1, Within S decl.spans) ∧ WithinAll S entry.1.2)
      ((varDecls model visit decls).run point)
  | [], _, _ => ⟨List.forall_mem_nil _, List.forall_mem_nil _⟩
  | decl :: rest, point, h => by
    obtain ⟨hdecl, hrest⟩ := List.forall_mem_cons.mp h
    refine Located.run_bind (varDecl_located hvisit hdecl point) ?_
    rintro ⟨decl, before⟩ between ⟨hdecl, hbefore⟩
    refine Located.run_bind (varDecls_located rest between hrest) ?_
    rintro ⟨rest, more⟩ after ⟨hrest, hmore⟩
    exact ⟨List.forall_mem_cons.mpr ⟨hdecl, hrest⟩, List.forall_mem_append.mpr ⟨hbefore, hmore⟩⟩

end Parts

theorem inFrame_located {α : Type} {Q : α → Prop} (kind : FrameKind) {walk : StmtM α}
    (h : ∀ point, Located S (fun entry => Q entry.1) (walk.run point)) (point : Point) :
    Located S (fun entry => Q entry.1) ((inFrame kind walk).run point) := by
  refine Located.run_bind (Q := fun _ => True) trivial fun _ _ _ => ?_
  refine Located.run_bind (Q := fun _ => True) trivial fun _ between _ => ?_
  exact Located.run_bind (h between) fun _ _ hresult => hresult

theorem stage_within {before : List Stmt} {stmt : Stmt} (hbefore : WithinAll S before)
    (hstmt : Within S stmt.spans) : Within S (stage before stmt).spans := by
  unfold stage
  split
  · exact hstmt
  · simp only [Stmt.spans, within_cons, within_append, within_stmtSpans]
    exact ⟨hstmt.stmt, hbefore, hstmt⟩

theorem withSpan_within {span : Span} (hspan : S span) {stmt : Stmt} (h : Within S stmt.spans) :
    Within S (stmt.withSpan span).spans := by
  cases stmt <;> exact within_cons.mpr ⟨hspan, (within_cons.mp h).2⟩

theorem restage_within {span : Span} (hspan : S span) {before : List Stmt} {stmt : Stmt}
    (hbefore : WithinAll S before) (h : Within S stmt.spans) :
    Within S (restage span before stmt).spans := by
  cases stmt with
  | staged place more body =>
    simp only [Stmt.spans, within_cons, within_append, within_stmtSpans] at h
    exact stage_within (List.forall_mem_append.mpr ⟨hbefore, h.2.1⟩) (withSpan_within hspan h.2.2)
  | _ => exact stage_within hbefore (withSpan_within hspan h)

mutual

theorem stmt_located (hvisit : ∀ locals, Placing S (visit locals)) :
    ∀ (statement : Stmt) (point : Point), Within S statement.spans →
    Located S (fun entry => Within S entry.1.spans) ((stmt model visit statement).run point)
  | .vars span kind decls, point, h => by
    simp only [Stmt.spans, within_cons, within_flatMap] at h
    refine Located.run_bind (varDecls_located hvisit decls point h.2) ?_
    rintro ⟨decls, before⟩ after ⟨hdecls, hbefore⟩
    refine stage_within hbefore ?_
    simp only [Stmt.spans, within_cons, within_flatMap]
    exact ⟨h.1, hdecls⟩
  | .expr span value, point, h => by
    obtain ⟨hspan, hvalue⟩ := within_cons.mp h
    refine Located.run_bind (atPoint_located hvisit hvalue point) ?_
    rintro ⟨value, before⟩ after ⟨hvalue, hbefore⟩
    exact stage_within hbefore (within_cons.mpr ⟨hspan, hvalue⟩)
  | .ret span value, point, h => by
    simp only [Stmt.spans, within_cons, within_spansOption] at h
    refine Located.run_bind (atPointOption_located hvisit h.2 point) ?_
    rintro ⟨value, before⟩ after ⟨hvalue, hbefore⟩
    refine stage_within hbefore ?_
    simp only [Stmt.spans, within_cons, within_spansOption]
    exact ⟨h.1, hvalue⟩
  | .ifElse span condition thenBranch elseBranch, point, h => by
    simp only [Stmt.spans, within_cons, within_append] at h
    obtain ⟨hspan, hcondition, hthen, helse⟩ := h
    refine Located.run_bind (atPoint_located hvisit hcondition point) ?_
    rintro ⟨condition, before⟩ first ⟨hcondition, hbefore⟩
    refine Located.run_bind (inFrame_located (Q := fun stmt => Within S stmt.spans) .block
      (fun inner => stmt_located hvisit thenBranch inner hthen) first) ?_
    intro thenBranch second hthen
    refine Located.run_bind (elseStmt_located hvisit elseBranch second helse) ?_
    intro elseBranch after helse
    refine stage_within hbefore ?_
    simp only [Stmt.spans, within_cons, within_append]
    exact ⟨hspan, hcondition, hthen, helse⟩
  | .loop span condition body, point, h => by
    simp only [Stmt.spans, within_cons, within_append] at h
    obtain ⟨hspan, hcondition, hbody⟩ := h
    refine Located.run_bind (atPoint_located hvisit hcondition point) ?_
    rintro ⟨condition, before⟩ between ⟨hcondition, hbefore⟩
    refine Located.run_bind (inFrame_located (Q := fun stmt => Within S stmt.spans) .loop
      (fun inner => stmt_located hvisit body inner hbody) between) ?_
    intro body after hbody
    refine stage_within hbefore ?_
    simp only [Stmt.spans, within_cons, within_append]
    exact ⟨hspan, hcondition, hbody⟩
  | .brk span, _, h => h
  | .cont span, _, h => h
  | .block span body, point, h => by
    obtain ⟨hspan, hbody⟩ := within_cons.mp h
    refine Located.run_bind
      (inFrame_located .block (fun inner => stmts_located hvisit body inner hbody) point) ?_
    intro body after hbody
    exact within_cons.mpr ⟨hspan, within_stmtSpans.mpr hbody⟩
  | .staged span before body, point, h => by
    simp only [Stmt.spans, within_cons, within_append] at h
    obtain ⟨hspan, hbefore, hbody⟩ := h
    refine Located.run_bind (stmts_located hvisit before point hbefore) ?_
    intro before between hbefore
    refine Located.run_bind (stmt_located hvisit body between hbody) ?_
    intro body after hbody
    exact restage_within hspan hbefore hbody

theorem elseStmt_located (hvisit : ∀ locals, Placing S (visit locals)) :
    ∀ (branch : Option Stmt) (point : Point), Within S (Stmt.spansElse branch) →
    Located S (fun entry => Within S (Stmt.spansElse entry.1))
      ((elseStmt model visit branch).run point)
  | none, _, h => h
  | some branch, point, h => by
    refine Located.run_bind (inFrame_located (Q := fun stmt => Within S stmt.spans) .block
      (fun inner => stmt_located hvisit branch inner h) point) ?_
    intro branch after hbranch
    exact hbranch

theorem stmts_located (hvisit : ∀ locals, Placing S (visit locals)) :
    ∀ (body : List Stmt) (point : Point), Within S (Stmt.spansList body) →
    Located S (fun entry => WithinAll S entry.1) ((stmts model visit body).run point)
  | [], _, _ => List.forall_mem_nil _
  | head :: rest, point, h => by
    obtain ⟨hhead, hrest⟩ := within_append.mp h
    refine Located.run_bind (stmt_located hvisit head point hhead) ?_
    intro head between hhead
    refine Located.run_bind (stmts_located hvisit rest between hrest) ?_
    intro rest after hrest
    exact List.forall_mem_cons.mpr ⟨hhead, hrest⟩

end

theorem body_located (hvisit : ∀ locals, Placing S (visit locals)) (locals : Locals)
    {statements : List Stmt} (h : WithinAll S statements) :
    Located S (WithinAll S) (body model visit locals statements) :=
  Located.map (stmts_located hvisit statements _ (within_stmtSpans.mpr h)) fun _ hresult => hresult

end Statements

end Walk

/-! ## The passes on expressions -/

namespace Receiver

variable {model : Model} {locals : Locals}

theorem owningClass_points (method : String) {span : Span} (h : S span) : ∀ type : Ty,
    (owningClass model method span type).Points S
  | .classTy name => by
    rw [owningClass]
    split <;> trivial
  | .pointer inner => owningClass_points method h inner
  | .interfaceTy name => by
    rw [owningClass]
    split
    · split
      · exact located_failAt.mpr h
      · trivial
    · trivial
  | .named _ | .primitive _ | .moduleTy _ | .function | .unknown => trivial

theorem argument_located (owner : String) {object : Expr} (h : Within S object.spans) (type : Ty) :
    Located S (fun result => Within S result.spans) (argument model owner object type) := by
  have hcallee : Located S (fun callee => Within S callee.spans)
      (builtinCallee model .addressOf object.span) := by
    unfold builtinCallee
    split
    · exact within_cons.mpr ⟨h.expr, within_nil.mpr trivial⟩
    · exact located_failAt.mpr h.expr
  have haddress : Located S (fun result => Within S result.spans) (addressOf model object) := by
    refine hcallee.bind fun callee hcallee => ?_
    simp only [located_pure, Expr.spans, Expr.spansList, spansOption, within_cons, within_append,
      within_nil]
    exact ⟨h.expr, hcallee, trivial, h, trivial⟩
  unfold argument
  split
  · exact h
  · exact h
  · split
    · exact h
    · exact haddress
  · exact haddress

theorem injectCall_located {value : Expr} (h : Within S value.spans) :
    Located S (fun result => Within S result.spans) (injectCall model locals value) := by
  unfold injectCall
  split
  · rename_i span place object name typeArgs args
    split
    · exact h
    · dsimp only
      have hparts := h
      simp only [Expr.spans, within_cons, within_append, within_exprSpans] at hparts
      obtain ⟨hspan, ⟨-, hobject⟩, -, hargs⟩ := hparts
      refine (owningClass_points name hspan _).bind fun owner => ?_
      split
      · exact h
      · refine (argument_located _ hobject _).bind fun receiver hreceiver => ?_
        simp only [located_pure, Expr.spans, within_cons, within_exprSpans]
        exact ⟨hspan, List.forall_mem_cons.mpr ⟨hreceiver, hargs⟩⟩
  · exact h

theorem run_located {body : List Stmt} (h : WithinAll S body) :
    Located S (WithinAll S) (run model locals body) :=
  Walk.body_located (fun _ => .of_lift fun _ => injectCall_located) locals h

theorem bindReceiver_located {body : List Stmt} (h : WithinAll S body) :
    Located S (WithinAll S) (bindReceiver model locals body) := by
  refine Walk.body_located (fun _ value pending hvalue hbefore => ?_) locals h
  show Within S (bindThis value).spans ∧ WithinAll S pending.before
  refine ⟨?_, hbefore⟩
  cases value <;> exact hvalue

end Receiver

theorem Ty.toTypeNode_within {span : Span} (h : S span) : ∀ {type : Ty} {node : TypeNode},
    type.toTypeNode? span = some node → Within S node.spans
  | .classTy _, _, rfl | .interfaceTy _, _, rfl | .named _, _, rfl =>
    within_cons.mpr ⟨h, within_nil.mpr trivial⟩
  | .pointer inner, _, hnode => by
    obtain ⟨target, htarget, rfl⟩ := Option.map_eq_some_iff.mp hnode
    simp only [TypeNode.spans, within_cons, within_typeSpans, List.forall_mem_singleton]
    exact ⟨h, toTypeNode_within h htarget⟩
  | .primitive _, _, rfl => within_cons.mpr ⟨h, within_nil.mpr trivial⟩

namespace Address

variable {model : Model} {locals : Locals}

theorem materializeCall_located : Walk.Placing S (materializeCall model locals) := by
  intro value pending hvalue hbefore
  unfold materializeCall
  split
  · rename_i span callee typeArgs operand
    have hparts := hvalue
    simp only [Expr.spans, within_cons, within_append, within_spansOption, within_exprSpans,
      List.forall_mem_singleton] at hparts
    obtain ⟨hspan, hcallee, htypes, hoperand⟩ := hparts
    split
    · split
      · exact located_failAt.mpr hoperand.expr
      · rename_i node hnode
        have htype := Ty.toTypeNode_within hoperand.expr hnode
        refine ⟨?_, List.forall_mem_append.mpr ⟨hbefore, List.forall_mem_singleton.mpr ?_⟩⟩
        · simp only [throughTemporary, Expr.spans, Expr.spansList, within_cons, within_append,
            within_spansOption, within_nil]
          exact ⟨hspan, hspan, ⟨hoperand.expr, ⟨hoperand.expr, trivial⟩, hoperand⟩,
            ⟨hspan, hcallee, htypes, ⟨hoperand.expr, trivial⟩, trivial⟩, trivial⟩
        · simp only [declaration, Stmt.spans, within_cons, within_flatMap,
            List.forall_mem_singleton, VariableDecl.spans, within_append, spansOption, within_nil]
          exact ⟨hoperand.expr, hoperand.expr, htype, trivial⟩
    · exact ⟨hvalue, hbefore⟩
  · exact ⟨hvalue, hbefore⟩

theorem run_located {body : List Stmt} (h : WithinAll S body) :
    Located S (WithinAll S) (run model locals body) :=
  Walk.body_located (fun _ => materializeCall_located) locals h

end Address

/-! ## All passes -/

theorem Pass.run_located {model : Model} {policy : DestructorPolicy} {locals : Locals}
    {body : List Stmt} (h : WithinAll S body) (pass : Pass) :
    Located S (WithinAll S) (pass.run model policy locals body) := by
  cases pass with
  | destructors => exact Cleanup.run_within locals h
  | receiver => exact Receiver.run_located h
  | materialize => exact Address.run_located h

/-- The passes keep the spans of a body and fail at one of them. -/
theorem PassSet.run_located {model : Model} {policy : DestructorPolicy} {locals : Locals}
    {body : List Stmt} (h : WithinAll S body) (passes : PassSet) :
    Located S (WithinAll S) (passes.run model policy locals body) := by
  unfold PassSet.run
  induction passes.toList generalizing body with
  | nil => exact h
  | cons pass rest ih =>
    rw [List.foldlM_cons]
    exact (Pass.run_located h pass).bind fun _ hbetween => ih hbetween

end NativeLowering
