import NativeLowering.Generate
import NativeLowering.Proofs.Emit.Draft
import NativeLowering.Proofs.Surface.Passes
import NativeLowering.Proofs.Surface.Text

/-!
# Writing with an addition

A session that writes a program which spares an addition goes through the same states with the
addition. What it takes is that the bindings of the open function spare the addition, which every
step keeps (`Keeps`); then every text and every pass comes out the same.

The bindings that a session makes have the types of annotations. So they do not even differ in ways
that nothing observes, and the states are equal.
-/

set_option autoImplicit false

namespace NativeLowering

open Stmt (AllList)

namespace Emit

variable {α β : Type} {added : Addition} {I : Option OpenFunction → Prop}

/-- A function is open, and its bindings spare the addition. -/
def Quiet (added : Addition) (opened : Option OpenFunction) : Prop :=
  ∃ current, opened = some current ∧ Locals.Same added current.locals current.locals

/-- No function is open. -/
def Closed (opened : Option OpenFunction) : Prop := opened = none

/-- Where the condition holds of the open function, what the first step does the second does as
well. The condition holds afterwards, and the value meets the other one. -/
def Keeps (I : Option OpenFunction → Prop) (R : α → Prop) (step step' : Emit α) : Prop :=
  ∀ session value after, I session.openFunction → Gives step session value after →
    Gives step' session value after ∧ I after.openFunction ∧ R value

/-- A condition that says nothing. -/
def Any {α : Type} (_ : α) : Prop := True

namespace Keeps

/-! ## Steps and their composition -/

theorem pure {R : α → Prop} {value : α} (h : R value) : Keeps I R (pure value) (pure value) := by
  intro session other after hquiet hgives
  obtain ⟨rfl, rfl⟩ := gives_pure.mp hgives
  exact ⟨hgives, hquiet, h⟩

theorem throw {R : α → Prop} {e : LoweringError} (step : Emit α) :
    Keeps I R (throw e) step := by
  intro session value after _ hgives
  exact absurd hgives gives_throw

theorem bind {R : α → Prop} {S : β → Prop} {step step' : Emit α} {next next' : α → Emit β}
    (h : Keeps I R step step')
    (hnext : ∀ value, R value → Keeps I S (next value) (next' value)) :
    Keeps I S (step >>= next) (step' >>= next') := by
  intro session value after hquiet hgives
  obtain ⟨middle, between, hstep, hrest⟩ := gives_bind.mp hgives
  obtain ⟨hstep', hquiet', hmiddle⟩ := h session middle between hquiet hstep
  obtain ⟨hrest', hquiet'', hvalue⟩ := hnext middle hmiddle between value after hquiet' hrest
  exact ⟨gives_bind.mpr ⟨middle, between, hstep', hrest'⟩, hquiet'', hvalue⟩

theorem seq {S : β → Prop} {step step' : Emit Unit} {next next' : Unit → Emit β}
    (h : Keeps I Any step step') (hnext : Keeps I S (next ()) (next' ())) :
    Keeps I S (step >>= next) (step' >>= next') :=
  h.bind fun _ _ => hnext

theorem lift {R : α → Prop} {computed computed' : Lowered α}
    (h : ∀ value, computed = .ok value → computed' = .ok value ∧ R value) :
    Keeps I R (liftM computed) (liftM computed') := by
  intro session value after hquiet hgives
  obtain ⟨hvalue, rfl⟩ := gives_lift.mp hgives
  exact ⟨gives_lift.mpr ⟨(h value hvalue).1, rfl⟩, hquiet, (h value hvalue).2⟩

/-- A step that leaves the open function alone. -/
theorem aside {step : Emit α} (h : ∀ session value after, Gives step session value after →
    after.openFunction = session.openFunction) : Keeps I Any step step := by
  intro session value after hquiet hgives
  exact ⟨hgives, h session value after hgives ▸ hquiet, trivial⟩

theorem append (text : String) (mode : AppendMode) :
    Keeps I Any (append text mode) (append text mode) := by
  refine aside fun session value after hgives => ?_
  rw [gives_append.mp hgives]

theorem indent : Keeps I Any indent indent := by
  refine aside fun session value after hgives => ?_
  rw [gives_indent.mp hgives]

theorem dedent : Keeps I Any dedent dedent := by
  refine aside fun session value after hgives => ?_
  rw [gives_dedent.mp hgives]

theorem theLocals (span : Span) :
    Keeps (Quiet added) (fun locals => Locals.Same added locals locals) (theLocals span)
      (theLocals span) := by
  rintro session value after ⟨current, hopen, hsame⟩ hgives
  obtain ⟨hlocals, rfl⟩ := (gives_computed (run_theLocals hopen span)).mp hgives
  obtain rfl := Except.ok.inj hlocals
  exact ⟨hgives, ⟨current, hopen, hsame⟩, hsame⟩

theorem onLocals (span : Span) {change : Locals → Locals}
    (h : ∀ locals, Locals.Same added locals locals →
      Locals.Same added (change locals) (change locals)) :
    Keeps (Quiet added) Any (onLocals span change) (onLocals span change) := by
  rintro session value after ⟨current, hopen, hsame⟩ hgives
  refine ⟨hgives, ?_, trivial⟩
  obtain ⟨found, hfound, rfl⟩ := gives_onLocals.mp hgives
  obtain rfl : found = current := Option.some.inj (hfound.symm.trans hopen)
  exact ⟨_, rfl, h _ hsame⟩

theorem onRecord (span : Span) (change : FunctionRecord → FunctionRecord) :
    Keeps (Quiet added) Any (onRecord span change) (onRecord span change) := by
  rintro session value after ⟨current, hopen, hsame⟩ hgives
  refine ⟨hgives, ?_, trivial⟩
  obtain ⟨found, hfound, rfl⟩ := gives_onRecord.mp hgives
  obtain rfl : found = current := Option.some.inj (hfound.symm.trans hopen)
  exact ⟨_, rfl, hsame⟩

theorem inScope {R : α → Prop} {step step' : Emit α} (h : Keeps I R step step')
    (buffer : Buffer) :
    Keeps I (fun result => R result.1) (inScope buffer step) (inScope buffer step') := by
  intro session value after hquiet hgives
  obtain ⟨inner, next, outer, hstep, hnext, hwritten, rfl⟩ := gives_inScope.mp hgives
  obtain ⟨hstep', hquiet', hvalue⟩ := h _ _ _ (by exact hquiet) hstep
  refine ⟨?_, hquiet', hvalue⟩
  exact gives_inScope.mpr ⟨inner, next, outer, hstep', hnext, hwritten, rfl⟩

theorem asStatement {step step' : Emit Unit} (h : Keeps I Any step step') :
    Keeps I Any (asStatement step) (asStatement step') := by
  intro session value after hquiet hgives
  obtain ⟨inner, hstep, hpop⟩ := gives_asStatement.mp hgives
  obtain ⟨hstep', hquiet', -⟩ := h _ _ _ (by exact hquiet) hstep
  refine ⟨gives_asStatement.mpr ⟨inner, hstep', hpop⟩, ?_, trivial⟩
  obtain ⟨next, outer, stage, stages, -, -, rfl⟩ := gives_popStatement.mp hpop
  exact hquiet'

theorem inPrelude {R : α → Prop} {step step' : Emit α} (h : Keeps I R step step') :
    Keeps I R (inPrelude step) (inPrelude step') := by
  intro session value after hquiet hgives
  obtain ⟨stage, stages, inner, next, outer, newStage, newStages, hstages, hstep, hnext, hnew, rfl⟩ :=
    gives_inPrelude.mp hgives
  obtain ⟨hstep', hquiet', hvalue⟩ := h _ _ _ (by exact hquiet) hstep
  refine ⟨?_, hquiet', hvalue⟩
  exact gives_inPrelude.mpr
    ⟨stage, stages, inner, next, outer, newStage, newStages, hstages, hstep', hnext, hnew, rfl⟩

theorem braced {step step' : Emit Unit} (h : Keeps (Quiet added) Any step step') (span : Span)
    (kind : FrameKind) : Keeps (Quiet added) Any (braced span kind step) (braced span kind step') := by
  refine (append _ _).seq (indent.seq ?_)
  refine (onLocals span fun locals hlocals => hlocals.push kind).seq (h.seq ?_)
  exact (onLocals span fun locals hlocals => hlocals.pop).seq (dedent.seq (append _ _))

/-! ## Functions and classes -/

/-- A function is opened, and closed once something is written into it. -/
theorem function (record : FunctionRecord) {locals : Locals}
    (hlocals : Locals.Same added locals locals) (visibility : Option Visibility) (span : Span)
    {step step' : Emit Unit} (h : Keeps (Quiet added) Any step step') :
    Keeps Closed Any
      (do beginFunction record locals visibility span; step; endFunction span)
      (do beginFunction record locals visibility span; step'; endFunction span) := by
  intro session value after hclosed hgives
  simp only [gives_bind] at hgives ⊢
  obtain ⟨_, opened, hbegin, _, written, hstep, hend⟩ := hgives
  obtain ⟨-, rfl⟩ := gives_beginFunction.mp hbegin
  obtain ⟨hstep', -, -⟩ := h _ _ _ ⟨_, rfl, hlocals⟩ hstep
  refine ⟨⟨_, _, hbegin, _, written, hstep', hend⟩, ?_, trivial⟩
  obtain ⟨finished, -, ⟨_, _, -, -, rfl⟩ | ⟨-, -, rfl⟩⟩ := gives_endFunction.mp hend
  · rfl
  · rfl

theorem beginClass (record : ClassRecord) (span : Span) :
    Keeps I Any (beginClass record span) (beginClass record span) := by
  refine aside fun session value after hgives => ?_
  obtain ⟨-, -, rfl⟩ := gives_beginClass.mp hgives
  rfl

theorem endClass (span : Span) : Keeps I Any (endClass span) (endClass span) := by
  refine aside fun session value after hgives => ?_
  obtain ⟨record, -, rfl⟩ := gives_endClass.mp hgives
  rfl

theorem addField (field : FieldRecord) (span : Span) :
    Keeps I Any (addField field span) (addField field span) := by
  refine aside fun session value after hgives => ?_
  obtain ⟨record, -, rfl⟩ := gives_addField.mp hgives
  rfl

theorem appendLines (lines : List String) :
    Keeps I Any (appendLines lines) (appendLines lines) := by
  induction lines with
  | nil => exact pure trivial
  | cons line rest ih => exact (append line .line).seq ih

end Keeps

/-! ## Statements -/

section Writing

variable {model model' : Model} {thisCalled : Prop} {options : Options}

section Statements

variable (h : added.Extended model model')
include h

theorem typeString_keeps {node : TypeNode} (hnode : added.SparesType node) :
    Keeps I Any (typeString ⟨model, options⟩ node) (typeString ⟨model', options⟩ node) := by
  intro session type after hquiet hgives
  obtain ⟨htype, rfl⟩ := gives_typeString.mp hgives
  refine ⟨gives_typeString.mpr ⟨?_, rfl⟩, hquiet, trivial⟩
  exact (h.typePiece_same hnode).trans htype

variable [model.Typed] [model'.Typed]

theorem expr_keeps {value : Expr} (hvalue : added.SparesExpr thisCalled value) :
    Keeps (Quiet added) Any (expr ⟨model, options⟩ value) (expr ⟨model', options⟩ value) := by
  rintro session _ after ⟨current, hopen, hsame⟩ hgives
  obtain ⟨text, htext, rfl⟩ := (gives_expr hopen).mp hgives
  have htext' := h.exprText_below hsame value hvalue text htext
  exact ⟨(gives_expr hopen).mpr ⟨text, htext', rfl⟩, ⟨current, hopen, hsame⟩, trivial⟩

theorem initialized_keeps (introduction : String) {init : Expr}
    (hinit : added.SparesExpr thisCalled init) :
    Keeps (Quiet added) Any (initialized ⟨model, options⟩ introduction init)
      (initialized ⟨model', options⟩ introduction init) :=
  (Keeps.append _ _).seq ((expr_keeps h hinit).seq (Keeps.append _ _))

/-- A variable or parameter is bound to the type of its annotation. -/
theorem declare_keeps {node : TypeNode} (hnode : added.SparesType node) (name : String)
    (span : Span) :
    Keeps (Quiet added) Any
      (onLocals span fun locals => locals.declare name (model.typeFromNode node))
      (onLocals span fun locals => locals.declare name (model'.typeFromNode node)) := by
  obtain ⟨heq, hspares⟩ := h.typeFromNode_same node hnode
  rw [heq]
  exact Keeps.onLocals span fun locals hlocals => hlocals.declare name (.inl ⟨rfl, hspares⟩)

theorem variableDecl_keeps (kind : VariableKind) {decl : VariableDecl}
    (hdecl : decl.All (added.SparesExpr thisCalled) added.SparesBinding) :
    Keeps (Quiet added) Any (variableDecl ⟨model, options⟩ kind decl)
      (variableDecl ⟨model', options⟩ kind decl) := by
  obtain ⟨htype, hinit⟩ := hdecl
  refine Keeps.bind (Keeps.lift (R := Any) fun name hname => ⟨hname, trivial⟩) fun name _ => ?_
  have hnode : Keeps (Quiet added) added.SparesType (liftM (variableType decl name))
      (liftM (variableType decl name)) := by
    refine Keeps.lift fun node hnode => ⟨hnode, htype node ?_⟩
    unfold variableType at hnode
    split at hnode
    · rename_i found hfound
      cases hnode
      exact hfound
    · cases hnode
  refine hnode.bind fun node hspares => ?_
  refine (typeString_keeps h hspares).bind fun type _ => ?_
  have hdeclare := declare_keeps h hspares name decl.span
  cases hvalue : decl.init with
  | none =>
    cases kind with
    | varKind => exact (Keeps.onRecord _ _).seq hdeclare
    | letKind | constKind => exact (Keeps.append _ _).seq hdeclare
  | some init =>
    have hspared := hinit init hvalue
    cases kind with
    | varKind => exact (Keeps.onRecord _ _).seq ((initialized_keeps h _ hspared).seq hdeclare)
    | letKind | constKind => exact (initialized_keeps h _ hspared).seq hdeclare

theorem variableDecls_keeps (kind : VariableKind) {decls : List VariableDecl}
    (hdecls : ∀ decl ∈ decls, decl.All (added.SparesExpr thisCalled) added.SparesBinding) :
    Keeps (Quiet added) Any (variableDecls ⟨model, options⟩ kind decls)
      (variableDecls ⟨model', options⟩ kind decls) := by
  induction decls with
  | nil => exact Keeps.pure trivial
  | cons decl rest ih =>
    refine (variableDecl_keeps h kind (hdecls decl (by simp))).seq ?_
    exact ih fun other hmem => hdecls other (by simp [hmem])

theorem head_keeps (word : String) {condition : Expr}
    (hcondition : added.SparesExpr thisCalled condition) :
    Keeps (Quiet added) Any (head ⟨model, options⟩ word condition)
      (head ⟨model', options⟩ word condition) :=
  (Keeps.append _ _).seq ((expr_keeps h hcondition).seq (Keeps.append _ _))

end Statements

theorem branch_keeps {cx cx' : Context} {stmt : Stmt} (kind : FrameKind)
    (h : Keeps (Quiet added) Any (content cx stmt) (content cx' stmt)) :
    Keeps (Quiet added) Any
      (if stmt.isBlock then content cx stmt
        else braced stmt.span kind (asStatement (content cx stmt)))
      (if stmt.isBlock then content cx' stmt
        else braced stmt.span kind (asStatement (content cx' stmt))) := by
  split
  · exact h
  · exact h.asStatement.braced stmt.span kind

theorem stmts_keeps_of_forall {cx cx' : Context} {body : List Stmt}
    (h : ∀ stmt ∈ body, Keeps (Quiet added) Any (content cx stmt) (content cx' stmt)) :
    Keeps (Quiet added) Any (stmts cx body) (stmts cx' body) := by
  induction body with
  | nil =>
    rw [stmts, stmts]
    exact Keeps.pure trivial
  | cons stmt rest ih =>
    rw [stmts, stmts]
    exact (h stmt (by simp)).asStatement.seq (ih fun other hmem => h other (by simp [hmem]))

theorem content_keeps [model.Typed] [model'.Typed] (h : added.Extended model model') (stmt : Stmt) :
    stmt.All (added.SparesExpr thisCalled) added.SparesBinding →
    Keeps (Quiet added) Any (content ⟨model, options⟩ stmt) (content ⟨model', options⟩ stmt) := by
  induction stmt using Stmt.ind with
  | vars span kind decls =>
    intro hall
    rw [content, content]
    exact variableDecls_keeps h kind hall
  | expr span value =>
    intro hall
    rw [content, content]
    exact (expr_keeps h hall).seq (Keeps.append _ _)
  | ret span value =>
    intro hall
    cases value with
    | none =>
      rw [content, content]
      exact Keeps.append _ _
    | some value =>
      rw [content, content]
      exact (Keeps.append _ _).seq ((expr_keeps h (hall value rfl)).seq (Keeps.append _ _))
  | ifElse span condition thenBranch elseBranch hThen hElse =>
    rintro ⟨hcondition, hthen, helse⟩
    rw [content_ifElse, content_ifElse]
    refine (head_keeps h "if" hcondition).seq ((branch_keeps .block (hThen hthen)).seq ?_)
    cases elseBranch with
    | none =>
      rw [elseContent, elseContent]
      exact Keeps.pure trivial
    | some branch =>
      rw [elseContent, elseContent]
      exact (Keeps.append _ _).seq (branch_keeps .block (hElse branch rfl helse))
  | loop span condition body hBody =>
    rintro ⟨hcondition, hbody⟩
    rw [content, content]
    exact (head_keeps h "while" hcondition).seq (branch_keeps .loop (hBody hbody))
  | brk span | cont span =>
    intro _
    rw [content, content]
    exact Keeps.append _ _
  | block span body hBody =>
    intro hall
    rw [content, content]
    refine (stmts_keeps_of_forall fun stmt hmem => ?_).braced span .block
    exact hBody stmt hmem (Stmt.allList_iff.mp hall stmt hmem)
  | staged span before body hBefore hBody =>
    rintro ⟨hbefore, hbody⟩
    rw [content, content]
    refine Keeps.inPrelude (stmts_keeps_of_forall fun stmt hmem => ?_) |>.seq (hBody hbody)
    exact hBefore stmt hmem (Stmt.allList_iff.mp hbefore stmt hmem)

theorem stmts_keeps [model.Typed] [model'.Typed] (h : added.Extended model model')
    {body : List Stmt} (hbody : AllList (added.SparesExpr thisCalled) added.SparesBinding body) :
    Keeps (Quiet added) Any (stmts ⟨model, options⟩ body) (stmts ⟨model', options⟩ body) :=
  stmts_keeps_of_forall fun stmt hmem => content_keeps h stmt (Stmt.allList_iff.mp hbody stmt hmem)

end Writing

end Emit

end NativeLowering
