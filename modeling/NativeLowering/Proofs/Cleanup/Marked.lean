import Mathlib
import NativeLowering.Pass.Cleanup

/-!
# Destructor calls, told apart from written ones

In the body that `Cleanup.run` returns, a call the pass added looks exactly like one the author
wrote. Statements about the added calls therefore need the body with the added calls marked, and
this file has it: `mark` goes through a body as `statements` does and returns marked statements.

Two facts say that the marks are the right ones. Forgetting them gives the output of the pass
(`eraseAll_mark`), so `mark` describes the pass and nothing else. And deleting the marked calls
gives back the body the pass was given, up to the braces around single branches
(`bracedAll_keptAll_mark`), so every call that is not marked was written by the author.

A mark remembers the declaration it was made for: the name, the type that was declared, and the
rank of the binding, which is how many bindings were visible once it had been made.
-/

set_option autoImplicit false

namespace NativeLowering
namespace Cleanup

/-- A variable that is to be destroyed, as its declaration left it. -/
structure Target where
  name : String
  type : Ty
  /-- How many bindings were visible after the declaration. Its own is the topmost of them, so
  the rank singles it out for as long as its frame is open. -/
  rank : Nat

/-- A statement of a body to which calls have been added. -/
inductive Marked where
  /-- A call that was added, with the variable it destroys. -/
  | added (span : Span) (target : Target)
  | vars (span : Span) (kind : VariableKind) (decls : List VariableDecl)
  | expr (span : Span) (value : Expr)
  | ret (span : Span) (value : Option Expr)
  | ifElse (span : Span) (condition : Expr) (thenBranch : Marked) (elseBranch : Option Marked)
  | loop (span : Span) (condition : Expr) (body : Marked)
  | brk (span : Span)
  | cont (span : Span)
  | block (span : Span) (body : List Marked)
  | staged (span : Span) (before : List Marked) (body : Marked)

/-! ## Forgetting the marks, deleting what is marked, marking nothing -/

namespace Marked

mutual

/-- The statement without the marks. -/
def erase : Marked → Stmt
  | .added span target => destructorCall span target.name
  | .vars span kind decls => .vars span kind decls
  | .expr span value => .expr span value
  | .ret span value => .ret span value
  | .ifElse span condition thenBranch elseBranch =>
    .ifElse span condition thenBranch.erase (eraseOption elseBranch)
  | .loop span condition body => .loop span condition body.erase
  | .brk span => .brk span
  | .cont span => .cont span
  | .block span body => .block span (eraseAll body)
  | .staged span before body => .staged span (eraseAll before) body.erase

/-- A branch that may be absent, without the marks. -/
def eraseOption : Option Marked → Option Stmt
  | none => none
  | some branch => some branch.erase

/-- Statements without the marks. -/
def eraseAll : List Marked → List Stmt
  | [] => []
  | stmt :: rest => stmt.erase :: eraseAll rest

end

mutual

/-- The statement with the marked calls deleted from the lists inside it. -/
def kept : Marked → Stmt
  | .added span target => destructorCall span target.name
  | .vars span kind decls => .vars span kind decls
  | .expr span value => .expr span value
  | .ret span value => .ret span value
  | .ifElse span condition thenBranch elseBranch =>
    .ifElse span condition thenBranch.kept (keptOption elseBranch)
  | .loop span condition body => .loop span condition body.kept
  | .brk span => .brk span
  | .cont span => .cont span
  | .block span body => .block span (keptAll body)
  | .staged span before body => .staged span (keptAll before) body.kept

/-- A branch that may be absent, with the marked calls deleted. -/
def keptOption : Option Marked → Option Stmt
  | none => none
  | some branch => some branch.kept

/-- Statements with the marked calls deleted. -/
def keptAll : List Marked → List Stmt
  | [] => []
  | .added .. :: rest => keptAll rest
  | stmt :: rest => stmt.kept :: keptAll rest

end

mutual

/-- A statement to which nothing has been added. -/
def ofStmt : Stmt → Marked
  | .vars span kind decls => .vars span kind decls
  | .expr span value => .expr span value
  | .ret span value => .ret span value
  | .ifElse span condition thenBranch elseBranch =>
    .ifElse span condition (ofStmt thenBranch) (ofOption elseBranch)
  | .loop span condition body => .loop span condition (ofStmt body)
  | .brk span => .brk span
  | .cont span => .cont span
  | .block span body => .block span (ofStmts body)
  | .staged span before body => .staged span (ofStmts before) (ofStmt body)

/-- A branch that may be absent, to which nothing has been added. -/
def ofOption : Option Stmt → Option Marked
  | none => none
  | some branch => some (ofStmt branch)

/-- Statements to which nothing has been added. -/
def ofStmts : List Stmt → List Marked
  | [] => []
  | stmt :: rest => ofStmt stmt :: ofStmts rest

end

/-- The statements of a branch or a loop body: those of the block, or the single statement. -/
def branchBody : Marked → List Marked
  | .block _ body => body
  | stmt => [stmt]

end Marked

open Marked (eraseOption eraseAll keptOption keptAll ofStmt ofOption ofStmts)

/-! ## The marked pass -/

/-- The variables to destroy when one block is left, latest first. -/
structure MarkedFrame where
  kind : FrameKind
  targets : List Target

/-- What is in scope at a point of a body. There is always an innermost frame. -/
structure MarkedScope where
  locals : Locals
  frame : MarkedFrame
  /-- The frames around, innermost first. -/
  outer : List MarkedFrame

/-- The variables that an exit destroys, innermost frame first. -/
def exitTargets (exit : Exit) : List MarkedFrame → List Target
  | [] => []
  | frame :: outer =>
    frame.targets ++ if exit = .loop ∧ frame.kind = .loop then [] else exitTargets exit outer

/-- The marked calls that destroy variables. -/
def addedCalls (span : Span) (targets : List Target) : List Marked :=
  targets.map (Marked.added span)

namespace MarkedScope

/-- The scope at the start of a body. -/
def start (locals : Locals) : MarkedScope :=
  { locals, frame := { kind := .function, targets := [] }, outer := [] }

/-- The scope inside a block. -/
def enter (scope : MarkedScope) (kind : FrameKind) : MarkedScope :=
  { locals := scope.locals.push kind, frame := { kind, targets := [] }
    outer := scope.frame :: scope.outer }

/-- The open frames, innermost first. -/
def frames (scope : MarkedScope) : List MarkedFrame := scope.frame :: scope.outer

/-- The scope after a variable is declared. -/
def declare (model : Model) (policy : DestructorPolicy) (scope : MarkedScope)
    (decl : VariableDecl) : MarkedScope :=
  match decl.name.ident? with
  | none => scope
  | some name =>
    let type := model.declaredType scope.locals decl
    let locals := scope.locals.declare name type
    if isDestructible model policy type then
      let target : Target := { name, type, rank := locals.visible.length }
      { scope with
        locals, frame := { scope.frame with targets := target :: scope.frame.targets } }
    else { scope with locals }

/-- The marked calls that an exit needs. -/
def exitCalls (scope : MarkedScope) (exit : Exit) (span : Span) : List Marked :=
  addedCalls span (exitTargets exit scope.frames)

/-- The marked calls at the end of the innermost block. -/
def endCalls (scope : MarkedScope) (span : Span) : List Marked :=
  addedCalls span scope.frame.targets

end MarkedScope

/-- A block for a single statement, which has been processed in the block's scope. -/
def markLone (scope : MarkedScope) (stmt : Stmt) (processed : Marked × MarkedScope) : Marked :=
  .block stmt.span <|
    match exitOf? stmt with
    | some exit => scope.exitCalls exit stmt.span ++ [ofStmt stmt]
    | none => processed.1 :: processed.2.endCalls stmt.span

/-- A branch or loop body, always as a block. It has been processed both as the block that opens
the frame and as a single statement inside the frame. -/
def markBranch (scope : MarkedScope) (kind : FrameKind) (stmt : Stmt)
    (asBlock asSingle : Marked × MarkedScope) : Marked :=
  if stmt.isBlock then asBlock.1 else markLone (scope.enter kind) stmt asSingle

mutual

/-- `Cleanup.statement` with the added calls marked. -/
def markStatement (model : Model) (policy : DestructorPolicy) :
    MarkedScope → FrameKind → Stmt → Marked × MarkedScope
  | scope, _, .vars span kind decls =>
    (.vars span kind decls, decls.foldl (MarkedScope.declare model policy) scope)
  | scope, _, .ifElse span condition thenBranch elseBranch =>
    (.ifElse span condition
      (markBranch scope .block thenBranch (markStatement model policy scope .block thenBranch)
        (markStatement model policy (scope.enter .block) .block thenBranch))
      (markElse model policy scope elseBranch),
     scope)
  | scope, _, .loop span condition body =>
    (.loop span condition
      (markBranch scope .loop body (markStatement model policy scope .loop body)
        (markStatement model policy (scope.enter .loop) .block body)),
     scope)
  | scope, kind, .block span body =>
    (.block span (markStatements model policy (scope.enter kind) {} body), scope)
  | scope, _, .staged span before body =>
    let (before, scope) := markStaged model policy scope before
    let (body, scope) := markStatement model policy scope .block body
    (.staged span before body, scope)
  | scope, _, .expr span value => (.expr span value, scope)
  | scope, _, .ret span value => (.ret span value, scope)
  | scope, _, .brk span => (.brk span, scope)
  | scope, _, .cont span => (.cont span, scope)

/-- `Cleanup.elseStatement` with the added calls marked. -/
def markElse (model : Model) (policy : DestructorPolicy) (scope : MarkedScope) :
    Option Stmt → Option Marked
  | none => none
  | some branch =>
    some
      (markBranch scope .block branch (markStatement model policy scope .block branch)
        (markStatement model policy (scope.enter .block) .block branch))

/-- `Cleanup.statements` with the added calls marked. -/
def markStatements (model : Model) (policy : DestructorPolicy) :
    MarkedScope → Span → List Stmt → List Marked
  | scope, span, [] => scope.endCalls span
  | scope, _, stmt :: rest =>
    match exitOf? stmt with
    | some exit => scope.exitCalls exit stmt.span ++ ofStmt stmt :: ofStmts rest
    | none =>
      let (processed, after) := markStatement model policy scope .block stmt
      processed :: markStatements model policy after stmt.span rest

/-- `Cleanup.staged` with the added calls marked. -/
def markStaged (model : Model) (policy : DestructorPolicy) :
    MarkedScope → List Stmt → List Marked × MarkedScope
  | scope, [] => ([], scope)
  | scope, stmt :: rest =>
    let (stmt, scope) := markStatement model policy scope .block stmt
    let (rest, scope) := markStaged model policy scope rest
    (stmt :: rest, scope)

end

/-- The statements of a branch or a loop body: those of the block, or the single statement. -/
def branchStmts : Stmt → List Stmt
  | .block _ body => body
  | stmt => [stmt]

/-- A branch comes out as the block of its statements, processed in the frame it opens. -/
theorem markBranch_eq (model : Model) (policy : DestructorPolicy) (scope : MarkedScope)
    (kind : FrameKind) (stmt : Stmt) :
    markBranch scope kind stmt (markStatement model policy scope kind stmt)
        (markStatement model policy (scope.enter kind) .block stmt)
      = .block stmt.span (markStatements model policy (scope.enter kind) {} (branchStmts stmt)) := by
  cases stmt <;> rfl

/-- A function body with destructor calls added and marked. -/
def mark (model : Model) (policy : DestructorPolicy) (locals : Locals) (body : List Stmt) :
    List Marked :=
  markStatements model policy (.start locals) {} body

/-! ## Forgetting the marks gives the pass

Each operation of the marked pass is the pass's own once the marks are forgotten; the recursion
then goes through by itself. -/

/-- The frame without the marks. -/
def MarkedFrame.erase (frame : MarkedFrame) : Tracked :=
  { kind := frame.kind, names := frame.targets.map Target.name }

/-- The scope without the marks. -/
def MarkedScope.erase (scope : MarkedScope) : Scope :=
  { locals := scope.locals, frames := scope.frames.map MarkedFrame.erase }

theorem MarkedScope.erase_enter (scope : MarkedScope) (kind : FrameKind) :
    (scope.enter kind).erase = scope.erase.enter kind := rfl

theorem MarkedScope.erase_declare (model : Model) (policy : DestructorPolicy)
    (scope : MarkedScope) (decl : VariableDecl) :
    (scope.declare model policy decl).erase = scope.erase.declare model policy decl := by
  unfold MarkedScope.declare Scope.declare
  cases decl.name.ident? with
  | none => rfl
  | some name =>
    by_cases hd : isDestructible model policy (model.declaredType scope.locals decl) = true
    · simp [hd, MarkedScope.erase, MarkedScope.frames, MarkedFrame.erase, Scope.track]
    · simp [hd, MarkedScope.erase, MarkedScope.frames]

theorem MarkedScope.erase_foldl_declare (model : Model) (policy : DestructorPolicy) :
    ∀ (decls : List VariableDecl) (scope : MarkedScope),
      (decls.foldl (MarkedScope.declare model policy) scope).erase
        = decls.foldl (Scope.declare model policy) scope.erase
  | [], _ => rfl
  | decl :: rest, scope => by
    rw [List.foldl_cons, List.foldl_cons, MarkedScope.erase_foldl_declare model policy rest,
      MarkedScope.erase_declare]

@[simp] theorem eraseAll_append (first second : List Marked) :
    eraseAll (first ++ second) = eraseAll first ++ eraseAll second := by
  induction first with
  | nil => rfl
  | cons stmt rest ih => simp only [List.cons_append, eraseAll, ih]

theorem eraseAll_addedCalls (span : Span) (targets : List Target) :
    eraseAll (addedCalls span targets) = (targets.map Target.name).map (destructorCall span) := by
  induction targets with
  | nil => rfl
  | cons target rest ih =>
    simpa [addedCalls, eraseAll, Marked.erase] using ih

theorem eraseAll_endCalls (scope : MarkedScope) (span : Span) :
    eraseAll (scope.endCalls span) = scope.erase.endCalls span :=
  eraseAll_addedCalls span scope.frame.targets

theorem eraseAll_exitTargets (exit : Exit) (span : Span) (frames : List MarkedFrame) :
    eraseAll (addedCalls span (exitTargets exit frames))
      = Cleanup.exitCalls exit span (frames.map MarkedFrame.erase) := by
  induction frames with
  | nil => rfl
  | cons frame outer ih =>
    rw [eraseAll_addedCalls] at ih ⊢
    rw [exitTargets, List.map_append, List.map_append, List.map_cons, Cleanup.exitCalls, ← ih]
    by_cases hl : exit = .loop ∧ frame.kind = .loop
    · simp [hl, MarkedFrame.erase, Tracked.calls]
    · simp [hl, MarkedFrame.erase, Tracked.calls]

theorem eraseAll_exitCalls (scope : MarkedScope) (exit : Exit) (span : Span) :
    eraseAll (scope.exitCalls exit span) = scope.erase.exitCalls exit span :=
  eraseAll_exitTargets exit span scope.frames

mutual

theorem erase_ofStmt : ∀ stmt : Stmt, (ofStmt stmt).erase = stmt
  | .vars .. | .expr .. | .ret .. | .brk _ | .cont _ => rfl
  | .ifElse _ _ thenBranch elseBranch => by
    simp only [ofStmt, Marked.erase, erase_ofStmt thenBranch, eraseOption_ofOption elseBranch]
  | .loop _ _ body => by simp only [ofStmt, Marked.erase, erase_ofStmt body]
  | .block _ body => by simp only [ofStmt, Marked.erase, eraseAll_ofStmts body]
  | .staged _ before body => by
    simp only [ofStmt, Marked.erase, eraseAll_ofStmts before, erase_ofStmt body]

theorem eraseOption_ofOption : ∀ branch : Option Stmt, eraseOption (ofOption branch) = branch
  | none => rfl
  | some branch => by simp only [ofOption, eraseOption, erase_ofStmt branch]

theorem eraseAll_ofStmts : ∀ stmts : List Stmt, eraseAll (ofStmts stmts) = stmts
  | [] => rfl
  | stmt :: rest => by simp only [ofStmts, eraseAll, erase_ofStmt stmt, eraseAll_ofStmts rest]

end

theorem erase_markLone {scope : MarkedScope} {stmt : Stmt} {marked : Marked × MarkedScope}
    {processed : Stmt × Scope} (hs : marked.1.erase = processed.1)
    (hscope : marked.2.erase = processed.2) :
    (markLone scope stmt marked).erase = loneBlock scope.erase stmt processed := by
  unfold markLone loneBlock
  cases exitOf? stmt with
  | some exit =>
    simp only [Marked.erase, eraseAll_append, eraseAll_exitCalls, eraseAll, erase_ofStmt]
  | none => simp only [Marked.erase, eraseAll, eraseAll_endCalls, hs, hscope]

theorem erase_markBranch {scope : MarkedScope} {kind : FrameKind} {stmt : Stmt}
    {asBlock asSingle : Marked × MarkedScope} {block single : Stmt × Scope}
    (hb : asBlock.1.erase = block.1) (hs : asSingle.1.erase = single.1)
    (hscope : asSingle.2.erase = single.2) :
    (markBranch scope kind stmt asBlock asSingle).erase
      = if stmt.isBlock then block.1 else loneBlock (scope.erase.enter kind) stmt single := by
  unfold markBranch
  cases stmt.isBlock with
  | true => simpa using hb
  | false =>
    rw [← MarkedScope.erase_enter]
    simpa using erase_markLone hs hscope

mutual

theorem erase_markStatement (model : Model) (policy : DestructorPolicy) :
    ∀ (stmt : Stmt) (scope : MarkedScope) (kind : FrameKind),
      (markStatement model policy scope kind stmt).1.erase
          = (statement model policy scope.erase kind stmt).1 ∧
        (markStatement model policy scope kind stmt).2.erase
          = (statement model policy scope.erase kind stmt).2
  | .vars _ _ decls, scope, _ =>
    ⟨rfl, MarkedScope.erase_foldl_declare model policy decls scope⟩
  | .expr .., _, _ | .ret .., _, _ | .brk _, _, _ | .cont _, _, _ => ⟨rfl, rfl⟩
  | .ifElse _ _ thenBranch elseBranch, scope, _ => by
    have hb := erase_markStatement model policy thenBranch scope .block
    have hs := erase_markStatement model policy thenBranch (scope.enter .block) .block
    refine ⟨?_, rfl⟩
    simp only [markStatement, statement, Marked.erase]
    rw [erase_markBranch hb.1 hs.1 hs.2, eraseOption_markElse model policy elseBranch scope]
    rfl
  | .loop _ _ body, scope, _ => by
    have hb := erase_markStatement model policy body scope .loop
    have hs := erase_markStatement model policy body (scope.enter .loop) .block
    refine ⟨?_, rfl⟩
    simp only [markStatement, statement, Marked.erase]
    rw [erase_markBranch hb.1 hs.1 hs.2]
    rfl
  | .block _ body, scope, kind => by
    refine ⟨?_, rfl⟩
    simp only [markStatement, statement, Marked.erase]
    rw [eraseAll_markStatements model policy body (scope.enter kind), MarkedScope.erase_enter]
  | .staged _ before body, scope, _ => by
    obtain ⟨hb, hscope⟩ := eraseAll_markStaged model policy before scope
    obtain ⟨hs, hafter⟩ :=
      erase_markStatement model policy body (markStaged model policy scope before).2 .block
    rw [hscope] at hs hafter
    simp only [markStatement, statement, Marked.erase]
    exact ⟨by rw [hb, hs], hafter⟩

theorem eraseOption_markElse (model : Model) (policy : DestructorPolicy) :
    ∀ (branch : Option Stmt) (scope : MarkedScope),
      eraseOption (markElse model policy scope branch)
        = elseStatement model policy scope.erase branch
  | none, _ => rfl
  | some branch, scope => by
    have hb := erase_markStatement model policy branch scope .block
    have hs := erase_markStatement model policy branch (scope.enter .block) .block
    simp only [markElse, elseStatement, eraseOption]
    rw [erase_markBranch hb.1 hs.1 hs.2]
    rfl

theorem eraseAll_markStatements (model : Model) (policy : DestructorPolicy) :
    ∀ (stmts : List Stmt) (scope : MarkedScope) (span : Span),
      eraseAll (markStatements model policy scope span stmts)
        = statements model policy scope.erase span stmts
  | [], scope, span => eraseAll_endCalls scope span
  | stmt :: rest, scope, _ => by
    simp only [markStatements, statements]
    cases exitOf? stmt with
    | some exit =>
      simp only [eraseAll_append, eraseAll_exitCalls, eraseAll, erase_ofStmt, eraseAll_ofStmts]
    | none =>
      obtain ⟨hs, hafter⟩ := erase_markStatement model policy stmt scope .block
      simp only [eraseAll]
      rw [hs, eraseAll_markStatements model policy rest, hafter]

theorem eraseAll_markStaged (model : Model) (policy : DestructorPolicy) :
    ∀ (stmts : List Stmt) (scope : MarkedScope),
      eraseAll (markStaged model policy scope stmts).1 = (staged model policy scope.erase stmts).1 ∧
        (markStaged model policy scope stmts).2.erase = (staged model policy scope.erase stmts).2
  | [], _ => ⟨rfl, rfl⟩
  | stmt :: rest, scope => by
    obtain ⟨hs, hafter⟩ := erase_markStatement model policy stmt scope .block
    obtain ⟨hr, hend⟩ :=
      eraseAll_markStaged model policy rest (markStatement model policy scope .block stmt).2
    rw [hafter] at hr hend
    simp only [markStaged, staged, eraseAll]
    exact ⟨by rw [hs, hr], hend⟩

end

/-- Without its marks the marked body is what the pass returns. -/
theorem eraseAll_mark (model : Model) (policy : DestructorPolicy) (locals : Locals)
    (body : List Stmt) : eraseAll (mark model policy locals body) = run model policy locals body :=
  eraseAll_markStatements model policy body (.start locals) {}

/-! ## Deleting the marked calls gives the body back

The pass also puts braces around single branches, so the two bodies are compared with braces
around every single branch of both. -/

mutual

/-- The statement with a block in place of every branch and loop body that is a single
statement. -/
def braced : Stmt → Stmt
  | .ifElse span condition thenBranch elseBranch =>
    .ifElse span condition
      (if thenBranch.isBlock then braced thenBranch
       else .block thenBranch.span [braced thenBranch])
      (bracedOption elseBranch)
  | .loop span condition body =>
    .loop span condition
      (if body.isBlock then braced body else .block body.span [braced body])
  | .block span body => .block span (bracedAll body)
  | .staged span before body => .staged span (bracedAll before) (braced body)
  | stmt => stmt

/-- The branch taken otherwise, if there is one, as a block. -/
def bracedOption : Option Stmt → Option Stmt
  | none => none
  | some branch =>
    some (if branch.isBlock then braced branch else .block branch.span [braced branch])

/-- Statements with a block in place of every single branch. -/
def bracedAll : List Stmt → List Stmt
  | [] => []
  | stmt :: rest => braced stmt :: bracedAll rest

end

theorem keptAll_addedCalls (span : Span) (targets : List Target) (rest : List Marked) :
    keptAll (addedCalls span targets ++ rest) = keptAll rest := by
  induction targets with
  | nil => rfl
  | cons target _ ih => simpa [addedCalls, keptAll] using ih

theorem keptAll_endCalls (scope : MarkedScope) (span : Span) :
    keptAll (scope.endCalls span) = [] := by
  simpa [MarkedScope.endCalls, keptAll] using keptAll_addedCalls span scope.frame.targets []

/-- No call was added in place of the statement itself. -/
def Marked.IsWritten : Marked → Prop
  | .added .. => False
  | _ => True

theorem keptAll_cons {stmt : Marked} (h : stmt.IsWritten) (rest : List Marked) :
    keptAll (stmt :: rest) = stmt.kept :: keptAll rest := by
  cases stmt with
  | added => exact absurd h id
  | _ => rfl

theorem ofStmt_isWritten (stmt : Stmt) : (ofStmt stmt).IsWritten := by
  cases stmt <;> trivial

theorem markStatement_isWritten (model : Model) (policy : DestructorPolicy) (scope : MarkedScope)
    (kind : FrameKind) (stmt : Stmt) :
    (markStatement model policy scope kind stmt).1.IsWritten := by
  cases stmt <;> trivial

mutual

theorem kept_ofStmt : ∀ stmt : Stmt, (ofStmt stmt).kept = stmt
  | .vars .. | .expr .. | .ret .. | .brk _ | .cont _ => rfl
  | .ifElse _ _ thenBranch elseBranch => by
    simp only [ofStmt, Marked.kept, kept_ofStmt thenBranch, keptOption_ofOption elseBranch]
  | .loop _ _ body => by simp only [ofStmt, Marked.kept, kept_ofStmt body]
  | .block _ body => by simp only [ofStmt, Marked.kept, keptAll_ofStmts body]
  | .staged _ before body => by
    simp only [ofStmt, Marked.kept, keptAll_ofStmts before, kept_ofStmt body]

theorem keptOption_ofOption : ∀ branch : Option Stmt, keptOption (ofOption branch) = branch
  | none => rfl
  | some branch => by simp only [ofOption, keptOption, kept_ofStmt branch]

theorem keptAll_ofStmts : ∀ stmts : List Stmt, keptAll (ofStmts stmts) = stmts
  | [] => rfl
  | stmt :: rest => by
    rw [ofStmts, keptAll_cons (ofStmt_isWritten stmt), kept_ofStmt stmt, keptAll_ofStmts rest]

end

/-- A single branch that has been made a block holds, with the marked calls deleted, just that
branch. -/
theorem kept_markLone {scope : MarkedScope} {stmt : Stmt} {marked : Marked × MarkedScope}
    (hw : marked.1.IsWritten) (hk : braced marked.1.kept = braced stmt) :
    braced (markLone scope stmt marked).kept = .block stmt.span [braced stmt] := by
  unfold markLone
  cases exitOf? stmt with
  | some exit =>
    simp only [Marked.kept, MarkedScope.exitCalls]
    rw [keptAll_addedCalls, keptAll_cons (ofStmt_isWritten stmt), kept_ofStmt]
    simp only [keptAll, braced, bracedAll]
  | none =>
    simp only [Marked.kept]
    rw [keptAll_cons hw, keptAll_endCalls]
    simp only [braced, bracedAll, hk]

theorem markStatement_kept_isBlock (model : Model) (policy : DestructorPolicy)
    (scope : MarkedScope) (kind : FrameKind) {stmt : Stmt} (hb : stmt.isBlock = true) :
    (markStatement model policy scope kind stmt).1.kept.isBlock = true := by
  cases stmt with
  | block => rfl
  | _ => exact absurd hb (by simp [Stmt.isBlock])

/-- A branch is a block after the pass, and the braces around it are the only difference. -/
theorem kept_markBranch (scope : MarkedScope) (kind : FrameKind) {stmt : Stmt}
    {asBlock asSingle : Marked × MarkedScope}
    (hblock : stmt.isBlock = true → asBlock.1.kept.isBlock = true)
    (hb : braced asBlock.1.kept = braced stmt) (hw : asSingle.1.IsWritten)
    (hs : braced asSingle.1.kept = braced stmt) :
    (markBranch scope kind stmt asBlock asSingle).kept.isBlock = true ∧
      braced (markBranch scope kind stmt asBlock asSingle).kept
        = if stmt.isBlock then braced stmt else .block stmt.span [braced stmt] := by
  unfold markBranch
  cases hi : stmt.isBlock with
  | true => exact ⟨hblock hi, by simpa using hb⟩
  | false => exact ⟨rfl, by simpa using kept_markLone hw hs⟩

mutual

theorem braced_kept_markStatement (model : Model) (policy : DestructorPolicy) :
    ∀ (stmt : Stmt) (scope : MarkedScope) (kind : FrameKind),
      braced (markStatement model policy scope kind stmt).1.kept = braced stmt
  | .vars .., _, _ | .expr .., _, _ | .ret .., _, _ | .brk _, _, _ | .cont _, _, _ => rfl
  | .ifElse _ _ thenBranch elseBranch, scope, _ => by
    obtain ⟨hblock, hThen⟩ := kept_markBranch scope .block
      (markStatement_kept_isBlock model policy scope .block)
      (braced_kept_markStatement model policy thenBranch scope .block)
      (markStatement_isWritten ..)
      (braced_kept_markStatement model policy thenBranch (scope.enter .block) .block)
    simp only [markStatement, Marked.kept, braced, hblock, if_true, hThen,
      braced_kept_markElse model policy elseBranch scope]
  | .loop _ _ body, scope, _ => by
    obtain ⟨hblock, hBody⟩ := kept_markBranch scope .loop
      (markStatement_kept_isBlock model policy scope .loop)
      (braced_kept_markStatement model policy body scope .loop)
      (markStatement_isWritten ..)
      (braced_kept_markStatement model policy body (scope.enter .loop) .block)
    simp only [markStatement, Marked.kept, braced, hblock, if_true, hBody]
  | .block _ body, scope, kind => by
    simp only [markStatement, Marked.kept, braced]
    rw [bracedAll_keptAll_markStatements model policy body]
  | .staged _ before body, scope, _ => by
    simp only [markStatement, Marked.kept, braced]
    rw [bracedAll_keptAll_markStaged model policy before,
      braced_kept_markStatement model policy body]

theorem braced_kept_markElse (model : Model) (policy : DestructorPolicy) :
    ∀ (branch : Option Stmt) (scope : MarkedScope),
      bracedOption (keptOption (markElse model policy scope branch)) = bracedOption branch
  | none, _ => rfl
  | some branch, scope => by
    obtain ⟨hblock, hBranch⟩ := kept_markBranch scope .block
      (markStatement_kept_isBlock model policy scope .block)
      (braced_kept_markStatement model policy branch scope .block)
      (markStatement_isWritten ..)
      (braced_kept_markStatement model policy branch (scope.enter .block) .block)
    simp only [markElse, keptOption, bracedOption, hblock, if_true, hBranch]

theorem bracedAll_keptAll_markStatements (model : Model) (policy : DestructorPolicy) :
    ∀ (stmts : List Stmt) (scope : MarkedScope) (span : Span),
      bracedAll (keptAll (markStatements model policy scope span stmts)) = bracedAll stmts
  | [], scope, span => by rw [markStatements, keptAll_endCalls]
  | stmt :: rest, scope, _ => by
    simp only [markStatements]
    cases exitOf? stmt with
    | some exit =>
      simp only [MarkedScope.exitCalls]
      rw [keptAll_addedCalls, keptAll_cons (ofStmt_isWritten stmt), kept_ofStmt, keptAll_ofStmts]
    | none =>
      simp only
      rw [keptAll_cons (markStatement_isWritten ..), bracedAll, bracedAll,
        braced_kept_markStatement model policy stmt,
        bracedAll_keptAll_markStatements model policy rest]

theorem bracedAll_keptAll_markStaged (model : Model) (policy : DestructorPolicy) :
    ∀ (stmts : List Stmt) (scope : MarkedScope),
      bracedAll (keptAll (markStaged model policy scope stmts).1) = bracedAll stmts
  | [], _ => rfl
  | stmt :: rest, scope => by
    simp only [markStaged]
    rw [keptAll_cons (markStatement_isWritten ..), bracedAll, bracedAll,
      braced_kept_markStatement model policy stmt, bracedAll_keptAll_markStaged model policy rest]

end

/-- With the marked calls deleted, the marked body is the body the pass was given, up to braces. -/
theorem bracedAll_keptAll_mark (model : Model) (policy : DestructorPolicy) (locals : Locals)
    (body : List Stmt) : bracedAll (keptAll (mark model policy locals body)) = bracedAll body :=
  bracedAll_keptAll_markStatements model policy body (.start locals) {}

end Cleanup
end NativeLowering
