import NativeLowering.Proofs.Address.Fresh
import NativeLowering.Proofs.Pass.Transport

/-!
# Destructor calls are all that is added

`ListInserted` relates a list of statements to what may become of it. Calls are put in front of the
first exit or at the end, and each of them destroys a variable that was declared before, in the list
or in one around it. The statements up to the exit stay where they are; inside them the lists of
blocks and branches are related in the same way. A branch that is a single statement gets braces with
its own span. From the exit on nothing is touched.

The lists are the bodies: that of a function, of a block, of a branch. The statements in front of a
staged one are no list of their own. They belong to the list of the staged statement, which goes on
with the variables they declare; each of them is treated like any statement in front of the exit, and
none ends the list.

`run_inserted` says that the pass succeeds on every body and that its result is related to the body.
-/

set_option autoImplicit false

namespace NativeLowering
namespace Cleanup

open Address (declaredHere declaredHereAll)

mutual

/-- The statements of a list, and the same with calls inserted. The names are those of the variables
declared before. -/
inductive ListInserted : List String → List Stmt → List Stmt → Prop
  /-- At the end of a list. -/
  | last {names called : List String} {span : Span} :
      called ⊆ names → ListInserted names [] (called.map (destructorCall span))
  /-- In front of an exit. -/
  | exit {names called : List String} {span : Span} {stmt : Stmt} {rest : List Stmt} :
      (exitOf? stmt).isSome → called ⊆ names →
      ListInserted names (stmt :: rest) (called.map (destructorCall span) ++ stmt :: rest)
  | next {names : List String} {stmt stmt' : Stmt} {rest rest' : List Stmt} :
      exitOf? stmt = none → StmtInserted names stmt stmt' →
      ListInserted (names ++ declaredHere stmt) rest rest' →
      ListInserted names (stmt :: rest) (stmt' :: rest')

/-- A statement in front of the exit of its list, and the same with calls inserted. -/
inductive StmtInserted : List String → Stmt → Stmt → Prop
  | vars {names : List String} {span : Span} {kind : VariableKind} {decls : List VariableDecl} :
      StmtInserted names (.vars span kind decls) (.vars span kind decls)
  | expr {names : List String} {span : Span} {value : Expr} :
      StmtInserted names (.expr span value) (.expr span value)
  | ret {names : List String} {span : Span} {value : Option Expr} :
      StmtInserted names (.ret span value) (.ret span value)
  | brk {names : List String} {span : Span} : StmtInserted names (.brk span) (.brk span)
  | cont {names : List String} {span : Span} : StmtInserted names (.cont span) (.cont span)
  | ifThen {names : List String} {span : Span} {condition : Expr} {first first' : Stmt} :
      BranchInserted names first first' →
      StmtInserted names (.ifElse span condition first none) (.ifElse span condition first' none)
  | ifElse {names : List String} {span : Span} {condition : Expr}
      {first first' second second' : Stmt} :
      BranchInserted names first first' → BranchInserted names second second' →
      StmtInserted names (.ifElse span condition first (some second))
        (.ifElse span condition first' (some second'))
  | loop {names : List String} {span : Span} {condition : Expr} {body body' : Stmt} :
      BranchInserted names body body' →
      StmtInserted names (.loop span condition body) (.loop span condition body')
  | block {names : List String} {span : Span} {body body' : List Stmt} :
      ListInserted names body body' →
      StmtInserted names (.block span body) (.block span body')
  | staged {names : List String} {span : Span} {before before' : List Stmt} {stmt stmt' : Stmt} :
      BeforeInserted names before before' →
      StmtInserted (names ++ declaredHereAll before) stmt stmt' →
      StmtInserted names (.staged span before stmt) (.staged span before' stmt')

/-- A branch or the body of a loop, and the same as a block with calls inserted. -/
inductive BranchInserted : List String → Stmt → Stmt → Prop
  | block {names : List String} {span : Span} {body body' : List Stmt} :
      ListInserted names body body' →
      BranchInserted names (.block span body) (.block span body')
  | single {names : List String} {branch : Stmt} {body' : List Stmt} :
      branch.isBlock = false → ListInserted names [branch] body' →
      BranchInserted names branch (.block branch.span body')

/-- The statements in front of a staged one, and the same with calls inserted. -/
inductive BeforeInserted : List String → List Stmt → List Stmt → Prop
  | nil {names : List String} : BeforeInserted names [] []
  | cons {names : List String} {stmt stmt' : Stmt} {rest rest' : List Stmt} :
      StmtInserted names stmt stmt' →
      BeforeInserted (names ++ declaredHere stmt) rest rest' →
      BeforeInserted names (stmt :: rest) (stmt' :: rest')

end

/-! ## What is tracked has been declared -/

/-- Every variable that the pass tracks is among the names. -/
def Scope.Within (scope : Scope) (names : List String) : Prop :=
  ∀ frame ∈ scope.frames, frame.names ⊆ names

namespace Scope

theorem Within.mono {scope : Scope} {names more : List String} (h : scope.Within names)
    (hsub : names ⊆ more) : scope.Within more :=
  fun frame hf => List.Subset.trans (h frame hf) hsub

theorem Within.enter {scope : Scope} {names : List String} (h : scope.Within names)
    (kind : FrameKind) : (scope.enter kind).Within names := by
  intro frame hf
  rcases List.mem_cons.mp hf with rfl | hf
  · exact List.nil_subset names
  · exact h frame hf

theorem Within.track {scope : Scope} {names : List String} (h : scope.Within names)
    (name : String) : (scope.track name).Within (names ++ [name]) := by
  unfold Scope.track
  cases hf : scope.frames with
  | nil => exact h.mono (List.subset_append_left names [name])
  | cons top outer =>
    intro frame hm
    rcases List.mem_cons.mp hm with rfl | hm
    · apply List.cons_subset.mpr
      refine ⟨by simp, ?_⟩
      exact List.Subset.trans (h top (by simp [hf])) (List.subset_append_left names [name])
    · exact List.Subset.trans (h frame (by simp [hf, hm])) (List.subset_append_left names [name])

theorem Within.declareAll {model : Model} {policy : DestructorPolicy} (decls : List VariableDecl) :
    ∀ {scope : Scope} {names : List String}, scope.Within names →
      (decls.foldl (declare model policy) scope).Within
        (names ++ decls.filterMap fun decl => decl.name.ident?) := by
  induction decls with
  | nil =>
    intro scope names h
    simpa using h
  | cons decl rest ih =>
    intro scope names h
    rw [List.foldl_cons, List.filterMap_cons]
    unfold declare
    cases decl.name.ident? with
    | none => exact ih h
    | some name =>
      dsimp only
      rw [List.append_cons]
      by_cases hd : isDestructible model policy (model.declaredType scope.locals decl) = true
      · rw [if_pos hd]
        exact ih (h.track name)
      · rw [if_neg hd]
        exact ih (h.mono (List.subset_append_left names [name]))

theorem Within.exitNames {scope : Scope} {names : List String} (h : scope.Within names)
    (exit : Exit) : Cleanup.exitNames exit scope.frames ⊆ names := by
  intro name hn
  obtain ⟨frame, hf, hm⟩ := mem_exitNames hn
  exact h frame hf hm

/-- The calls at the end of a block destroy variables that were declared before. -/
theorem Within.endCalls {scope : Scope} {names : List String} (h : scope.Within names)
    (span : Span) :
    ∃ called ⊆ names, scope.endCalls span = called.map (destructorCall span) := by
  unfold Scope.endCalls
  cases hf : scope.frames with
  | nil => exact ⟨[], List.nil_subset names, rfl⟩
  | cons frame outer => exact ⟨frame.names, h frame (by simp [hf]), rfl⟩

end Scope

/-! ## Statement by statement -/

section Insertion

variable {model : Model} {policy : DestructorPolicy}

/-- What becomes of a statement, and that the names it declares account for what is tracked. -/
def Insertable (model : Model) (policy : DestructorPolicy) (stmt : Stmt) : Prop :=
  ∀ (kind : FrameKind) {scope : Scope} {names : List String}, scope.Within names →
    StmtInserted names stmt (statement model policy scope kind stmt).1 ∧
      (statement model policy scope kind stmt).2.Within (names ++ declaredHere stmt)

theorem exit_inserted {stmt : Stmt} {exit : Exit} (hexit : exitOf? stmt = some exit) {scope : Scope}
    {names : List String} (h : scope.Within names) (rest : List Stmt) :
    ListInserted names (stmt :: rest) (scope.exitCalls exit stmt.span ++ stmt :: rest) := by
  rw [Scope.exitCalls, exitCalls_eq]
  apply ListInserted.exit
  · rw [hexit]
    rfl
  · exact h.exitNames exit

theorem end_inserted {scope : Scope} {names : List String} (h : scope.Within names) (span : Span) :
    ListInserted names [] (scope.endCalls span) := by
  obtain ⟨called, hsub, hcalls⟩ := h.endCalls span
  rw [hcalls]
  exact .last hsub

/-- The list is cut at its first exit; up to there the names grow with each statement. -/
theorem statements_inserted {stmts : List Stmt} (hstmts : ∀ stmt ∈ stmts, Insertable model policy stmt) :
    ∀ {scope : Scope} {names : List String} (span : Span), scope.Within names →
      ListInserted names stmts (statements model policy scope span stmts) := by
  induction stmts with
  | nil =>
    intro scope names span h
    exact end_inserted h span
  | cons stmt rest ih =>
    intro scope names span h
    rw [statements]
    cases hexit : exitOf? stmt with
    | some exit => exact exit_inserted hexit h rest
    | none =>
      obtain ⟨hfirst, hafter⟩ := hstmts stmt (by simp) .block h
      apply ListInserted.next hexit hfirst
      exact ih (fun other hm => hstmts other (by simp [hm])) stmt.span hafter

theorem lone_inserted {branch : Stmt} (hbranch : Insertable model policy branch)
    (hb : branch.isBlock = false) {scope : Scope} {names : List String} (h : scope.Within names) :
    BranchInserted names branch
      (loneBlock scope branch (statement model policy scope .block branch)) := by
  apply BranchInserted.single hb
  cases hexit : exitOf? branch with
  | some exit => exact exit_inserted hexit h []
  | none =>
    obtain ⟨hfirst, hafter⟩ := hbranch .block h
    exact .next hexit hfirst (end_inserted hafter branch.span)

theorem StmtInserted.toBranch {names : List String} {branch branch' : Stmt}
    (hb : branch.isBlock = true) (h : StmtInserted names branch branch') :
    BranchInserted names branch branch' := by
  cases h with
  | block hbody => exact .block hbody
  | _ => cases hb

theorem branch_inserted {branch : Stmt} (hbranch : Insertable model policy branch) (kind : FrameKind)
    {scope : Scope} {names : List String} (h : scope.Within names) :
    BranchInserted names branch
      (if branch.isBlock then (statement model policy scope kind branch).1
       else loneBlock (scope.enter kind) branch
        (statement model policy (scope.enter kind) .block branch)) := by
  by_cases hb : branch.isBlock = true
  · rw [if_pos hb]
    exact (hbranch kind h).1.toBranch hb
  · rw [if_neg hb]
    exact lone_inserted hbranch (Bool.not_eq_true _ ▸ hb) (h.enter kind)

theorem staged_inserted {before : List Stmt}
    (hbefore : ∀ stmt ∈ before, Insertable model policy stmt) :
    ∀ {scope : Scope} {names : List String}, scope.Within names →
      BeforeInserted names before (staged model policy scope before).1 ∧
        (staged model policy scope before).2.Within (names ++ declaredHereAll before) := by
  induction before with
  | nil =>
    intro scope names h
    refine ⟨.nil, ?_⟩
    simpa [staged, declaredHereAll] using h
  | cons stmt rest ih =>
    intro scope names h
    obtain ⟨hfirst, hafter⟩ := hbefore stmt (by simp) .block h
    obtain ⟨hrest, hend⟩ := ih (fun other hm => hbefore other (by simp [hm])) hafter
    refine ⟨.cons hfirst hrest, ?_⟩
    rw [declaredHereAll, ← List.append_assoc]
    exact hend

/-- A statement that declares nothing and leaves the scope as it was. -/
theorem insertable_of_inner {stmt : Stmt} (hnames : declaredHere stmt = [])
    (hscope : ∀ scope kind, (statement model policy scope kind stmt).2 = scope)
    (hstmt : ∀ (kind : FrameKind) {scope : Scope} {names : List String}, scope.Within names →
      StmtInserted names stmt (statement model policy scope kind stmt).1) :
    Insertable model policy stmt := by
  intro kind scope names h
  refine ⟨hstmt kind h, ?_⟩
  rw [hscope, hnames, List.append_nil]
  exact h

theorem statement_inserted (stmt : Stmt) : Insertable model policy stmt := by
  induction stmt using Stmt.ind with
  | vars span kind decls =>
    intro _ scope names h
    exact ⟨.vars, h.declareAll decls⟩
  | expr span value => exact insertable_of_inner rfl (fun _ _ => rfl) fun _ _ _ _ => .expr
  | ret span value => exact insertable_of_inner rfl (fun _ _ => rfl) fun _ _ _ _ => .ret
  | brk span => exact insertable_of_inner rfl (fun _ _ => rfl) fun _ _ _ _ => .brk
  | cont span => exact insertable_of_inner rfl (fun _ _ => rfl) fun _ _ _ _ => .cont
  | ifElse span condition thenBranch elseBranch hThen hElse =>
    apply insertable_of_inner rfl (fun _ _ => rfl)
    intro kind scope names h
    cases elseBranch with
    | none => exact .ifThen (branch_inserted hThen .block h)
    | some branch =>
      exact .ifElse (branch_inserted hThen .block h) (branch_inserted (hElse branch rfl) .block h)
  | loop span condition body hBody =>
    apply insertable_of_inner rfl (fun _ _ => rfl)
    intro kind scope names h
    exact .loop (branch_inserted hBody .loop h)
  | block span body hBody =>
    apply insertable_of_inner rfl (fun _ _ => rfl)
    intro kind scope names h
    exact .block (statements_inserted hBody {} (h.enter kind))
  | staged span before body hBefore hBody =>
    intro kind scope names h
    obtain ⟨hfirst, hmiddle⟩ := staged_inserted hBefore h
    obtain ⟨hlast, hafter⟩ := hBody .block hmiddle
    refine ⟨.staged hfirst hlast, ?_⟩
    rw [declaredHere, ← List.append_assoc]
    exact hafter

end Insertion

/-- **Destructor calls are all that is added.** The pass succeeds on every body. Its result is the
body with calls inserted that destroy variables declared before, and with braces around the single
statements that are branches; what follows the first exit of a list is the same as it was. -/
theorem run_inserted (model : Model) (policy : DestructorPolicy) (locals : Locals)
    (body : List Stmt) :
    ∃ result, Pass.run model policy locals body .destructors = .ok result ∧
      ListInserted [] body result := by
  refine ⟨run model policy locals body, rfl, ?_⟩
  apply statements_inserted (fun stmt _ => statement_inserted stmt) {}
  intro frame hf
  rw [List.mem_singleton.mp hf]
  exact List.nil_subset []

end Cleanup
end NativeLowering
