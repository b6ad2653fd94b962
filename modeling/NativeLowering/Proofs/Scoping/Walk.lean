import NativeLowering.Proofs.Pass.Transport
import NativeLowering.Proofs.Scoping.Reference

/-!
# What a walk sees

A walk hands every expression of a body to its visit, with the local bindings it keeps. Here the walk
runs with a log of what it hands over (`Walk.bodyLogged`); without the log it is the walk
(`bodyLogged_erases`). The log has the expressions of the body in order, and the variables that the
walk sees at each are those in scope there.

The walk leaves a body of the same scopes, but for the variables that the visit asked for. So the
next walk sees the same, up to these (`bodyLogged_walked`).
-/

set_option autoImplicit false

namespace NativeLowering
namespace Walk

open Stmt (AllList)

/-- What a walk has handed to its visit. -/
abbrev Log := List (Visited Expr)

/-! ## A walk with a log -/

section Logged

variable (model : Model) (visit : Visit)

def atPointLogged (value : Expr) : StmtM ((Expr × List Stmt) × Log) := do
  let point ← get
  let result ← atPoint visit value
  return (result, [⟨point.locals, value⟩])

def atPointOptionLogged : Option Expr → StmtM ((Option Expr × List Stmt) × Log)
  | none => return ((none, []), [])
  | some value => do
    let ((value, before), log) ← atPointLogged visit value
    return ((some value, before), log)

def varDeclLogged (decl : VariableDecl) : StmtM ((VariableDecl × List Stmt) × Log) := do
  let ((init, before), log) ← atPointOptionLogged visit decl.init
  let decl := { decl with init }
  match decl.name.ident? with
  | some name =>
    modify fun point =>
      { point with
        locals := point.locals.declare name (model.declaredType point.locals decl) }
  | none => pure ()
  return ((decl, before), log)

def varDeclsLogged : List VariableDecl → StmtM ((List VariableDecl × List Stmt) × Log)
  | [] => return (([], []), [])
  | decl :: rest => do
    let ((decl, before), first) ← varDeclLogged model visit decl
    let ((rest, more), second) ← varDeclsLogged rest
    return ((decl :: rest, before ++ more), first ++ second)

mutual

/-- Walks a statement and logs what is visited. -/
def stmtLogged : Stmt → StmtM (Stmt × Log)
  | .vars span kind decls => do
    let ((decls, before), log) ← varDeclsLogged model visit decls
    return (stage before (.vars span kind decls), log)
  | .expr span value => do
    let ((value, before), log) ← atPointLogged visit value
    return (stage before (.expr span value), log)
  | .ret span value => do
    let ((value, before), log) ← atPointOptionLogged visit value
    return (stage before (.ret span value), log)
  | .ifElse span condition thenBranch elseBranch => do
    let ((condition, before), first) ← atPointLogged visit condition
    let (thenBranch, second) ← inFrame .block (stmtLogged thenBranch)
    let (elseBranch, third) ← elseLogged elseBranch
    return (stage before (.ifElse span condition thenBranch elseBranch), first ++ (second ++ third))
  | .loop span condition body => do
    let ((condition, before), first) ← atPointLogged visit condition
    let (body, second) ← inFrame .loop (stmtLogged body)
    return (stage before (.loop span condition body), first ++ second)
  | .brk span => return (.brk span, [])
  | .cont span => return (.cont span, [])
  | .block span body => do
    let (body, log) ← inFrame .block (stmtsLogged body)
    return (.block span body, log)
  | .staged span before body => do
    let (before, first) ← stmtsLogged before
    let (body, second) ← stmtLogged body
    return (restage span before body, first ++ second)

def elseLogged : Option Stmt → StmtM (Option Stmt × Log)
  | none => return (none, [])
  | some branch => do
    let (branch, log) ← inFrame .block (stmtLogged branch)
    return (some branch, log)

def stmtsLogged : List Stmt → StmtM (List Stmt × Log)
  | [] => return ([], [])
  | head :: rest => do
    let (head, first) ← stmtLogged head
    let (rest, second) ← stmtsLogged rest
    return (head :: rest, first ++ second)

end

/-- Walks a function body and logs what is visited. -/
def bodyLogged (locals : Locals) (statements : List Stmt) : Lowered (List Stmt × Log) :=
  (stmtsLogged model visit statements).run' { locals, next := 1 }

end Logged

/-! ### Without the log -/

section Erasing

variable {model : Model} {visit : Visit}

theorem inFrame_erases {α ε : Type} {logged : StmtM (α × List ε)} {plain : StmtM α}
    (h : Erases logged plain) (kind : FrameKind) :
    Erases (inFrame kind logged) (inFrame kind plain) := by
  unfold inFrame
  exact .after fun point => .after fun _ => h.bind fun entry => .after fun _ => .pure _ _

theorem atPointLogged_erases (value : Expr) :
    Erases (atPointLogged visit value) (atPoint visit value) := by
  unfold Erases atPointLogged
  simp

theorem atPointOptionLogged_erases : ∀ value : Option Expr,
    Erases (atPointOptionLogged visit value) (atPointOption visit value)
  | none => .pure _ _
  | some value => (atPointLogged_erases value).bind fun _ => .pure _ _

theorem varDeclLogged_erases (decl : VariableDecl) :
    Erases (varDeclLogged model visit decl) (varDecl model visit decl) := by
  refine (atPointOptionLogged_erases decl.init).bind ?_
  rintro ⟨⟨init, before⟩, log⟩
  dsimp only
  cases decl.name.ident? with
  | none => exact .pure _ _
  | some name => exact .after fun _ => .pure _ _

theorem varDeclsLogged_erases : ∀ decls : List VariableDecl,
    Erases (varDeclsLogged model visit decls) (varDecls model visit decls)
  | [] => .pure _ _
  | decl :: rest =>
    (varDeclLogged_erases decl).bind fun _ => (varDeclsLogged_erases rest).bind fun _ => .pure _ _

mutual

theorem stmtLogged_erases : ∀ statement : Stmt,
    Erases (stmtLogged model visit statement) (stmt model visit statement)
  | .vars span kind decls => by
    rw [stmtLogged, stmt]
    exact (varDeclsLogged_erases decls).bind fun _ => .pure _ _
  | .expr span value => by
    rw [stmtLogged, stmt]
    exact (atPointLogged_erases value).bind fun _ => .pure _ _
  | .ret span value => by
    rw [stmtLogged, stmt]
    exact (atPointOptionLogged_erases value).bind fun _ => .pure _ _
  | .ifElse span condition thenBranch elseBranch => by
    rw [stmtLogged, stmt]
    exact (atPointLogged_erases condition).bind fun _ =>
      (inFrame_erases (stmtLogged_erases thenBranch) .block).bind fun _ =>
      (elseLogged_erases elseBranch).bind fun _ => .pure _ _
  | .loop span condition body => by
    rw [stmtLogged, stmt]
    exact (atPointLogged_erases condition).bind fun _ =>
      (inFrame_erases (stmtLogged_erases body) .loop).bind fun _ => .pure _ _
  | .brk span => by
    rw [stmtLogged, stmt]
    exact .pure _ _
  | .cont span => by
    rw [stmtLogged, stmt]
    exact .pure _ _
  | .block span body => by
    rw [stmtLogged, stmt]
    exact (inFrame_erases (stmtsLogged_erases body) .block).bind fun _ => .pure _ _
  | .staged span before body => by
    rw [stmtLogged, stmt]
    exact (stmtsLogged_erases before).bind fun _ =>
      (stmtLogged_erases body).bind fun _ => .pure _ _

theorem elseLogged_erases : ∀ branch : Option Stmt,
    Erases (elseLogged model visit branch) (elseStmt model visit branch)
  | none => by
    rw [elseLogged, elseStmt]
    exact .pure _ _
  | some branch => by
    rw [elseLogged, elseStmt]
    exact (inFrame_erases (stmtLogged_erases branch) .block).bind fun _ => .pure _ _

theorem stmtsLogged_erases : ∀ body : List Stmt,
    Erases (stmtsLogged model visit body) (stmts model visit body)
  | [] => by
    rw [stmtsLogged, stmts]
    exact .pure _ _
  | head :: rest => by
    rw [stmtsLogged, stmts]
    exact (stmtLogged_erases head).bind fun _ => (stmtsLogged_erases rest).bind fun _ => .pure _ _

end

/-- Without its log the walk is the walk. -/
theorem bodyLogged_erases (locals : Locals) (statements : List Stmt) :
    Erases (bodyLogged model visit locals statements) (body model visit locals statements) := by
  have h : Prod.fst <$> stmtsLogged model visit statements = stmts model visit statements :=
    stmtsLogged_erases statements
  unfold Erases bodyLogged body
  rw [← h, StateT.run'_eq, StateT.run'_eq, StateT.run_map]
  simp only [Functor.map_map]

end Erasing

/-! ## What the log says -/

section Scoping

variable {model : Model} {visit : Visit} {P : String × Ty → Prop}

/-- The statement declares one variable that meets a condition, and there is no expression in it. -/
def Declares (model : Model) (P : String × Ty → Prop) (statement : Stmt) : Prop :=
  ∃ binding, P binding ∧ statement.values model = .binding fun visible => binding :: visible

/-- What a visit asks for are variables that meet a condition. -/
def Declaring (model : Model) (P : String × Ty → Prop) (visit : Visit) : Prop :=
  ∀ (locals : Locals) (value result : Expr) (next last : Nat) (before : List Stmt),
    (expr (visit locals) value).run ⟨next, []⟩ = .ok (result, ⟨last, before⟩) →
      ∀ statement ∈ before, Declares model P statement

/-- Declarations of such variables have no expressions, and leave a scope with more of them. -/
theorem valuesAll_declares {before : List Stmt}
    (h : ∀ statement ∈ before, Declares model P statement) (visible : Bindings) :
    (Stmt.valuesAll model before).found visible = [] ∧
      ∀ {inner : Bindings}, Inserted P inner visible →
        Inserted P inner ((Stmt.valuesAll model before).after visible) := by
  induction before generalizing visible with
  | nil => exact ⟨rfl, fun hvisible => hvisible⟩
  | cons statement rest ih =>
    obtain ⟨binding, hbinding, hread⟩ := h statement List.mem_cons_self
    obtain ⟨hfound, hafter⟩ :=
      ih (fun other hother => h other (List.mem_cons_of_mem _ hother)) (binding :: visible)
    rw [Stmt.valuesAll, Stmt.readAll, ← Stmt.values, hread]
    exact ⟨hfound, fun hvisible => hafter (.insert hbinding hvisible)⟩

/-- The expression that a visit puts in the place of another, with the same variables in scope but
for those that meet the condition. -/
structure Rewritten (visit : Visit) (P : String × Ty → Prop) (visited : Visited Expr)
    (there : Occurrence Expr) : Prop where
  visible : Inserted P visited.locals.visible there.visible
  value : ∃ next pending,
    (expr (visit visited.locals) visited.node).run ⟨next, []⟩ = .ok (there.node, pending)

/-- A stretch of a walk: it sees the scopes of what it walks, and leaves what is read the same way. -/
structure Walked (visit : Visit) (P : String × Ty → Prop)
    (reading result : Reading (Occurrence Expr)) (locals : Locals) (log : Log) (after : Locals) :
    Prop extends Sees reading locals log after where
  rewritten : ∀ {visible : Bindings}, Inserted P locals.visible visible →
    List.Forall₂ (Rewritten visit P) log (result.found visible)
  grown : ∀ {visible : Bindings}, Inserted P locals.visible visible →
    Inserted P after.visible (result.after visible)

namespace Walked

variable {reading result reading' result' : Reading (Occurrence Expr)}
  {locals between after : Locals} {log more : Log}

theorem nothing (h : locals.Open) : Walked visit P .nothing .nothing locals [] locals where
  toSees := .nothing h
  rewritten _ := .nil
  grown hvisible := hvisible

theorem andThen (h : Walked visit P reading result locals log between)
    (h' : Walked visit P reading' result' between more after) :
    Walked visit P (reading.andThen reading') (result.andThen result') locals (log ++ more) after where
  toSees := h.toSees.andThen h'.toSees
  rewritten hvisible := List.rel_append (h.rewritten hvisible) (h'.rewritten (h.grown hvisible))
  grown hvisible := h'.grown (h.grown hvisible)

theorem declare (decl : VariableDecl) (hopen : locals.Open) (htype : decl.type.isSome = true) :
    Walked visit P (.binding (decl.bind model)) (.binding (decl.bind model)) locals []
      (declareLocal model locals decl) := by
  have hsees : Sees (.binding (decl.bind model) : Reading (Occurrence Expr)) locals []
      (declareLocal model locals decl) := .declare hopen htype
  refine ⟨hsees, fun _ => .nil, fun hvisible => ?_⟩
  rw [hsees.visible]
  unfold Reading.binding VariableDecl.bind
  cases decl.name.ident? with
  | none => exact hvisible
  | some name => exact .keep _ hvisible

theorem inside {kind : FrameKind} (hopen : locals.Open)
    (h : Walked visit P reading result (locals.push kind) log after) :
    Walked visit P reading.inside result.inside locals log locals where
  toSees := h.toSees.inside hopen
  rewritten hvisible := h.rewritten hvisible
  grown hvisible := hvisible

/-- What is asked for comes before the statement. -/
theorem staged {before : List Stmt} (hbefore : ∀ statement ∈ before, Declares model P statement)
    (h : Walked visit P reading result locals log after) :
    Walked visit P reading ((Stmt.valuesAll model before).andThen result) locals log after where
  toSees := h.toSees
  rewritten {visible} hvisible := by
    obtain ⟨hfound, hafter⟩ := valuesAll_declares hbefore visible
    show List.Forall₂ _ log (_ ++ _)
    rw [hfound]
    exact h.rewritten (hafter hvisible)
  grown {visible} hvisible := h.grown ((valuesAll_declares hbefore visible).2 hvisible)

end Walked

theorem read_stage (before : List Stmt) (statement : Stmt) :
    (stage before statement).values model
      = (Stmt.valuesAll model before).andThen (statement.values model) := by
  cases before <;> rfl

theorem read_restage (span : Span) (before : List Stmt) (statement : Stmt) :
    (restage span before statement).values model
      = (Stmt.valuesAll model before).andThen (statement.values model) := by
  cases statement with
  | staged place more body =>
    rw [restage, read_stage, Stmt.valuesAll_append, Reading.andThen_assoc, Stmt.values,
      Stmt.read_withSpan]
    rfl
  | _ => exact read_stage before _

/-! ### Statement by statement -/

section Parts

variable (hvisit : Declaring model P visit)
include hvisit

theorem atPointLogged_walked {value result : Expr} {before : List Stmt} {log : Log}
    {point after : Point} (hopen : point.locals.Open)
    (h : (atPointLogged visit value).run point = .ok (((result, before), log), after)) :
    Walked visit P (.leaf ([⟨·, value⟩])) (.leaf ([⟨·, result⟩])) point.locals log after.locals ∧
      ∀ statement ∈ before, Declares model P statement := by
  simp only [atPointLogged, Lowered.run_bind, Lowered.run_get, Lowered.run_pure] at h
  obtain ⟨_, _, ⟨rfl, rfl⟩, _, _, hrun, ⟨⟨rfl, rfl⟩, rfl⟩⟩ := h
  obtain ⟨last, hvalue, rfl⟩ := run_atPoint.mp hrun
  refine ⟨⟨.leaf hopen value, fun hvisible => ?_, fun hvisible => hvisible⟩,
    hvisit _ _ _ _ _ _ hvalue⟩
  exact .cons ⟨hvisible, _, _, hvalue⟩ .nil

theorem atPointOptionLogged_walked {value result : Option Expr} {before : List Stmt} {log : Log}
    {point after : Point} (hopen : point.locals.Open)
    (h : (atPointOptionLogged visit value).run point = .ok (((result, before), log), after)) :
    Walked visit P (Expr.valuesOption value) (Expr.valuesOption result) point.locals log
        after.locals ∧
      ∀ statement ∈ before, Declares model P statement := by
  cases value with
  | none =>
    cases h
    exact ⟨.nothing hopen, List.forall_mem_nil _⟩
  | some value =>
    obtain ⟨⟨⟨result, before⟩, log⟩, between, hrun, h⟩ := Lowered.run_bind.mp h
    cases h
    exact atPointLogged_walked hvisit hopen hrun

theorem varDeclLogged_walked {decl result : VariableDecl} {before : List Stmt} {log : Log}
    {point after : Point} (hopen : point.locals.Open) (htype : decl.type.isSome = true)
    (h : (varDeclLogged model visit decl).run point = .ok (((result, before), log), after)) :
    Walked visit P (decl.values model) (result.values model) point.locals log after.locals ∧
      ∀ statement ∈ before, Declares model P statement := by
  obtain ⟨⟨⟨init, before⟩, log⟩, between, hinit, h⟩ := Lowered.run_bind.mp h
  obtain ⟨hwalked, hbefore⟩ := atPointOptionLogged_walked hvisit hopen hinit
  obtain ⟨rfl, rfl, rfl, hafter⟩ : result = { decl with init } ∧ _ = before ∧ _ = log ∧
      after.locals = declareLocal model between.locals { decl with init } := by
    unfold declareLocal
    dsimp only at h ⊢
    cases hname : decl.name.ident? with
    | none =>
      rw [hname] at h
      cases h
      exact ⟨rfl, rfl, rfl, rfl⟩
    | some name =>
      rw [hname] at h
      cases h
      exact ⟨rfl, rfl, rfl, rfl⟩
  rw [hafter]
  have hbound : Walked visit P (.binding (decl.bind model)) (.binding (decl.bind model))
      between.locals [] (declareLocal model between.locals { decl with init }) :=
    .declare { decl with init } hwalked.stays htype
  have hall := hwalked.andThen hbound
  rw [List.append_nil] at hall
  exact ⟨hall, hbefore⟩

theorem varDeclsLogged_walked : ∀ {decls result : List VariableDecl} {before : List Stmt} {log : Log}
    {point after : Point}, point.locals.Open → (∀ decl ∈ decls, decl.type.isSome = true) →
    (varDeclsLogged model visit decls).run point = .ok (((result, before), log), after) →
    Walked visit P (VariableDecl.valuesAll model decls) (VariableDecl.valuesAll model result)
        point.locals log after.locals ∧
      ∀ statement ∈ before, Declares model P statement
  | [], _, _, _, _, _, hopen, _, h => by
    cases h
    exact ⟨.nothing hopen, List.forall_mem_nil _⟩
  | decl :: rest, _, _, _, _, _, hopen, htypes, h => by
    obtain ⟨⟨⟨one, before⟩, first⟩, between, hdecl, h⟩ := Lowered.run_bind.mp h
    obtain ⟨⟨⟨others, more⟩, second⟩, last, hrest, h⟩ := Lowered.run_bind.mp h
    cases h
    obtain ⟨htype, htypes⟩ := List.forall_mem_cons.mp htypes
    obtain ⟨hone, hbefore⟩ := varDeclLogged_walked hvisit hopen htype hdecl
    obtain ⟨hothers, hmore⟩ := varDeclsLogged_walked hone.stays htypes hrest
    exact ⟨hone.andThen hothers, List.forall_mem_append.mpr ⟨hbefore, hmore⟩⟩

end Parts

mutual

theorem stmtLogged_walked (hvisit : Declaring model P visit) :
    ∀ (statement : Stmt) {result : Stmt} {log : Log} {point after : Point},
    (stmtLogged model visit statement).run point = .ok ((result, log), after) →
    point.locals.Open → statement.Annotated →
    Walked visit P (statement.values model) (result.values model) point.locals log after.locals
  | .vars span kind decls, _, _, _, _, h, hopen, hall => by
    rw [stmtLogged] at h
    obtain ⟨⟨⟨walked, before⟩, log⟩, between, hdecls, h⟩ := Lowered.run_bind.mp h
    cases h
    obtain ⟨hwalked, hbefore⟩ :=
      varDeclsLogged_walked hvisit hopen (fun decl hdecl => (hall decl hdecl).1) hdecls
    rw [read_stage]
    exact hwalked.staged hbefore
  | .expr span value, _, _, _, _, h, hopen, _ => by
    rw [stmtLogged] at h
    obtain ⟨⟨⟨walked, before⟩, log⟩, between, hvalue, h⟩ := Lowered.run_bind.mp h
    cases h
    obtain ⟨hwalked, hbefore⟩ := atPointLogged_walked hvisit hopen hvalue
    rw [read_stage]
    exact hwalked.staged hbefore
  | .ret span value, _, _, _, _, h, hopen, _ => by
    rw [stmtLogged] at h
    obtain ⟨⟨⟨walked, before⟩, log⟩, between, hvalue, h⟩ := Lowered.run_bind.mp h
    cases h
    obtain ⟨hwalked, hbefore⟩ := atPointOptionLogged_walked hvisit hopen hvalue
    rw [read_stage]
    exact hwalked.staged hbefore
  | .ifElse span condition thenBranch elseBranch, _, _, _, _, h, hopen, hall => by
    rw [stmtLogged] at h
    obtain ⟨-, hthen, helse⟩ := hall
    obtain ⟨⟨⟨head, before⟩, first⟩, one, hcondition, h⟩ := Lowered.run_bind.mp h
    obtain ⟨⟨walked, second⟩, two, hinner, h⟩ := Lowered.run_bind.mp h
    obtain ⟨⟨other, third⟩, three, hother, h⟩ := Lowered.run_bind.mp h
    cases h
    obtain ⟨hhead, hbefore⟩ := atPointLogged_walked hvisit hopen hcondition
    obtain ⟨inner, hrun, rfl⟩ := run_inFrame.mp hinner
    have hfirst := stmtLogged_walked hvisit thenBranch hrun (.push one.locals .block) hthen
    have hsecond := elseLogged_walked hvisit elseBranch hother hhead.stays helse
    rw [read_stage]
    exact (hhead.andThen ((hfirst.inside hhead.stays).andThen hsecond)).staged hbefore
  | .loop span condition body, _, _, _, _, h, hopen, hall => by
    rw [stmtLogged] at h
    obtain ⟨⟨⟨head, before⟩, first⟩, one, hcondition, h⟩ := Lowered.run_bind.mp h
    obtain ⟨⟨walked, second⟩, two, hinner, h⟩ := Lowered.run_bind.mp h
    cases h
    obtain ⟨hhead, hbefore⟩ := atPointLogged_walked hvisit hopen hcondition
    obtain ⟨inner, hrun, rfl⟩ := run_inFrame.mp hinner
    have hbody := stmtLogged_walked hvisit body hrun (.push one.locals .loop) hall.2
    rw [read_stage]
    exact (hhead.andThen (hbody.inside hhead.stays)).staged hbefore
  | .brk span, _, _, _, _, h, hopen, _ => by
    rw [stmtLogged] at h
    cases h
    exact .nothing hopen
  | .cont span, _, _, _, _, h, hopen, _ => by
    rw [stmtLogged] at h
    cases h
    exact .nothing hopen
  | .block span body, _, _, point, _, h, hopen, hall => by
    rw [stmtLogged] at h
    obtain ⟨⟨walked, log⟩, between, hinner, h⟩ := Lowered.run_bind.mp h
    cases h
    obtain ⟨inner, hrun, rfl⟩ := run_inFrame.mp hinner
    have hbody := stmtsLogged_walked hvisit body hrun (.push point.locals .block) hall
    exact hbody.inside hopen
  | .staged span before body, _, _, _, _, h, hopen, hall => by
    rw [stmtLogged] at h
    obtain ⟨⟨staged, first⟩, one, hbefore, h⟩ := Lowered.run_bind.mp h
    obtain ⟨⟨walked, second⟩, two, hbody, h⟩ := Lowered.run_bind.mp h
    cases h
    have hfirst := stmtsLogged_walked hvisit before hbefore hopen hall.1
    have hsecond := stmtLogged_walked hvisit body hbody hfirst.stays hall.2
    rw [read_restage]
    exact hfirst.andThen hsecond

theorem elseLogged_walked (hvisit : Declaring model P visit) :
    ∀ (branch : Option Stmt) {result : Option Stmt} {log : Log}
    {point after : Point}, (elseLogged model visit branch).run point = .ok ((result, log), after) →
    point.locals.Open → Stmt.AllOption (fun _ => True) (fun _ type => type.isSome) branch →
    Walked visit P (Stmt.valuesElse model branch) (Stmt.valuesElse model result) point.locals log
      after.locals
  | none, _, _, _, _, h, hopen, _ => by
    rw [elseLogged] at h
    cases h
    exact .nothing hopen
  | some branch, _, _, point, _, h, hopen, hall => by
    rw [elseLogged] at h
    obtain ⟨⟨walked, log⟩, between, hinner, h⟩ := Lowered.run_bind.mp h
    cases h
    obtain ⟨inner, hrun, rfl⟩ := run_inFrame.mp hinner
    have hbranch := stmtLogged_walked hvisit branch hrun (.push point.locals .block) hall
    exact hbranch.inside hopen

theorem stmtsLogged_walked (hvisit : Declaring model P visit) :
    ∀ (body : List Stmt) {result : List Stmt} {log : Log}
    {point after : Point}, (stmtsLogged model visit body).run point = .ok ((result, log), after) →
    point.locals.Open → AllList (fun _ => True) (fun _ type => type.isSome) body →
    Walked visit P (Stmt.valuesAll model body) (Stmt.valuesAll model result) point.locals log
      after.locals
  | [], _, _, _, _, h, hopen, _ => by
    rw [stmtsLogged] at h
    cases h
    exact .nothing hopen
  | head :: rest, _, _, _, _, h, hopen, hall => by
    rw [stmtsLogged] at h
    obtain ⟨⟨walked, first⟩, one, hhead, h⟩ := Lowered.run_bind.mp h
    obtain ⟨⟨others, second⟩, two, hrest, h⟩ := Lowered.run_bind.mp h
    cases h
    have hfirst := stmtLogged_walked hvisit head hhead hopen hall.1
    have hsecond := stmtsLogged_walked hvisit rest hrest hfirst.stays hall.2
    exact hfirst.andThen hsecond

end

/-- A walk through a body sees the scopes of the body. What it leaves has the same scopes, but for
the variables that were asked for. -/
theorem bodyLogged_walked (hvisit : Declaring model P visit) {locals : Locals}
    (hopen : locals.Open) {statements result : List Stmt} {log : Log}
    (hall : AllList (fun _ => True) (fun _ type => type.isSome) statements)
    (h : bodyLogged model visit locals statements = .ok (result, log)) :
    ∃ after, Walked visit P (Stmt.valuesAll model statements) (Stmt.valuesAll model result) locals log
      after := by
  change Except.map Prod.fst ((stmtsLogged model visit statements).run ⟨locals, 1⟩) = _ at h
  obtain ⟨⟨_, after⟩, hrun, rfl⟩ := Lowered.map_eq_ok.mp h
  exact ⟨after.locals, stmtsLogged_walked hvisit statements hrun hopen hall⟩

end Scoping

end Walk

end NativeLowering
