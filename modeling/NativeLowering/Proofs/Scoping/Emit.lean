import NativeLowering.Proofs.Emit.Draft
import NativeLowering.Proofs.Scoping.Reference

/-!
# What writing sees

An expression is written at the local bindings of the open function. Here statements are written
with a log of the expressions and these bindings (`Emit.stmtsLogged`); without the log it is the
writing of the statements (`stmtsLogged_erases`). The log has the expressions of the statements in
order, and the variables bound at each are those in scope there (`stmtsLogged_spells`).
-/

set_option autoImplicit false

namespace NativeLowering
namespace Emit

/-- The expressions that have been written. -/
abbrev Log := List (Visited Expr)

/-! ## Writing with a log -/

section Logged

variable (cx : Context)

def exprLogged (value : Expr) : Emit (Unit × Log) := do
  let locals ← currentLocals
  expr cx value
  return ((), [⟨locals, value⟩])

def initializedLogged (introduction : String) (init : Expr) : Emit (Unit × Log) := do
  append (introduction ++ " = ") .start
  let (_, log) ← exprLogged cx init
  append ";" .finish
  return ((), log)

/-- What is written in place of a variable declaration. -/
def placedLogged (kind : VariableKind) (decl : VariableDecl) (name type : String) :
    Emit (Unit × Log) :=
  match kind, decl.init with
  | .varKind, init => do
    hoist (type ++ " " ++ name ++ ";") decl.span
    match init with
    | some init => initializedLogged cx name init
    | none => return ((), [])
  | _, some init => initializedLogged cx (type ++ " " ++ name) init
  | _, none => do
    append (type ++ " " ++ name ++ ";") .line
    return ((), [])

def variableDeclLogged (kind : VariableKind) (decl : VariableDecl) : Emit (Unit × Log) := do
  let name ← variableName decl
  let node ← variableType decl name
  let type ← typeString cx node
  let (_, log) ← placedLogged cx kind decl name type
  onLocals decl.span fun locals => locals.declare name (cx.model.typeFromNode node)
  return ((), log)

def variableDeclsLogged (kind : VariableKind) : List VariableDecl → Emit (Unit × Log)
  | [] => return ((), [])
  | decl :: rest => do
    let (_, log) ← variableDeclLogged cx kind decl
    let (_, more) ← variableDeclsLogged kind rest
    return ((), log ++ more)

/-- Writes in braces, in a frame of local bindings of its own. -/
def bracedLogged (span : Span) (kind : FrameKind) (step : Emit (Unit × Log)) :
    Emit (Unit × Log) := do
  append "\x7b" .line
  indent
  onLocals span fun locals => locals.push kind
  let (_, log) ← step
  onLocals span fun locals => locals.pop.2
  dedent
  append "\x7d" .line
  return ((), log)

/-- Writes a statement, which is closed also if the step fails. -/
def asStatementLogged (step : Emit (Unit × Log)) : Emit (Unit × Log) := do
  pushStatement
  let result ← attempt step
  let closed ← attempt popStatement
  let (_, log) ← ofLowered result
  ofLowered closed
  return ((), log)

def headLogged (word : String) (condition : Expr) : Emit (Unit × Log) := do
  append (word ++ " (") .inline
  let (_, log) ← exprLogged cx condition
  append ")" .finish
  return ((), log)

/-- A branch or loop body: a block as it is, a single statement in braces. -/
def branchLogged (stmt : Stmt) (kind : FrameKind) (step : Emit (Unit × Log)) : Emit (Unit × Log) :=
  if stmt.isBlock then step
  else bracedLogged stmt.span kind (asStatementLogged step)

mutual

/-- Writes what a statement consists of and logs the expressions. -/
def contentLogged : Stmt → Emit (Unit × Log)
  | .vars _ kind decls => variableDeclsLogged cx kind decls
  | .expr _ value => do
    let (_, log) ← exprLogged cx value
    append ";" .inline
    return ((), log)
  | .ret _ none => do
    append "return;" .inline
    return ((), [])
  | .ret _ (some value) => do
    append "return " .inline
    let (_, log) ← exprLogged cx value
    append ";" .inline
    return ((), log)
  | .ifElse _ condition thenBranch elseBranch => do
    let (_, first) ← headLogged cx "if" condition
    let (_, second) ← branchLogged thenBranch .block (contentLogged thenBranch)
    let (_, third) ← elseLogged elseBranch
    return ((), first ++ (second ++ third))
  | .loop _ condition body => do
    let (_, first) ← headLogged cx "while" condition
    let (_, second) ← branchLogged body .loop (contentLogged body)
    return ((), first ++ second)
  | .brk _ => do
    append "break;" .inline
    return ((), [])
  | .cont _ => do
    append "continue;" .inline
    return ((), [])
  | .block span body => bracedLogged span .block (stmtsLogged body)
  | .staged _ before body => do
    let (_, first) ← inPrelude (stmtsLogged before)
    let (_, second) ← contentLogged body
    return ((), first ++ second)

def elseLogged : Option Stmt → Emit (Unit × Log)
  | none => return ((), [])
  | some branch => do
    append "else" .line
    branchLogged branch .block (contentLogged branch)

/-- Writes statements in order and logs the expressions. -/
def stmtsLogged : List Stmt → Emit (Unit × Log)
  | [] => return ((), [])
  | first :: rest => do
    let (_, log) ← asStatementLogged (contentLogged first)
    let (_, more) ← stmtsLogged rest
    return ((), log ++ more)

end

end Logged

/-! ### Without the log -/

section Erasing

variable {cx : Context}

theorem run_map {α β : Type} (change : α → β) (step : Emit α) (session : Session) :
    (change <$> step).run session = ((step.run session).1.map change, (step.run session).2) := by
  rw [← bind_pure_comp, run_bind]
  rcases step.run session with ⟨result, after⟩
  cases result <;> rfl

theorem attempt_map {α β : Type} (change : α → β) (step : Emit α) :
    attempt (change <$> step) = Except.map change <$> attempt step := by
  funext session
  refine (congrArg (fun outcome => (Except.ok outcome.1, outcome.2)) (run_map change step session)).trans
    ?_
  exact (run_map (Except.map change) (attempt step) session).symm

theorem ofLowered_map {α β : Type} (change : α → β) (result : Lowered α) :
    ofLowered (result.map change) = change <$> ofLowered result := by
  cases result <;> rfl

theorem inScope_map {α β : Type} (change : α → β) (buffer : Buffer) (step : Emit α) :
    inScope buffer (change <$> step) = Prod.map change id <$> inScope buffer step := by
  unfold inScope
  simp only [attempt_map, ofLowered_map, bind_map_left, map_bind, map_pure]
  rfl

theorem inPrelude_map {α β : Type} (change : α → β) (step : Emit α) :
    inPrelude (change <$> step) = change <$> inPrelude step := by
  unfold inPrelude
  rw [map_bind]
  refine bind_congr fun session => ?_
  cases session.stages with
  | nil => rfl
  | cons stage stages =>
    simp only [inScope_map, bind_map_left, map_bind]
    refine bind_congr fun _ => bind_congr fun _ => bind_congr fun session => ?_
    cases session.stages with
    | nil => rfl
    | cons stage stages => rfl

theorem inPrelude_erases {logged : Emit (Unit × Log)} {plain : Emit Unit} (h : Erases logged plain) :
    Erases (inPrelude logged) (inPrelude plain) := by
  obtain rfl : Prod.fst <$> logged = plain := h
  exact (inPrelude_map Prod.fst logged).symm

theorem asStatementLogged_erases {logged : Emit (Unit × Log)} {plain : Emit Unit}
    (h : Erases logged plain) : Erases (asStatementLogged logged) (asStatement plain) := by
  obtain rfl : Prod.fst <$> logged = plain := h
  unfold asStatementLogged asStatement
  refine .after fun _ => ?_
  rw [attempt_map, bind_map_left]
  refine .after fun result => .after fun closed => ?_
  rw [ofLowered_map, bind_map_left]
  exact .after fun _ => .last _

/-- Looking at the local bindings changes nothing, inside a function and outside. -/
theorem currentLocals_bind {α : Type} (step : Emit α) : (currentLocals >>= fun _ => step) = step := by
  funext session
  have hrun := run_bind currentLocals (fun _ => step) session
  rw [currentLocals_run] at hrun
  exact hrun

theorem exprLogged_erases (value : Expr) : Erases (exprLogged cx value) (expr cx value) := by
  have hlogged : Erases (exprLogged cx value) (currentLocals >>= fun _ => expr cx value) :=
    .after fun _ => .last _
  rwa [currentLocals_bind] at hlogged

theorem initializedLogged_erases (introduction : String) (init : Expr) :
    Erases (initializedLogged cx introduction init) (initialized cx introduction init) :=
  .after fun _ => (exprLogged_erases init).bind fun _ => .last _

theorem variableDeclLogged_erases (kind : VariableKind) (decl : VariableDecl) :
    Erases (variableDeclLogged cx kind decl) (variableDecl cx kind decl) := by
  unfold variableDeclLogged variableDecl placedLogged
  refine .after fun name => .after fun node => .after fun type => ?_
  cases hinit : decl.init with
  | none =>
    cases kind with
    | varKind | letKind | constKind => exact (Erases.last _).bind fun _ => .last _
  | some init =>
    cases kind with
    | varKind =>
      dsimp only
      rw [bind_assoc]
      exact .after fun _ => (initializedLogged_erases name init).bind fun _ => .last _
    | letKind | constKind => exact (initializedLogged_erases _ init).bind fun _ => .last _

theorem variableDeclsLogged_erases (kind : VariableKind) : ∀ decls : List VariableDecl,
    Erases (variableDeclsLogged cx kind decls) (variableDecls cx kind decls)
  | [] => .pure _ _
  | decl :: rest => (variableDeclLogged_erases kind decl).bind fun _ =>
    (variableDeclsLogged_erases kind rest).relog _

theorem bracedLogged_erases (span : Span) (kind : FrameKind) {logged : Emit (Unit × Log)}
    {plain : Emit Unit} (h : Erases logged plain) :
    Erases (bracedLogged span kind logged) (braced span kind plain) :=
  .after fun _ => .after fun _ => .after fun _ => h.bind fun _ =>
    .after fun _ => .after fun _ => .last _

theorem headLogged_erases (word : String) (condition : Expr) :
    Erases (headLogged cx word condition) (head cx word condition) :=
  .after fun _ => (exprLogged_erases condition).bind fun _ => .last _

theorem branchLogged_erases (stmt : Stmt) (kind : FrameKind) {logged : Emit (Unit × Log)}
    {plain : Emit Unit} (h : Erases logged plain) :
    Erases (branchLogged stmt kind logged)
      (if stmt.isBlock then plain else braced stmt.span kind (asStatement plain)) := by
  unfold branchLogged
  split
  · exact h
  · exact bracedLogged_erases _ _ (asStatementLogged_erases h)

mutual

theorem contentLogged_erases : ∀ stmt : Stmt, Erases (contentLogged cx stmt) (content cx stmt)
  | .vars span kind decls => by
    rw [contentLogged, content]
    exact variableDeclsLogged_erases kind decls
  | .expr span value => by
    rw [contentLogged, content]
    exact (exprLogged_erases value).bind fun _ => .last _
  | .ret span none => by
    rw [contentLogged, content]
    exact .last _
  | .ret span (some value) => by
    rw [contentLogged, content]
    exact .after fun _ => (exprLogged_erases value).bind fun _ => .last _
  | .ifElse span condition thenBranch elseBranch => by
    rw [contentLogged, content_ifElse]
    exact (headLogged_erases "if" condition).bind fun first =>
      (branchLogged_erases thenBranch .block (contentLogged_erases thenBranch)).bind fun second =>
      (elseLogged_erases elseBranch).relog fun third => first.2 ++ (second.2 ++ third)
  | .loop span condition body => by
    rw [contentLogged, content]
    exact (headLogged_erases "while" condition).bind fun _ =>
      (branchLogged_erases body .loop (contentLogged_erases body)).relog _
  | .brk span => by
    rw [contentLogged, content]
    exact .last _
  | .cont span => by
    rw [contentLogged, content]
    exact .last _
  | .block span body => by
    rw [contentLogged, content]
    exact bracedLogged_erases span .block (stmtsLogged_erases body)
  | .staged span before body => by
    rw [contentLogged, content]
    exact (inPrelude_erases (stmtsLogged_erases before)).bind fun _ =>
      (contentLogged_erases body).relog _

theorem elseLogged_erases : ∀ branch : Option Stmt,
    Erases (elseLogged cx branch) (elseContent cx branch)
  | none => by
    rw [elseLogged, elseContent]
    exact .pure _ _
  | some branch => by
    rw [elseLogged, elseContent]
    exact .after fun _ => branchLogged_erases branch .block (contentLogged_erases branch)

theorem stmtsLogged_erases : ∀ body : List Stmt, Erases (stmtsLogged cx body) (stmts cx body)
  | [] => by
    rw [stmtsLogged, stmts]
    exact .pure _ _
  | stmt :: rest => by
    rw [stmtsLogged, stmts]
    exact (asStatementLogged_erases (contentLogged_erases stmt)).bind fun _ =>
      (stmtsLogged_erases rest).relog _

end

end Erasing

/-! ## What the log says -/

section Scoping

variable {cx : Context} {α : Type}

/-- The local bindings of the open function, if there is one. -/
def bindings? (session : Session) : Option Locals :=
  session.openFunction.map OpenFunction.locals

/-- A step that leaves the local bindings alone. -/
def Silent (step : Emit α) : Prop :=
  ∀ (session after : Session) (value : α), Gives step session value after →
    bindings? after = bindings? session

/-- A step sees what is in scope in what it writes. It declares in the innermost frame only, so that
closing a frame restores the bindings around it. -/
def Spells (reading : Reading (Occurrence Expr)) (step : Emit (Unit × Log)) : Prop :=
  ∀ (session after : Session) (locals : Locals) (log : Log), bindings? session = some locals →
    locals.Open → Gives step session ((), log) after →
    ∃ last, bindings? after = some last ∧ last.pop.2 = locals.pop.2 ∧ Sees reading locals log last

/-! ### Steps that leave the bindings alone -/

theorem silent_append (text : String) (mode : AppendMode) : Silent (append text mode) := by
  intro session after value h
  obtain rfl := gives_append.mp h
  rfl

theorem silent_hoist (text : String) (span : Span) : Silent (hoist text span) := by
  intro session after value h
  obtain ⟨current, hopen, rfl⟩ := gives_onRecord.mp h
  rw [bindings?, bindings?, hopen]
  rfl

theorem silent_typeString (node : TypeNode) : Silent (typeString cx node) := by
  intro session after value h
  obtain ⟨-, rfl⟩ := gives_typeString.mp h
  rfl

theorem silent_popStatement : Silent popStatement := by
  intro session after value h
  obtain ⟨next, outer, stage, stages, -, -, rfl⟩ := gives_popStatement.mp h
  rfl

/-! ### Putting steps together -/

variable {reading reading' : Reading (Occurrence Expr)}

theorem spells_nothing : Spells .nothing (pure ((), [])) := by
  intro session after locals log hlocals hopen h
  cases h
  exact ⟨locals, hlocals, rfl, .nothing hopen⟩

/-- An expression is logged with the bindings of the open function, and then written. -/
theorem gives_exprLogged {value : Expr} {session after : Session} {current : OpenFunction} {log : Log}
    (hopen : session.openFunction = some current)
    (h : Gives (exprLogged cx value) session ((), log) after) :
    log = [⟨current.locals, value⟩] ∧
      ∃ text, after = { session with current := session.current.write text } := by
  obtain ⟨locals, _, hlocals, hrest⟩ := gives_bind.mp h
  obtain ⟨hfound, rfl⟩ := (gives_computed (run_currentLocals hopen)).mp hlocals
  obtain rfl := Except.ok.inj hfound
  obtain ⟨_, _, hexpr, hpure⟩ := gives_bind.mp hrest
  obtain ⟨text, -, rfl⟩ := (gives_expr hopen).mp hexpr
  obtain ⟨hlog, rfl⟩ := gives_pure.mp hpure
  exact ⟨congrArg Prod.snd hlog, text, rfl⟩

theorem spells_expr (value : Expr) : Spells (.leaf ([⟨·, value⟩])) (exprLogged cx value) := by
  intro session after locals log hlocals hopen h
  obtain ⟨current, hcurrent, rfl⟩ := Option.map_eq_some_iff.mp hlocals
  obtain ⟨rfl, text, rfl⟩ := gives_exprLogged hcurrent h
  exact ⟨_, hlocals, rfl, .leaf hopen value⟩

theorem Spells.after {step : Emit α} {next : α → Emit (Unit × Log)} (hstep : Silent step)
    (hnext : ∀ value, Spells reading (next value)) : Spells reading (step >>= next) := by
  intro session after locals log hlocals hopen h
  obtain ⟨value, between, hfirst, hrest⟩ := gives_bind.mp h
  exact hnext value _ _ _ _ ((hstep _ _ _ hfirst).trans hlocals) hopen hrest

theorem Spells.lift {result : Lowered α} {next : α → Emit (Unit × Log)}
    (hnext : ∀ value, result = .ok value → Spells reading (next value)) :
    Spells reading (liftM result >>= next) := by
  intro session after locals log hlocals hopen h
  obtain ⟨value, _, hfirst, hrest⟩ := gives_bind.mp h
  obtain ⟨hvalue, rfl⟩ := gives_lift.mp hfirst
  exact hnext value hvalue _ _ _ _ hlocals hopen hrest

theorem Spells.last {logged : Emit (Unit × Log)} {step : Emit Unit} (h : Spells reading logged)
    (hstep : Silent step) :
    Spells reading (logged >>= fun entry => step >>= fun _ => pure ((), entry.2)) := by
  intro session after locals log hlocals hopen hgives
  obtain ⟨⟨_, log⟩, between, hfirst, hrest⟩ := gives_bind.mp hgives
  obtain ⟨_, _, hlast, hpure⟩ := gives_bind.mp hrest
  cases hpure
  obtain ⟨last, hbetween, houter, hsees⟩ := h _ _ _ _ hlocals hopen hfirst
  exact ⟨last, (hstep _ _ _ hlast).trans hbetween, houter, hsees⟩

theorem Spells.andThen {logged logged' : Emit (Unit × Log)} (h : Spells reading logged)
    (h' : Spells reading' logged') :
    Spells (reading.andThen reading') (logged >>= fun entry => logged' >>= fun entry' =>
      pure ((), entry.2 ++ entry'.2)) := by
  intro session after locals log hlocals hopen hgives
  obtain ⟨⟨_, log⟩, between, hfirst, hrest⟩ := gives_bind.mp hgives
  obtain ⟨⟨_, more⟩, _, hsecond, hpure⟩ := gives_bind.mp hrest
  cases hpure
  obtain ⟨middle, hbetween, houter, hsees⟩ := h _ _ _ _ hlocals hopen hfirst
  obtain ⟨last, hafter, houter', hsees'⟩ := h' _ _ _ _ hbetween hsees.stays hsecond
  exact ⟨last, hafter, houter'.trans houter, hsees.andThen hsees'⟩

theorem Spells.asStatement {step : Emit (Unit × Log)} (h : Spells reading step) :
    Spells reading (asStatementLogged step) := by
  intro session after locals log hlocals hopen hgives
  simp only [asStatementLogged, gives_bind, gives_pushStatement, gives_attempt, gives_ofLowered,
    gives_pure] at hgives
  obtain ⟨_, _, rfl, _, inner, hstep, _, _, hpop, ⟨_, found⟩, _, ⟨rfl, rfl⟩, _, _, ⟨rfl, rfl⟩, hlog,
    rfl⟩ := hgives
  obtain rfl : log = found := congrArg Prod.snd hlog
  obtain ⟨last, hinner, houter, hsees⟩ := h (opened session) _ _ _ hlocals hopen hstep
  exact ⟨last, (silent_popStatement _ _ _ hpop).trans hinner, houter, hsees⟩

theorem Spells.inPrelude {step : Emit (Unit × Log)} (h : Spells reading step) :
    Spells reading (inPrelude step) := by
  intro session after locals log hlocals hopen hgives
  obtain ⟨stage, stages, inner, next, outer, newStage, newStages, -, hstep, -, -, rfl⟩ :=
    gives_inPrelude.mp hgives
  exact h (preluding session stage stages) inner _ _ hlocals hopen hstep

theorem Spells.braced {step : Emit (Unit × Log)} (h : Spells reading step) (span : Span)
    (kind : FrameKind) : Spells reading.inside (bracedLogged span kind step) := by
  intro session after locals log hlocals hopen hgives
  simp only [bracedLogged, gives_bind, gives_append, gives_indent, gives_dedent, gives_onLocals,
    gives_pure] at hgives
  obtain ⟨_, _, rfl, _, _, rfl, _, _, ⟨current, hcurrent, rfl⟩, ⟨_, found⟩, inner, hstep, _, _,
    ⟨last, hlast, rfl⟩, _, _, rfl, _, _, rfl, hlog, rfl⟩ := hgives
  obtain rfl : log = found := congrArg Prod.snd hlog
  have hpushed : bindings? session = some current.locals := by rw [bindings?, hcurrent]; rfl
  obtain rfl := Option.some.inj (hpushed.symm.trans hlocals)
  obtain ⟨_, hinner, houter, hsees⟩ := h _ _ _ _ rfl (.push _ kind) hstep
  -- The step has declared in the frame that was opened for it, so closing it gives back the bindings.
  rw [bindings?, hlast] at hinner
  cases hinner
  exact ⟨_, rfl, congrArg (·.pop.2) houter, houter ▸ hsees.inside hopen⟩

/-! ### Statement by statement -/

theorem initializedLogged_spells (introduction : String) (init : Expr) :
    Spells (.leaf ([⟨·, init⟩])) (initializedLogged cx introduction init) :=
  .after (silent_append _ _) fun _ => (spells_expr init).last (silent_append _ _)

theorem placedLogged_spells (kind : VariableKind) (decl : VariableDecl) (name type : String) :
    Spells (Expr.valuesOption decl.init) (placedLogged cx kind decl name type) := by
  unfold placedLogged
  cases decl.init with
  | none =>
    cases kind with
    | varKind => exact .after (silent_hoist _ _) fun _ => spells_nothing
    | letKind | constKind => exact .after (silent_append _ _) fun _ => spells_nothing
  | some init =>
    cases kind with
    | varKind => exact .after (silent_hoist _ _) fun _ => initializedLogged_spells name init
    | letKind | constKind => exact initializedLogged_spells _ init

/-- The variable is bound as it is read. -/
theorem Spells.declare {logged : Emit (Unit × Log)} (h : Spells reading logged)
    {decl : VariableDecl} {name : String} {node : TypeNode} (hname : decl.name.ident? = some name)
    (htype : decl.type = some node) (span : Span) :
    Spells (reading.andThen (.binding (decl.bind cx.model))) (logged >>= fun entry =>
      onLocals span (fun locals => locals.declare name (cx.model.typeFromNode node)) >>= fun _ =>
        pure ((), entry.2)) := by
  intro session after locals log hlocals hopen hgives
  obtain ⟨⟨_, log⟩, between, hfirst, hrest⟩ := gives_bind.mp hgives
  obtain ⟨_, _, hdeclare, hpure⟩ := gives_bind.mp hrest
  cases hpure
  obtain ⟨middle, hbetween, houter, hsees⟩ := h _ _ _ _ hlocals hopen hfirst
  obtain ⟨current, hcurrent, rfl⟩ := gives_onLocals.mp hdeclare
  rw [bindings?, hcurrent] at hbetween
  cases hbetween
  have hdeclared : declareLocal cx.model current.locals decl
      = current.locals.declare name (cx.model.typeFromNode node) := by
    simp only [declareLocal, hname, Model.declaredType, htype]
  have hbound : Sees (.binding (decl.bind cx.model) : Reading (Occurrence Expr)) current.locals [] _ :=
    .declare hsees.stays (by rw [htype]; rfl)
  rw [hdeclared] at hbound
  refine ⟨_, rfl, (pop_declare _ _ _).trans houter, ?_⟩
  have hall := hsees.andThen hbound
  rwa [List.append_nil] at hall

theorem variableName_eq_ok {decl : VariableDecl} {name : String} (h : variableName decl = .ok name) :
    decl.name.ident? = some name := by
  unfold variableName at h
  split at h
  · rename_i hfound
    cases h
    exact hfound
  · cases h

theorem variableType_eq_ok {decl : VariableDecl} {name : String} {node : TypeNode}
    (h : variableType decl name = .ok node) : decl.type = some node := by
  unfold variableType at h
  split at h
  · rename_i hfound
    cases h
    exact hfound
  · cases h

theorem variableDeclLogged_spells (kind : VariableKind) (decl : VariableDecl) :
    Spells (decl.values cx.model) (variableDeclLogged cx kind decl) := by
  refine .lift fun name hname => .lift fun node htype =>
    .after (silent_typeString node) fun type => ?_
  exact (placedLogged_spells kind decl name type).declare (variableName_eq_ok hname)
    (variableType_eq_ok htype) decl.span

theorem variableDeclsLogged_spells (kind : VariableKind) : ∀ decls : List VariableDecl,
    Spells (VariableDecl.valuesAll cx.model decls) (variableDeclsLogged cx kind decls)
  | [] => spells_nothing
  | decl :: rest =>
    (variableDeclLogged_spells kind decl).andThen (variableDeclsLogged_spells kind rest)

theorem headLogged_spells (word : String) (condition : Expr) :
    Spells (.leaf ([⟨·, condition⟩])) (headLogged cx word condition) :=
  .after (silent_append _ _) fun _ => (spells_expr condition).last (silent_append _ _)

theorem branchLogged_spells {stmt : Stmt} (kind : FrameKind) {step : Emit (Unit × Log)}
    (h : Spells (stmt.values cx.model) step) :
    Spells (stmt.values cx.model).inside (branchLogged stmt kind step) := by
  unfold branchLogged
  cases stmt with
  -- A block has a frame of its own already.
  | block span body => exact h
  | _ => exact h.asStatement.braced _ kind

mutual

theorem contentLogged_spells : ∀ stmt : Stmt,
    Spells (stmt.values cx.model) (contentLogged cx stmt)
  | .vars span kind decls => by
    rw [contentLogged]
    exact variableDeclsLogged_spells kind decls
  | .expr span value => by
    rw [contentLogged]
    exact (spells_expr value).last (silent_append _ _)
  | .ret span none => by
    rw [contentLogged]
    exact .after (silent_append _ _) fun _ => spells_nothing
  | .ret span (some value) => by
    rw [contentLogged]
    exact .after (silent_append _ _) fun _ => (spells_expr value).last (silent_append _ _)
  | .ifElse span condition thenBranch elseBranch => by
    rw [contentLogged]
    have hthen := branchLogged_spells .block (contentLogged_spells thenBranch)
    have hhead : Spells _ (headLogged cx "if" condition) := headLogged_spells "if" condition
    have hall := hhead.andThen (hthen.andThen (elseLogged_spells elseBranch))
    simp only [bind_assoc, pure_bind] at hall
    exact hall
  | .loop span condition body => by
    rw [contentLogged]
    exact (headLogged_spells "while" condition).andThen
      (branchLogged_spells .loop (contentLogged_spells body))
  | .brk span => by
    rw [contentLogged]
    exact .after (silent_append _ _) fun _ => spells_nothing
  | .cont span => by
    rw [contentLogged]
    exact .after (silent_append _ _) fun _ => spells_nothing
  | .block span body => by
    rw [contentLogged]
    exact (stmtsLogged_spells body).braced span .block
  | .staged span before body => by
    rw [contentLogged]
    exact (stmtsLogged_spells before).inPrelude.andThen (contentLogged_spells body)

theorem elseLogged_spells : ∀ branch : Option Stmt,
    Spells (Stmt.valuesElse cx.model branch) (elseLogged cx branch)
  | none => by
    rw [elseLogged]
    exact spells_nothing
  | some branch => by
    rw [elseLogged]
    exact .after (silent_append _ _) fun _ =>
      branchLogged_spells .block (contentLogged_spells branch)

theorem stmtsLogged_spells : ∀ body : List Stmt,
    Spells (Stmt.valuesAll cx.model body) (stmtsLogged cx body)
  | [] => by
    rw [stmtsLogged]
    exact spells_nothing
  | stmt :: rest => by
    rw [stmtsLogged]
    exact (contentLogged_spells stmt).asStatement.andThen (stmtsLogged_spells rest)

end

end Scoping

end Emit

end NativeLowering
