import NativeLowering.Proofs.Pass.Transport
import NativeLowering.Proofs.Scoping.Reference

/-!
# What the synthesis of destructor calls sees

The pass meets the declarators of a body and decides for each whether its variable is to be
destroyed. Here it runs with a log of the declarators it meets and of the local bindings it keeps
(`Cleanup.runLogged`); without the log it is the pass (`runLogged_erases`). What follows the first
exit of a list is not looked at, so the log has some of the declarators of the body, with the
variables in scope at each (`runLogged_reaches`).

The body that comes out has the same scopes, and the expressions of the body with destructor calls
put in between (`run_inserts`).
-/

set_option autoImplicit false

namespace NativeLowering
namespace Cleanup

open Stmt (AllList)

/-- The declarators that the pass has met. -/
abbrev Log := List (Visited VariableDecl)

/-! ## The pass with a log -/

section Logged

variable (model : Model) (policy : DestructorPolicy)

def declareLogged : Scope → List VariableDecl → Scope × Log
  | scope, [] => (scope, [])
  | scope, decl :: rest =>
    let (after, log) := declareLogged (scope.declare model policy decl) rest
    (after, ⟨scope.locals, decl⟩ :: log)

/-- A branch or loop body: a block as it is, a single statement as a block. -/
def branchLogged (scope : Scope) (kind : FrameKind) (stmt : Stmt)
    (asBlock asSingle : (Stmt × Scope) × Log) : Stmt × Log :=
  if stmt.isBlock then (asBlock.1.1, asBlock.2)
  else (loneBlock (scope.enter kind) stmt asSingle.1, asSingle.2)

mutual

/-- Adds calls inside a statement and logs the declarators met. -/
def statementLogged : Scope → FrameKind → Stmt → (Stmt × Scope) × Log
  | scope, _, .vars span kind decls =>
    let (after, log) := declareLogged model policy scope decls
    ((.vars span kind decls, after), log)
  | scope, _, .ifElse span condition thenBranch elseBranch =>
    let (first, log) := branchLogged scope .block thenBranch
      (statementLogged scope .block thenBranch)
      (statementLogged (scope.enter .block) .block thenBranch)
    let (second, more) := elseLogged scope elseBranch
    ((.ifElse span condition first second, scope), log ++ more)
  | scope, _, .loop span condition body =>
    let (inner, log) := branchLogged scope .loop body (statementLogged scope .loop body)
      (statementLogged (scope.enter .loop) .block body)
    ((.loop span condition inner, scope), log)
  | scope, kind, .block span body =>
    let (inner, log) := statementsLogged (scope.enter kind) {} body
    ((.block span inner, scope), log)
  | scope, _, .staged span before body =>
    let ((first, between), log) := stagedLogged scope before
    let ((second, after), more) := statementLogged between .block body
    ((.staged span first second, after), log ++ more)
  | scope, _, .expr span value => ((.expr span value, scope), [])
  | scope, _, .ret span value => ((.ret span value, scope), [])
  | scope, _, .brk span => ((.brk span, scope), [])
  | scope, _, .cont span => ((.cont span, scope), [])

def elseLogged (scope : Scope) : Option Stmt → Option Stmt × Log
  | none => (none, [])
  | some branch =>
    let (inner, log) := branchLogged scope .block branch (statementLogged scope .block branch)
      (statementLogged (scope.enter .block) .block branch)
    (some inner, log)

def statementsLogged : Scope → Span → List Stmt → List Stmt × Log
  | scope, span, [] => (scope.endCalls span, [])
  | scope, _, stmt :: rest =>
    match exitOf? stmt with
    | some exit => (scope.exitCalls exit stmt.span ++ stmt :: rest, [])
    | none =>
      let ((processed, after), log) := statementLogged scope .block stmt
      let (others, more) := statementsLogged after stmt.span rest
      (processed :: others, log ++ more)

def stagedLogged : Scope → List Stmt → (List Stmt × Scope) × Log
  | scope, [] => (([], scope), [])
  | scope, stmt :: rest =>
    let ((processed, between), log) := statementLogged scope .block stmt
    let ((others, after), more) := stagedLogged between rest
    ((processed :: others, after), log ++ more)

end

/-- Adds destructor calls to a function body and logs the declarators met. -/
def runLogged (locals : Locals) (body : List Stmt) : List Stmt × Log :=
  statementsLogged model policy (.start locals) {} body

end Logged

/-! ### Without the log -/

section Erasing

variable {model : Model} {policy : DestructorPolicy}

theorem declareLogged_erases : ∀ (scope : Scope) (decls : List VariableDecl),
    (declareLogged model policy scope decls).1 = decls.foldl (Scope.declare model policy) scope
  | _, [] => rfl
  | scope, decl :: rest => declareLogged_erases (scope.declare model policy decl) rest

theorem branchLogged_erases (scope : Scope) (kind : FrameKind) (stmt : Stmt)
    (asBlock asSingle : (Stmt × Scope) × Log) :
    (branchLogged scope kind stmt asBlock asSingle).1
      = if stmt.isBlock then asBlock.1.1 else loneBlock (scope.enter kind) stmt asSingle.1 := by
  unfold branchLogged
  split <;> rfl

mutual

theorem statementLogged_erases : ∀ (scope : Scope) (kind : FrameKind) (stmt : Stmt),
    (statementLogged model policy scope kind stmt).1 = statement model policy scope kind stmt
  | scope, _, .vars span kind decls => by
    rw [statementLogged, statement, ← declareLogged_erases]
  | scope, _, .ifElse span condition thenBranch elseBranch => by
    rw [statementLogged, statement, ← elseLogged_erases, ← statementLogged_erases scope .block,
      ← statementLogged_erases (scope.enter .block) .block, ← branchLogged_erases]
  | scope, _, .loop span condition body => by
    rw [statementLogged, statement, ← statementLogged_erases scope .loop,
      ← statementLogged_erases (scope.enter .loop) .block, ← branchLogged_erases]
  | scope, kind, .block span body => by
    rw [statementLogged, statement, ← statementsLogged_erases]
  | scope, _, .staged span before body => by
    rw [statementLogged, statement, ← stagedLogged_erases]
    exact congrArg (fun processed : Stmt × Scope => (Stmt.staged span _ processed.1, processed.2))
      (statementLogged_erases _ .block body)
  | scope, _, .expr .. | scope, _, .ret .. | scope, _, .brk _ | scope, _, .cont _ => by
    rw [statementLogged, statement]

theorem elseLogged_erases : ∀ (scope : Scope) (branch : Option Stmt),
    (elseLogged model policy scope branch).1 = elseStatement model policy scope branch
  | scope, none => by rw [elseLogged, elseStatement]
  | scope, some branch => by
    rw [elseLogged, elseStatement, ← statementLogged_erases scope .block,
      ← statementLogged_erases (scope.enter .block) .block, ← branchLogged_erases]

theorem statementsLogged_erases : ∀ (scope : Scope) (span : Span) (body : List Stmt),
    (statementsLogged model policy scope span body).1 = statements model policy scope span body
  | scope, span, [] => by rw [statementsLogged, statements]
  | scope, span, stmt :: rest => by
    rw [statementsLogged, statements]
    cases exitOf? stmt with
    | some exit => rfl
    | none =>
      dsimp only
      rw [← statementLogged_erases, ← statementsLogged_erases]

theorem stagedLogged_erases : ∀ (scope : Scope) (body : List Stmt),
    (stagedLogged model policy scope body).1 = staged model policy scope body
  | scope, [] => by rw [stagedLogged, staged]
  | scope, stmt :: rest => by
    rw [stagedLogged, staged, ← statementLogged_erases]
    exact congrArg (fun others : List Stmt × Scope => (_ :: others.1, others.2))
      (stagedLogged_erases _ rest)

end

/-- Without its log the pass is the pass. -/
theorem runLogged_erases (locals : Locals) (body : List Stmt) :
    (runLogged model policy locals body).1 = run model policy locals body :=
  statementsLogged_erases (.start locals) {} body

end Erasing

/-! ## What the log says -/

/-- The pass on its way through a part of a body: the declarators that it meets are some of those
there, and it sees what is in scope at each. -/
structure Reaches (reading : Reading (Occurrence VariableDecl)) (locals : Locals) (log : Log)
    (after : Locals) : Prop where
  stays : after.Open
  met : (log.map Visited.occurrence).Sublist (reading.found locals.visible)
  visible : after.visible = reading.after locals.visible

namespace Reaches

variable {reading first second : Reading (Occurrence VariableDecl)} {locals between after : Locals}
  {log more : Log}

theorem of_sees (h : Sees reading locals log after) : Reaches reading locals log after :=
  ⟨h.stays, h.occurrences ▸ List.Sublist.refl _, h.visible⟩

theorem andThen (h : Reaches first locals log between) (h' : Reaches second between more after) :
    Reaches (first.andThen second) locals (log ++ more) after where
  stays := h'.stays
  met := by
    rw [List.map_append, Reading.andThen]
    exact h.met.append (h.visible ▸ h'.met)
  visible := by rw [h'.visible, h.visible, Reading.andThen]

/-- Within a frame of its own only what is met matters. -/
theorem inside (hopen : locals.Open)
    (h : (log.map Visited.occurrence).Sublist (reading.found locals.visible)) :
    Reaches reading.inside locals log locals := ⟨hopen, h, rfl⟩

end Reaches

section Reaching

variable {model : Model} {policy : DestructorPolicy}

theorem Scope.declare_locals (scope : Scope) (decl : VariableDecl) :
    (scope.declare model policy decl).locals = declareLocal model scope.locals decl := by
  unfold Scope.declare declareLocal
  cases decl.name.ident? <;> rfl

theorem declareLogged_sees : ∀ (scope : Scope) (decls : List VariableDecl), scope.locals.Open →
    (∀ decl ∈ decls, decl.type.isSome = true) →
    Sees (VariableDecl.declaratorsAll model decls) scope.locals
      (declareLogged model policy scope decls).2 (declareLogged model policy scope decls).1.locals
  | _, [], hopen, _ => .nothing hopen
  | scope, decl :: rest, hopen, htypes => by
    obtain ⟨htype, htypes⟩ := List.forall_mem_cons.mp htypes
    have hinit : Sees (readOption (fun _ _ => []) decl.init) scope.locals ([] : Log) scope.locals := by
      cases decl.init <;> exact .nothing hopen
    have hdeclare : Sees (.binding (decl.bind model) : Reading (Occurrence VariableDecl)) scope.locals
        [] (scope.declare model policy decl).locals := by
      rw [Scope.declare_locals]
      exact .declare hopen htype
    have hrest := declareLogged_sees (scope.declare model policy decl) rest hdeclare.stays htypes
    exact ((Sees.leaf hopen decl).andThen (hinit.andThen hdeclare)).andThen hrest

theorem branchLogged_reaches {scope : Scope} {kind : FrameKind} {stmt : Stmt}
    {asBlock asSingle : (Stmt × Scope) × Log} (hopen : scope.locals.Open)
    (hblock : Reaches (stmt.declarators model) scope.locals asBlock.2 asBlock.1.2.locals)
    (hsingle : Reaches (stmt.declarators model) (scope.enter kind).locals asSingle.2
      asSingle.1.2.locals) :
    Reaches (stmt.declarators model).inside scope.locals
      (branchLogged scope kind stmt asBlock asSingle).2 scope.locals := by
  unfold branchLogged
  split
  · exact .inside hopen hblock.met
  · exact .inside hopen hsingle.met

mutual

theorem statementLogged_reaches : ∀ (scope : Scope) (kind : FrameKind) (stmt : Stmt),
    scope.locals.Open → stmt.Annotated →
    Reaches (stmt.declarators model) scope.locals (statementLogged model policy scope kind stmt).2
      (statementLogged model policy scope kind stmt).1.2.locals
  | scope, _, .vars span kind decls, hopen, hall => by
    rw [statementLogged]
    exact .of_sees (declareLogged_sees scope decls hopen fun decl hdecl => (hall decl hdecl).1)
  | scope, _, .ifElse span condition thenBranch elseBranch, hopen, hall => by
    obtain ⟨-, hthen, helse⟩ := hall
    rw [statementLogged]
    have hfirst := branchLogged_reaches hopen
      (statementLogged_reaches scope .block thenBranch hopen hthen)
      (statementLogged_reaches (scope.enter .block) .block thenBranch (.push _ _) hthen)
    exact hfirst.andThen (elseLogged_reaches scope elseBranch hopen helse)
  | scope, _, .loop span condition body, hopen, hall => by
    rw [statementLogged]
    exact branchLogged_reaches hopen
      (statementLogged_reaches scope .loop body hopen hall.2)
      (statementLogged_reaches (scope.enter .loop) .block body (.push _ _) hall.2)
  | scope, kind, .block span body, hopen, hall => by
    rw [statementLogged]
    exact .inside hopen (statementsLogged_reaches (scope.enter kind) {} body (.push _ _) hall)
  | scope, _, .staged span before body, hopen, hall => by
    rw [statementLogged]
    have hbefore := stagedLogged_reaches scope before hopen hall.1
    exact hbefore.andThen (statementLogged_reaches _ .block body hbefore.stays hall.2)
  | scope, _, .expr .., hopen, _ | scope, _, .ret _ none, hopen, _
  | scope, _, .ret _ (some _), hopen, _ | scope, _, .brk _, hopen, _
  | scope, _, .cont _, hopen, _ => by
    rw [statementLogged]
    exact .of_sees (.nothing hopen)

theorem elseLogged_reaches : ∀ (scope : Scope) (branch : Option Stmt), scope.locals.Open →
    Stmt.AllOption (fun _ => True) (fun _ type => type.isSome) branch →
    Reaches (Stmt.declaratorsElse model branch) scope.locals
      (elseLogged model policy scope branch).2 scope.locals
  | scope, none, hopen, _ => by
    rw [elseLogged]
    exact .of_sees (.nothing hopen)
  | scope, some branch, hopen, hall => by
    rw [elseLogged]
    exact branchLogged_reaches hopen
      (statementLogged_reaches scope .block branch hopen hall)
      (statementLogged_reaches (scope.enter .block) .block branch (.push _ _) hall)

theorem statementsLogged_reaches : ∀ (scope : Scope) (span : Span) (body : List Stmt),
    scope.locals.Open → AllList (fun _ => True) (fun _ type => type.isSome) body →
    ((statementsLogged model policy scope span body).2.map Visited.occurrence).Sublist
      ((Stmt.declaratorsAll model body).found scope.locals.visible)
  | scope, span, [], _, _ => by
    rw [statementsLogged]
    exact .slnil
  | scope, span, stmt :: rest, hopen, hall => by
    rw [statementsLogged]
    cases exitOf? stmt with
    | some exit => exact List.nil_sublist _
    | none =>
      have hfirst := statementLogged_reaches scope .block stmt hopen hall.1
      have hrest := statementsLogged_reaches _ stmt.span rest hfirst.stays hall.2
      rw [hfirst.visible] at hrest
      dsimp only
      rw [List.map_append]
      exact hfirst.met.append hrest

theorem stagedLogged_reaches : ∀ (scope : Scope) (body : List Stmt), scope.locals.Open →
    AllList (fun _ => True) (fun _ type => type.isSome) body →
    Reaches (Stmt.declaratorsAll model body) scope.locals (stagedLogged model policy scope body).2
      (stagedLogged model policy scope body).1.2.locals
  | scope, [], hopen, _ => by
    rw [stagedLogged]
    exact .of_sees (.nothing hopen)
  | scope, stmt :: rest, hopen, hall => by
    rw [stagedLogged]
    have hfirst := statementLogged_reaches scope .block stmt hopen hall.1
    exact hfirst.andThen (stagedLogged_reaches _ rest hfirst.stays hall.2)

end

/-- The pass meets some of the declarators of a body, and sees at each what is in scope there. -/
theorem runLogged_reaches {locals : Locals} (hopen : locals.Open) {body : List Stmt}
    (hall : AllList (fun _ => True) (fun _ type => type.isSome) body) :
    ((runLogged model policy locals body).2.map Visited.occurrence).Sublist
      ((Stmt.declaratorsAll model body).found locals.visible) :=
  statementsLogged_reaches (.start locals) {} body hopen hall

end Reaching

/-! ## What comes out -/

/-- A destructor call. -/
def IsCall (there : Occurrence Expr) : Prop :=
  ∃ span name, destructorCall span name = .expr span there.node

/-- The same scopes, and the same expressions with destructor calls put in between. -/
structure Inserts (reading result : Reading (Occurrence Expr)) : Prop where
  found : ∀ visible, Inserted IsCall (reading.found visible) (result.found visible)
  after : ∀ visible, result.after visible = reading.after visible

namespace Inserts

variable {reading result reading' result' calls : Reading (Occurrence Expr)}

theorem refl (reading : Reading (Occurrence Expr)) : Inserts reading reading :=
  ⟨fun _ => .refl _, fun _ => rfl⟩

theorem andThen (h : Inserts reading result) (h' : Inserts reading' result') :
    Inserts (reading.andThen reading') (result.andThen result') where
  found visible := (h.found visible).append (h.after visible ▸ h'.found (reading.after visible))
  after visible := by
    show result'.after (result.after visible) = reading'.after (reading.after visible)
    rw [h.after, h'.after]

theorem inside (h : Inserts reading result) : Inserts reading.inside result.inside :=
  ⟨h.found, fun _ => rfl⟩

end Inserts

section Inserting

variable {model : Model} {policy : DestructorPolicy}

theorem calls_insert (span : Span) (names : List String) :
    Inserts .nothing (Stmt.valuesAll model (names.map (destructorCall span))) := by
  induction names with
  | nil => exact .refl _
  | cons name rest ih =>
    have hcall : Inserts .nothing ((destructorCall span name).values model) :=
      ⟨fun _ => .insert ⟨span, name, rfl⟩ .nil, fun _ => rfl⟩
    exact hcall.andThen ih

theorem exitCalls_insert (scope : Scope) (exit : Exit) (span : Span) :
    Inserts .nothing (Stmt.valuesAll model (scope.exitCalls exit span)) := by
  rw [Scope.exitCalls, exitCalls_eq]
  exact calls_insert span _

theorem endCalls_insert (scope : Scope) (span : Span) :
    Inserts .nothing (Stmt.valuesAll model (scope.endCalls span)) := by
  unfold Scope.endCalls
  split
  · exact .refl _
  · exact calls_insert span _

theorem calls_before {calls : List Stmt} (h : Inserts .nothing (Stmt.valuesAll model calls))
    (body : List Stmt) : Inserts (Stmt.valuesAll model body) (Stmt.valuesAll model (calls ++ body)) := by
  rw [Stmt.valuesAll_append]
  exact h.andThen (.refl _)

theorem loneBlock_inserts {scope : Scope} {stmt : Stmt} {processed : Stmt × Scope}
    (h : Inserts (stmt.values model) (processed.1.values model)) :
    Inserts (stmt.values model).inside ((loneBlock scope stmt processed).values model).inside := by
  unfold loneBlock
  cases exitOf? stmt with
  | some exit =>
    have hlone : Stmt.valuesAll model [stmt] = stmt.values model := Reading.andThen_nothing _
    rw [← hlone]
    exact (calls_before (exitCalls_insert scope exit stmt.span) [stmt]).inside
  | none =>
    have hcalls : Inserts ((stmt.values model).andThen .nothing)
        (Stmt.valuesAll model (processed.1 :: processed.2.endCalls stmt.span)) :=
      h.andThen (endCalls_insert processed.2 stmt.span)
    rw [Reading.andThen_nothing] at hcalls
    exact hcalls.inside

theorem branch_inserts (scope : Scope) (kind : FrameKind) {stmt : Stmt}
    {asBlock asSingle : Stmt × Scope} (hblock : Inserts (stmt.values model) (asBlock.1.values model))
    (hsingle : Inserts (stmt.values model) (asSingle.1.values model)) :
    Inserts (stmt.values model).inside ((if stmt.isBlock then asBlock.1
      else loneBlock (scope.enter kind) stmt asSingle).values model).inside := by
  split
  · exact hblock.inside
  · exact loneBlock_inserts hsingle

mutual

theorem statement_inserts : ∀ (scope : Scope) (kind : FrameKind) (stmt : Stmt),
    Inserts (stmt.values model) ((statement model policy scope kind stmt).1.values model)
  | scope, _, .vars .. | scope, _, .expr .. | scope, _, .ret .. | scope, _, .brk _
  | scope, _, .cont _ => by
    rw [statement]
    exact .refl _
  | scope, _, .ifElse span condition thenBranch elseBranch => by
    rw [statement]
    have hfirst := branch_inserts scope .block (statement_inserts scope .block thenBranch)
      (statement_inserts (scope.enter .block) .block thenBranch)
    exact (Inserts.refl _).andThen (hfirst.andThen (elseStatement_inserts scope elseBranch))
  | scope, _, .loop span condition body => by
    rw [statement]
    have hbody := branch_inserts scope .loop (statement_inserts scope .loop body)
      (statement_inserts (scope.enter .loop) .block body)
    exact (Inserts.refl _).andThen hbody
  | scope, kind, .block span body => by
    rw [statement]
    exact (statements_inserts (scope.enter kind) {} body).inside
  | scope, _, .staged span before body => by
    rw [statement]
    exact (staged_inserts scope before).andThen (statement_inserts _ .block body)

theorem elseStatement_inserts : ∀ (scope : Scope) (branch : Option Stmt),
    Inserts (Stmt.valuesElse model branch)
      (Stmt.valuesElse model (elseStatement model policy scope branch))
  | scope, none => by
    rw [elseStatement]
    exact .refl _
  | scope, some branch => by
    rw [elseStatement]
    exact branch_inserts scope .block (statement_inserts scope .block branch)
      (statement_inserts (scope.enter .block) .block branch)

theorem statements_inserts : ∀ (scope : Scope) (span : Span) (body : List Stmt),
    Inserts (Stmt.valuesAll model body) (Stmt.valuesAll model (statements model policy scope span body))
  | scope, span, [] => by
    rw [statements]
    exact endCalls_insert scope span
  | scope, span, stmt :: rest => by
    rw [statements]
    cases exitOf? stmt with
    | some exit => exact calls_before (exitCalls_insert scope exit stmt.span) (stmt :: rest)
    | none =>
      exact (statement_inserts scope .block stmt).andThen (statements_inserts _ stmt.span rest)

theorem staged_inserts : ∀ (scope : Scope) (body : List Stmt),
    Inserts (Stmt.valuesAll model body) (Stmt.valuesAll model (staged model policy scope body).1)
  | scope, [] => by
    rw [staged]
    exact .refl _
  | scope, stmt :: rest => by
    rw [staged]
    exact (statement_inserts scope .block stmt).andThen (staged_inserts _ rest)

end

/-- The body that comes out has the expressions of the body and destructor calls, in the same
scopes. -/
theorem run_inserts (locals : Locals) (body : List Stmt) :
    Inserts (Stmt.valuesAll model body) (Stmt.valuesAll model (run model policy locals body)) :=
  statements_inserts (.start locals) {} body

end Inserting

end Cleanup

end NativeLowering
