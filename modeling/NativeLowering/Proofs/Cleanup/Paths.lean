import NativeLowering.Proofs.Cleanup.Marked
import NativeLowering.Proofs.Syntax.Induction
import NativeLowering.Proofs.Model.Tables

/-!
# Destruction is well bracketed on every path

A variable with a destructor is constructed where it is declared and destroyed where the pass
has put a call for it. Read along a path through the body, declarations and added calls have to
match like brackets: a call destroys what was constructed last and is still there, nothing is
left at the end, and a round of a loop leaves the variables as it found them.

Paths are given by the relation `Path`. A conditional takes either branch and a loop any number
of rounds, whatever the conditions are, and a path may be cut anywhere, so that paths which never
end are covered by what holds along every stretch of them. A path keeps a stack of names: a
declaration of a variable that the policy destroys pushes its name, an added call pops whatever
is on top. What the calls meet and what the rounds leave is written down along the way
(`Observation`); nothing in the relation makes it come out well. There are no paths through staged
statements, which only later passes produce.

The pass decides from a stack of tracked frames, and the invariant is that this stack, flattened,
is the stack of the path. The exits are where the two could part: a call list covers the frames
an exit leaves (`exitTargets`) and `beyond` is what remains of them.
-/

set_option autoImplicit false

namespace NativeLowering
namespace Cleanup

open Marked (ofStmt ofStmts)

/-! ## Paths -/

/-- How a stretch of a path ends. -/
inductive Ending where
  /-- It comes to the end of the code. -/
  | done
  | brk
  | cont
  | ret
  /-- It is not followed any further. -/
  | cut
  deriving DecidableEq

/-- What a path carries: the bindings in scope, and the variables that are constructed and not
yet destroyed, latest first. -/
structure PathState where
  locals : Locals
  stack : List String

/-- What can be seen along a path. -/
inductive Observation where
  /-- An added call for a variable, with the stack it finds. -/
  | destroyed (name : String) (stack : List String)
  /-- A round of a loop, with the stack before and after it. -/
  | round (before after : List String)

/-- What ought to be seen: a call meets its variable on top, a round leaves the stack alone. -/
def Observation.Sound : Observation → Prop
  | .destroyed name stack => stack.head? = some name
  | .round before after => after = before

/-- Everything seen is as it ought to be. -/
def SoundLog (log : List Observation) : Prop := ∀ seen ∈ log, seen.Sound

namespace PathState

/-- The state inside a frame. -/
def enter (state : PathState) (kind : FrameKind) : PathState :=
  { state with locals := state.locals.push kind }

/-- The state after a frame has been left: the bindings are those from before. -/
def leave (state inner : PathState) : PathState := { inner with locals := state.locals }

/-- The state after a variable is declared. -/
def declare (model : Model) (policy : DestructorPolicy) (state : PathState)
    (decl : VariableDecl) : PathState :=
  match decl.name.ident? with
  | none => state
  | some name =>
    let type := model.declaredType state.locals decl
    { locals := state.locals.declare name type
      stack := if isDestructible model policy type then name :: state.stack else state.stack }

end PathState

/-- What a stretch of a path goes through. -/
inductive Code where
  | stmt (stmt : Marked)
  | list (stmts : List Marked)
  /-- A loop with the given body, before a round or the end of it. -/
  | rounds (body : List Marked)

/-- A path through code: from a state to how it ends and the state there, with what is seen. -/
inductive Path (model : Model) (policy : DestructorPolicy) :
    Code → PathState → Ending → PathState → List Observation → Prop
  | added {span : Span} {target : Target} {state : PathState} :
      Path model policy (.stmt (.added span target)) state .done
        { state with stack := state.stack.tail } [.destroyed target.name state.stack]
  | vars {span : Span} {kind : VariableKind} {decls : List VariableDecl} {state : PathState} :
      Path model policy (.stmt (.vars span kind decls)) state .done
        (decls.foldl (PathState.declare model policy) state) []
  | expr {span : Span} {value : Expr} {state : PathState} :
      Path model policy (.stmt (.expr span value)) state .done state []
  | ret {span : Span} {value : Option Expr} {state : PathState} :
      Path model policy (.stmt (.ret span value)) state .ret state []
  | brk {span : Span} {state : PathState} :
      Path model policy (.stmt (.brk span)) state .brk state []
  | cont {span : Span} {state : PathState} :
      Path model policy (.stmt (.cont span)) state .cont state []
  | thenBranch {span : Span} {condition : Expr} {branch : Marked} {other : Option Marked}
      {state inner : PathState} {ending : Ending} {log : List Observation} :
      Path model policy (.list branch.branchBody) (state.enter .block) ending inner log →
      Path model policy (.stmt (.ifElse span condition branch other)) state ending
        (state.leave inner) log
  | elseBranch {span : Span} {condition : Expr} {other branch : Marked}
      {state inner : PathState} {ending : Ending} {log : List Observation} :
      Path model policy (.list branch.branchBody) (state.enter .block) ending inner log →
      Path model policy (.stmt (.ifElse span condition other (some branch))) state ending
        (state.leave inner) log
  | noBranch {span : Span} {condition : Expr} {other : Marked} {state : PathState} :
      Path model policy (.stmt (.ifElse span condition other none)) state .done state []
  | loop {span : Span} {condition : Expr} {body : Marked} {state after : PathState}
      {ending : Ending} {log : List Observation} :
      Path model policy (.rounds body.branchBody) state ending after log →
      Path model policy (.stmt (.loop span condition body)) state ending after log
  | block {span : Span} {body : List Marked} {state inner : PathState} {ending : Ending}
      {log : List Observation} :
      Path model policy (.list body) (state.enter .block) ending inner log →
      Path model policy (.stmt (.block span body)) state ending (state.leave inner) log
  | nil {state : PathState} : Path model policy (.list []) state .done state []
  | cut {stmts : List Marked} {state : PathState} :
      Path model policy (.list stmts) state .cut state []
  | cons {stmt : Marked} {rest : List Marked} {state middle after : PathState} {ending : Ending}
      {log more : List Observation} :
      Path model policy (.stmt stmt) state .done middle log →
      Path model policy (.list rest) middle ending after more →
      Path model policy (.list (stmt :: rest)) state ending after (log ++ more)
  | stop {stmt : Marked} {rest : List Marked} {state after : PathState} {ending : Ending}
      {log : List Observation} :
      Path model policy (.stmt stmt) state ending after log → ending ≠ .done →
      Path model policy (.list (stmt :: rest)) state ending after log
  | leave {body : List Marked} {state : PathState} :
      Path model policy (.rounds body) state .done state []
  | again {body : List Marked} {state inner after : PathState} {round ending : Ending}
      {log more : List Observation} :
      Path model policy (.list body) (state.enter .loop) round inner log →
      round = .done ∨ round = .cont →
      Path model policy (.rounds body) (state.leave inner) ending after more →
      Path model policy (.rounds body) state ending after
        (log ++ .round state.stack inner.stack :: more)
  | broken {body : List Marked} {state inner : PathState} {log : List Observation} :
      Path model policy (.list body) (state.enter .loop) .brk inner log →
      Path model policy (.rounds body) state .done (state.leave inner)
        (log ++ [.round state.stack inner.stack])
  | through {body : List Marked} {state inner : PathState} {ending : Ending}
      {log : List Observation} :
      Path model policy (.list body) (state.enter .loop) ending inner log →
      ending = .ret ∨ ending = .cut →
      Path model policy (.rounds body) state ending (state.leave inner) log

@[simp] theorem soundLog_nil : SoundLog [] := by simp [SoundLog]

@[simp] theorem soundLog_cons {seen : Observation} {log : List Observation} :
    SoundLog (seen :: log) ↔ seen.Sound ∧ SoundLog log := by simp [SoundLog]

@[simp] theorem soundLog_append {log more : List Observation} :
    SoundLog (log ++ more) ↔ SoundLog log ∧ SoundLog more := by
  simp only [SoundLog, List.mem_append]
  constructor
  · intro h
    exact ⟨fun seen hm => h seen (Or.inl hm), fun seen hm => h seen (Or.inr hm)⟩
  · rintro ⟨hl, hr⟩ seen (hm | hm)
    · exact hl seen hm
    · exact hr seen hm

/-! ## The tracked frames as a stack -/

/-- The tracked names of frames, the one to destroy first in front. -/
def names (frames : List MarkedFrame) : List String :=
  frames.flatMap fun frame => frame.targets.map Target.name

/-- The frames that an exit does not leave. -/
def beyond (exit : Exit) : List MarkedFrame → List MarkedFrame
  | [] => []
  | frame :: outer =>
    if exit = .loop ∧ frame.kind = .loop then outer else beyond exit outer

/-- An exit's calls and what remains beyond it are the whole stack. -/
theorem names_exitTargets (exit : Exit) (frames : List MarkedFrame) :
    (exitTargets exit frames).map Target.name ++ names (beyond exit frames) = names frames := by
  induction frames with
  | nil => rfl
  | cons frame outer ih =>
    by_cases hl : exit = .loop ∧ frame.kind = .loop
    · simp [exitTargets, beyond, names, hl]
    · simp only [exitTargets, beyond, hl, if_false, List.map_append, List.append_assoc, ih]
      simp [names]

/-- A return leaves every frame. -/
theorem beyond_function (frames : List MarkedFrame) : beyond .function frames = [] := by
  induction frames with
  | nil => rfl
  | cons frame outer ih => simp [beyond, ih]

/-- The state of a path that the scope of the pass describes. -/
def MarkedScope.state (scope : MarkedScope) : PathState :=
  { locals := scope.locals, stack := names scope.frames }

theorem MarkedScope.state_enter (scope : MarkedScope) (kind : FrameKind) :
    (scope.enter kind).state = scope.state.enter kind := rfl

theorem MarkedScope.state_declare (model : Model) (policy : DestructorPolicy)
    (scope : MarkedScope) (decl : VariableDecl) :
    (scope.declare model policy decl).state = scope.state.declare model policy decl := by
  unfold MarkedScope.declare PathState.declare
  cases decl.name.ident? with
  | none => rfl
  | some name =>
    by_cases hd : isDestructible model policy (model.declaredType scope.locals decl) = true
    · simp [hd, MarkedScope.state, MarkedScope.frames, names]
    · simp [hd, MarkedScope.state, MarkedScope.frames]

/-- Declarations add to the innermost frame and leave its kind and the frames around alone. -/
structure SameFrames (before after : MarkedScope) : Prop where
  kind : after.frame.kind = before.frame.kind
  outer : after.outer = before.outer

theorem SameFrames.refl (scope : MarkedScope) : SameFrames scope scope := ⟨rfl, rfl⟩

theorem SameFrames.beyond_eq {before after : MarkedScope} (h : SameFrames before after)
    (exit : Exit) : beyond exit after.frames = beyond exit before.frames := by
  simp only [MarkedScope.frames, beyond, h.kind, h.outer]

theorem sameFrames_declare (model : Model) (policy : DestructorPolicy) (scope : MarkedScope)
    (decl : VariableDecl) : SameFrames scope (scope.declare model policy decl) := by
  unfold MarkedScope.declare
  cases decl.name.ident? with
  | none => exact .refl scope
  | some name =>
    by_cases hd : isDestructible model policy (model.declaredType scope.locals decl) = true
    · simp only [hd, if_true]
      exact ⟨rfl, rfl⟩
    · simp only [hd]
      exact ⟨rfl, rfl⟩

theorem declare_all (model : Model) (policy : DestructorPolicy) :
    ∀ (decls : List VariableDecl) (scope : MarkedScope),
      SameFrames scope (decls.foldl (MarkedScope.declare model policy) scope) ∧
        (decls.foldl (MarkedScope.declare model policy) scope).state
          = decls.foldl (PathState.declare model policy) scope.state
  | [], scope => ⟨.refl scope, rfl⟩
  | decl :: rest, scope => by
    obtain ⟨hsame, hstate⟩ := declare_all model policy rest (scope.declare model policy decl)
    have hone := sameFrames_declare model policy scope decl
    refine ⟨⟨hsame.kind.trans hone.kind, hsame.outer.trans hone.outer⟩, ?_⟩
    rw [List.foldl_cons, hstate, MarkedScope.state_declare, List.foldl_cons]

/-! ## The invariant along a path

`Exited` says what an exit leaves on the stack. A list that comes to its end has in addition
destroyed its own frame (`ListEnd`), and a statement that comes to its end is in the scope that
the pass goes on with. -/

section Bracketing

variable {model : Model} {policy : DestructorPolicy}

/-- What is on the stack when an exit has been taken in some frames. -/
def Exited (frames : List MarkedFrame) (stack : List String) : Ending → Prop
  | .brk | .cont => stack = names (beyond .loop frames)
  | .ret => stack = []
  | .done | .cut => True

/-- What is on the stack when a path has gone through the statements of a scope. -/
def ListEnd (scope : MarkedScope) (stack : List String) (ending : Ending) : Prop :=
  (ending = .done → stack = names scope.outer) ∧ Exited scope.frames stack ending

theorem Exited.sameFrames {before after : MarkedScope} {stack : List String} {ending : Ending}
    (h : SameFrames before after) (he : Exited after.frames stack ending) :
    Exited before.frames stack ending := by
  cases ending with
  | brk => exact Eq.trans he (congrArg names (h.beyond_eq .loop))
  | cont => exact Eq.trans he (congrArg names (h.beyond_eq .loop))
  | ret => exact he
  | done => trivial
  | cut => trivial

/-- An exit out of a block that is no loop body leaves what it leaves of the frames around. -/
theorem Exited.of_block {scope : MarkedScope} {stack : List String} {ending : Ending}
    (he : Exited (scope.enter .block).frames stack ending) :
    Exited scope.frames stack ending := by
  cases ending with
  | brk => simpa [Exited, MarkedScope.enter, MarkedScope.frames, beyond] using he
  | cont => simpa [Exited, MarkedScope.enter, MarkedScope.frames, beyond] using he
  | ret => exact he
  | done => trivial
  | cut => trivial

/-- A block that has been left is gone, however it was left. -/
theorem ListEnd.leave_block {scope : MarkedScope} {inner : PathState} {ending : Ending}
    (h : ListEnd (scope.enter .block) inner.stack ending) :
    (ending = .done → scope.state.leave inner = scope.state) ∧
      Exited scope.frames (scope.state.leave inner).stack ending := by
  refine ⟨fun hdone => ?_, h.2.of_block⟩
  rw [PathState.leave, h.1 hdone]
  rfl

/-- A break or continue out of a loop body has destroyed what the round constructed. -/
theorem exited_loop {scope : MarkedScope} {stack : List String}
    (he : stack = names (beyond .loop (scope.enter .loop).frames)) :
    stack = scope.state.stack := by
  simpa [MarkedScope.enter, MarkedScope.frames, MarkedScope.state, beyond] using he

/-- Paths through the statements of a list, in any scope, are well bracketed. -/
def ListBracketed (model : Model) (policy : DestructorPolicy) (stmts : List Stmt) : Prop :=
  ∀ {scope : MarkedScope} {span : Span} {ending : Ending} {after : PathState}
    {log : List Observation},
    Path model policy (.list (markStatements model policy scope span stmts)) scope.state ending
      after log → SoundLog log ∧ ListEnd scope after.stack ending

/-- Paths through a statement that is no exit, in any scope, are well bracketed. -/
def StmtBracketed (model : Model) (policy : DestructorPolicy) (stmt : Stmt) : Prop :=
  ∀ {scope : MarkedScope} {ending : Ending} {after : PathState} {log : List Observation},
    exitOf? stmt = none →
    Path model policy (.stmt (markStatement model policy scope .block stmt).1) scope.state ending
      after log →
    SoundLog log ∧ SameFrames scope (markStatement model policy scope .block stmt).2 ∧
      (ending = .done → after = (markStatement model policy scope .block stmt).2.state) ∧
      Exited scope.frames after.stack ending

/-- A statement's paths are well bracketed, both as a statement and as the branch of another,
where a block may open a frame of another kind. -/
def Bracketed (model : Model) (policy : DestructorPolicy) (stmt : Stmt) : Prop :=
  StmtBracketed model policy stmt ∧ ListBracketed model policy (branchStmts stmt)

/-- A path through added calls meets each of its variables on top, and goes on below them. -/
theorem path_addedCalls {span : Span} {rest : List Marked} :
    ∀ (targets : List Target) {locals : Locals} {stack : List String} {ending : Ending}
      {after : PathState} {log : List Observation},
      Path model policy (.list (addedCalls span targets ++ rest))
        ⟨locals, targets.map Target.name ++ stack⟩ ending after log →
      (ending = .cut ∧ SoundLog log) ∨
        ∃ more, Path model policy (.list rest) ⟨locals, stack⟩ ending after more ∧
          (SoundLog more → SoundLog log)
  | [], _, _, _, _, log, path => Or.inr ⟨log, path, id⟩
  | target :: targets, locals, stack, ending, after, log, path => by
    simp only [addedCalls, List.map_cons, List.cons_append] at path
    cases path with
    | cut => exact Or.inl ⟨rfl, soundLog_nil⟩
    | stop call hne =>
      cases call with
      | added => exact absurd rfl hne
    | cons call more =>
      cases call with
      | added =>
        rcases path_addedCalls targets more with ⟨hcut, hlog⟩ | ⟨later, hpath, hlog⟩
        · exact Or.inl ⟨hcut, by simp [Observation.Sound, hlog]⟩
        · refine Or.inr ⟨later, hpath, fun h => ?_⟩
          simp [Observation.Sound, hlog h]

theorem nil_bracketed : ListBracketed model policy [] := by
  intro scope span ending after log path
  have hpath : Path model policy (.list (addedCalls span scope.frame.targets ++ []))
      ⟨scope.locals, scope.frame.targets.map Target.name ++ names scope.outer⟩ ending after log := by
    simpa [markStatements, MarkedScope.endCalls, MarkedScope.state, MarkedScope.frames, names]
      using path
  rcases path_addedCalls scope.frame.targets hpath with ⟨rfl, hlog⟩ | ⟨more, hnil, hlog⟩
  · exact ⟨hlog, by simp, trivial⟩
  · cases hnil with
    | nil => exact ⟨hlog soundLog_nil, fun _ => rfl, trivial⟩
    | cut => exact ⟨hlog soundLog_nil, by simp, trivial⟩

/-- Once an exit's calls have been made, the exit leaves the stack to what is beyond it. -/
theorem exit_bracketed {stmt : Stmt} {exit : Exit} (hexit : exitOf? stmt = some exit)
    {scope : MarkedScope} {rest : List Marked} {ending : Ending} {after : PathState}
    {log : List Observation}
    (path : Path model policy (.list (scope.exitCalls exit stmt.span ++ ofStmt stmt :: rest))
      scope.state ending after log) : SoundLog log ∧ ListEnd scope after.stack ending := by
  unfold MarkedScope.state at path
  rw [← names_exitTargets exit scope.frames] at path
  rcases path_addedCalls _ path with ⟨rfl, hlog⟩ | ⟨more, hpath, hlog⟩
  · exact ⟨hlog, by simp, trivial⟩
  · cases hpath with
    | cut => exact ⟨hlog soundLog_nil, by simp, trivial⟩
    | cons hdone _ =>
      cases stmt <;> simp only [exitOf?, reduceCtorEq] at hexit <;> cases hdone
    | stop hstop _ =>
      cases stmt with
      | ret =>
        cases hexit
        cases hstop
        refine ⟨hlog soundLog_nil, by simp, ?_⟩
        simp [Exited, beyond_function, names]
      | brk =>
        cases hexit
        cases hstop
        exact ⟨hlog soundLog_nil, by simp, rfl⟩
      | cont =>
        cases hexit
        cases hstop
        exact ⟨hlog soundLog_nil, by simp, rfl⟩
      | staged => cases hstop
      | _ => cases hexit

theorem cons_bracketed {stmt : Stmt} {rest : List Stmt} (hs : StmtBracketed model policy stmt)
    (hr : ListBracketed model policy rest) : ListBracketed model policy (stmt :: rest) := by
  intro scope span ending after log path
  rw [markStatements] at path
  cases hexit : exitOf? stmt with
  | some exit =>
    rw [hexit] at path
    exact exit_bracketed hexit path
  | none =>
    rw [hexit] at path
    cases path with
    | cut => exact ⟨soundLog_nil, by simp, trivial⟩
    | stop hstop hne =>
      obtain ⟨hlog, _, _, hex⟩ := hs hexit hstop
      exact ⟨hlog, fun h => absurd h hne, hex⟩
    | cons hdone hmore =>
      obtain ⟨hlog, hsame, hafter, _⟩ := hs hexit hdone
      rw [hafter rfl] at hmore
      obtain ⟨hlog', hend, hex⟩ := hr hmore
      exact ⟨soundLog_append.mpr ⟨hlog, hlog'⟩, fun h => by rw [hend h, hsame.outer],
        hex.sameFrames hsame⟩

theorem list_bracketed_of_forall {stmts : List Stmt}
    (h : ∀ stmt ∈ stmts, Bracketed model policy stmt) : ListBracketed model policy stmts := by
  induction stmts with
  | nil => exact nil_bracketed
  | cons stmt rest ih =>
    exact cons_bracketed (h stmt (by simp)).1 (ih fun other hm => h other (by simp [hm]))

/-- A branch is well bracketed in the frame it opens. -/
theorem branch_bracketed {stmt : Stmt} (h : Bracketed model policy stmt) {scope : MarkedScope}
    {kind : FrameKind} {ending : Ending} {after : PathState} {log : List Observation}
    (path : Path model policy
      (.list (markBranch scope kind stmt (markStatement model policy scope kind stmt)
        (markStatement model policy (scope.enter kind) .block stmt)).branchBody)
      (scope.state.enter kind) ending after log) :
    SoundLog log ∧ ListEnd (scope.enter kind) after.stack ending := by
  rw [markBranch_eq, ← MarkedScope.state_enter] at path
  exact h.2 path

/-- A loop whose body is well bracketed leaves the stack alone, round by round. -/
theorem rounds_bracketed {body : List Marked} {scope : MarkedScope}
    (once : ∀ {ending : Ending} {after : PathState} {log : List Observation},
      Path model policy (.list body) (scope.state.enter .loop) ending after log →
      SoundLog log ∧ ListEnd (scope.enter .loop) after.stack ending)
    {ending : Ending} {after : PathState} {log : List Observation}
    (path : Path model policy (.rounds body) scope.state ending after log) :
    SoundLog log ∧ (ending = .done → after = scope.state) ∧
      Exited scope.frames after.stack ending := by
  -- The induction is on the rounds; each starts from the state that the scope describes.
  obtain ⟨state, hstate⟩ : ∃ state, state = scope.state := ⟨_, rfl⟩
  rw [← hstate] at path
  generalize hcode : Code.rounds body = code at path
  induction path with
  | leave => exact ⟨soundLog_nil, fun _ => hstate, trivial⟩
  | @again _ _ inner _ round _ _ _ hbody hround _ _ ih =>
    cases hcode
    subst hstate
    obtain ⟨hlog, hend, hex⟩ := once hbody
    have hstack : inner.stack = scope.state.stack := by
      rcases hround with rfl | rfl
      · exact hend rfl
      · exact exited_loop hex
    have hsame : scope.state.leave inner = scope.state := by
      rw [PathState.leave, hstack]
    obtain ⟨hlog', hafter, hex'⟩ := ih hsame rfl
    exact ⟨by simp [hlog, hlog', Observation.Sound, hstack], hafter, hex'⟩
  | @broken _ _ inner _ hbody _ =>
    cases hcode
    subst hstate
    obtain ⟨hlog, _, hex⟩ := once hbody
    have hstack : inner.stack = scope.state.stack := exited_loop hex
    exact ⟨by simp [hlog, Observation.Sound, hstack],
      fun _ => by rw [PathState.leave, hstack], trivial⟩
  | through hbody hending _ =>
    cases hcode
    subst hstate
    obtain ⟨hlog, _, hex⟩ := once hbody
    rcases hending with rfl | rfl
    · exact ⟨hlog, by simp, hex⟩
    · exact ⟨hlog, by simp, trivial⟩
  | _ => cases hcode

/-- A statement that is no block is, as a branch, the list that holds just it. -/
theorem StmtBracketed.bracketed {stmt : Stmt} (hb : branchStmts stmt = [stmt])
    (h : StmtBracketed model policy stmt) : Bracketed model policy stmt := by
  refine ⟨h, ?_⟩
  rw [hb]
  exact cons_bracketed h nil_bracketed

/-- Every statement is well bracketed. -/
theorem stmt_bracketed (stmt : Stmt) : Bracketed model policy stmt := by
  induction stmt using Stmt.ind with
  | vars span kind decls =>
    refine StmtBracketed.bracketed rfl ?_
    intro scope ending after log _ path
    obtain ⟨hsame, hstate⟩ := declare_all model policy decls scope
    cases path with
    | vars => exact ⟨soundLog_nil, hsame, fun _ => hstate.symm, trivial⟩
  | expr span value =>
    refine StmtBracketed.bracketed rfl ?_
    intro scope ending after log _ path
    cases path with
    | expr => exact ⟨soundLog_nil, .refl scope, fun _ => rfl, trivial⟩
  | ret | brk | cont => exact StmtBracketed.bracketed rfl fun h => nomatch h
  | ifElse span condition thenBranch elseBranch hThen hElse =>
    refine StmtBracketed.bracketed rfl ?_
    intro scope ending after log _ path
    cases elseBranch with
    | none =>
      simp only [markStatement, markElse] at path ⊢
      cases path with
      | thenBranch hpath =>
        obtain ⟨hlog, hend⟩ := branch_bracketed hThen hpath
        exact ⟨hlog, .refl scope, hend.leave_block⟩
      | noBranch => exact ⟨soundLog_nil, .refl scope, fun _ => rfl, trivial⟩
    | some branch =>
      simp only [markStatement, markElse] at path ⊢
      cases path with
      | thenBranch hpath =>
        obtain ⟨hlog, hend⟩ := branch_bracketed hThen hpath
        exact ⟨hlog, .refl scope, hend.leave_block⟩
      | elseBranch hpath =>
        obtain ⟨hlog, hend⟩ := branch_bracketed (hElse branch rfl) hpath
        exact ⟨hlog, .refl scope, hend.leave_block⟩
  | loop span condition body hBody =>
    refine StmtBracketed.bracketed rfl ?_
    intro scope ending after log _ path
    simp only [markStatement] at path ⊢
    cases path with
    | loop hpath =>
      obtain ⟨hlog, hafter, hex⟩ := rounds_bracketed (branch_bracketed hBody) hpath
      exact ⟨hlog, .refl scope, hafter, hex⟩
  | block span body hBody =>
    have hlist : ListBracketed model policy body := list_bracketed_of_forall hBody
    refine ⟨?_, hlist⟩
    intro scope ending after log _ path
    simp only [markStatement] at path ⊢
    cases path with
    | block hpath =>
      obtain ⟨hlog, hend⟩ := hlist hpath
      exact ⟨hlog, .refl scope, hend.leave_block⟩
  | staged =>
    refine StmtBracketed.bracketed rfl ?_
    intro scope ending after log _ path
    cases path

end Bracketing

/-! ## Bodies -/

/-- **Destruction is well bracketed.** The marked body is the output of the pass, and all but its
marked calls is the body that the pass was given. Along every path through it, each added call
destroys the variable on top of the stack and each round of a loop leaves the stack as it found
it; and when the path comes to a return or to the end of the body, nothing is left to destroy. A
break or continue outside a loop ends the body too. -/
theorem run_wellBracketed (model : Model) (policy : DestructorPolicy) (locals : Locals)
    (body : List Stmt) :
    Marked.eraseAll (mark model policy locals body) = run model policy locals body ∧
      bracedAll (Marked.keptAll (mark model policy locals body)) = bracedAll body ∧
      ∀ (ending : Ending) (after : PathState) (log : List Observation),
        Path model policy (.list (mark model policy locals body)) ⟨locals, []⟩ ending after log →
        SoundLog log ∧ (ending ≠ .cut → after.stack = []) := by
  refine ⟨eraseAll_mark .., bracedAll_keptAll_mark .., fun ending after log path => ?_⟩
  have hbody : ListBracketed model policy body :=
    list_bracketed_of_forall fun stmt _ => stmt_bracketed stmt
  obtain ⟨hlog, hend, hex⟩ := hbody (show Path model policy
    (.list (markStatements model policy (.start locals) {} body)) (MarkedScope.start locals).state
    ending after log from path)
  refine ⟨hlog, fun hcut => ?_⟩
  cases ending with
  | done => exact hend rfl
  | brk => exact hex
  | cont => exact hex
  | ret => exact hex
  | cut => exact absurd rfl hcut

/-- A model that knows one class, `Foo`, which has a destructor. -/
def fooModel : TypedModel := Names.model <| Tables.names <|
  let info : ClassInfo :=
    { traits := {}, declared := false, fields := [], hasConstructor := false
      methods := [{ name := Spelling.destructor, visibility := .publicMember, returnType := none }] }
  let item : Item := { name := "Foo", span := {}, info := .classInfo info }
  { values := [("Foo", .item item)], types := [("Foo", .item item)] }

/-- The declaration of a variable of a type that is given by its name. -/
def declareAs (name type : String) : Stmt :=
  .vars {} .letKind
    [{ span := {}, name := .ident name, type := some (.reference {} [type] []), init := none }]

/-- A loop that one round continues and another breaks, each with a variable of its own to
destroy, inside a body with a third. -/
def twoRounds : List Stmt :=
  let yes : Expr := .literal {} (.bool true)
  [declareAs "a" "Foo",
   .loop {} yes (.block {} [declareAs "b" "Foo", .ifElse {} yes (.cont {}) none, .brk {}])]

/-- The path through `twoRounds` that continues once and then breaks: what is seen on it is as it
ought to be, and it leaves nothing behind. -/
theorem run_wellBracketed_twoRounds :
    ∃ after : PathState, ∃ log : List Observation,
      log = [.destroyed "b" ["b", "a"], .round ["a"] ["a"], .destroyed "b" ["b", "a"],
        .round ["a"] ["a"], .destroyed "a" ["a"]] ∧
      Path fooModel .allClasses (.list (mark fooModel .allClasses (.start none) twoRounds))
        ⟨.start none, []⟩ .done after log ∧
      SoundLog log ∧ after.stack = [] := by
  have path : Path fooModel .allClasses
      (.list (mark fooModel .allClasses (.start none) twoRounds)) ⟨.start none, []⟩ .done _ _ :=
    .cons .vars (.cons
      (.loop (.again
        (.cons .vars (.stop (.thenBranch (.cons .added (.stop .cont nofun))) nofun)) (Or.inr rfl)
        (.broken (.cons .vars (.cons .noBranch (.cons .added (.stop .brk nofun)))))))
      (.cons .added .nil))
  obtain ⟨hlog, hend⟩ := (run_wellBracketed ..).2.2 _ _ _ path
  exact ⟨_, _, rfl, path, hlog, hend nofun⟩

end Cleanup
end NativeLowering
