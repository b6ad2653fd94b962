import NativeLowering.Pass.Run
import NativeLowering.Proofs.Success
import NativeLowering.Proofs.Syntax.Bodies

/-!
# Running the passes over two bodies at once

Two bodies of the same shape, whose expressions correspond, are still of the same shape after the
passes, provided that nothing the passes look at tells them apart. This file says what has to be
checked for that.

The first body meets a condition and the second is its image under a change of expressions. The
bindings on both sides are related by a relation that declarations and frames keep (`Tracks`).
Adding destructor calls needs no more (`cleanup_transport`); a walk needs besides that the visit of
one expression commutes with the change (`walk_transport`).

Nothing of a body gets lost either. So a condition can be read backwards: what every expression and
every variable of the result meets, those of the body met before.

With the change that changes nothing this is a statement about one body: the pass leads from one
condition to another.
-/

set_option autoImplicit false

namespace NativeLowering

/-- What a relation between the bindings of two bodies has to satisfy. The bodies may belong to
different programs. -/
structure Tracks (model model' : Model) (m : Expr → Expr) (ρ : Locals → Locals → Prop)
    (P : Expr → Prop) (D : DeclCondition) : Prop where
  push : ∀ {locals locals' : Locals} (kind : FrameKind), ρ locals locals' →
    ρ (locals.push kind) (locals'.push kind)
  /-- A variable is to be destroyed on both sides or on neither. -/
  destroyed : ∀ {locals locals' : Locals} {decl : VariableDecl} (policy : DestructorPolicy),
    ρ locals locals' → decl.All P D →
    Cleanup.isDestructible model' policy (model'.declaredType locals' (decl.mapExprs m))
      = Cleanup.isDestructible model policy (model.declaredType locals decl)
  declare : ∀ {locals locals' : Locals} {decl : VariableDecl} {name : String}, ρ locals locals' →
    decl.All P D → decl.name = .ident name →
    ρ (locals.declare name (model.declaredType locals decl))
      (locals'.declare name (model'.declaredType locals' (decl.mapExprs m)))

/-- In one program it is enough that a variable has the same type on both sides. -/
theorem Tracks.of_type {model : Model} {m : Expr → Expr} {ρ : Locals → Locals → Prop}
    {P : Expr → Prop} {D : DeclCondition}
    (push : ∀ {locals locals' : Locals} (kind : FrameKind), ρ locals locals' →
      ρ (locals.push kind) (locals'.push kind))
    (type : ∀ {locals locals' : Locals} {decl : VariableDecl}, ρ locals locals' →
      D decl.name decl.type →
      model.declaredType locals' (decl.mapExprs m) = model.declaredType locals decl)
    (declare : ∀ {locals locals' : Locals} {decl : VariableDecl} {name : String}, ρ locals locals' →
      D decl.name decl.type → decl.name = .ident name →
      ρ (locals.declare name (model.declaredType locals decl))
        (locals'.declare name (model.declaredType locals decl))) :
    Tracks model model m ρ P D where
  push := push
  destroyed policy h hd := by rw [type h hd.1]
  declare h hd hname := by
    rw [type h hd.1]
    exact declare h hd.1 hname

/-- Equal bindings are tracked by the change that changes nothing. -/
theorem Tracks.refl (model : Model) (P : Expr → Prop) (D : DeclCondition) :
    Tracks model model id Eq P D := by
  refine .of_type ?_ ?_ ?_
  · rintro locals _ kind rfl
    rfl
  · rintro locals _ decl rfl _
    simp [VariableDecl.mapExprs]
  · rintro locals _ decl name rfl _ _
    rfl

theorem Tracks.declareLocal {model model' : Model} {m : Expr → Expr} {ρ : Locals → Locals → Prop}
    {P : Expr → Prop} {D : DeclCondition} (tracks : Tracks model model' m ρ P D)
    {locals locals' : Locals} (hlocals : ρ locals locals') {decl : VariableDecl}
    (hd : decl.All P D) :
    ρ (declareLocal model locals decl) (declareLocal model' locals' (decl.mapExprs m)) := by
  have hname : (decl.mapExprs m).name = decl.name := rfl
  unfold NativeLowering.declareLocal
  rw [hname]
  cases hn : decl.name.ident? with
  | none => exact hlocals
  | some name => exact tracks.declare hlocals hd (BindingName.eq_ident hn)

namespace Stmt

@[simp] theorem isBlock_mapExprs (m : Expr → Expr) (stmt : Stmt) :
    (stmt.mapExprs m).isBlock = stmt.isBlock := by
  cases stmt <;> rfl

@[simp] theorem span_mapExprs (m : Expr → Expr) (stmt : Stmt) :
    (stmt.mapExprs m).span = stmt.span := by
  cases stmt <;> rfl

end Stmt

/-! ## Adding destructor calls -/

namespace Cleanup

open Stmt (AllList mapList)

section Transport

variable {model model' : Model} {policy : DestructorPolicy} {m : Expr → Expr}
  {ρ : Locals → Locals → Prop} {P B : Expr → Prop} {D E : DeclCondition}

theorem exitOf?_mapExprs (stmt : Stmt) : exitOf? (stmt.mapExprs m) = exitOf? stmt := by
  induction stmt using Stmt.ind with
  | staged span before body _ hBody => exact hBody
  | _ => rfl

/-- Scopes of the two bodies at the same point: the same variables are tracked, and each of them has
been declared. -/
structure SameScope (ρ : Locals → Locals → Prop) (D : DeclCondition) (scope scope' : Scope) :
    Prop where
  locals : ρ scope.locals scope'.locals
  frames : scope'.frames = scope.frames
  declared : ∀ frame ∈ scope.frames, ∀ name ∈ frame.names, ∃ type, D (.ident name) type

/-- The calls that destroy declared variables meet the condition and are not changed. -/
def CallsFit (m : Expr → Expr) (P : Expr → Prop) (D : DeclCondition) : Prop :=
  ∀ (span : Span) (name : String) (type : Option TypeNode), D (.ident name) type →
    (destructorCall span name).All P D ∧
      (destructorCall span name).mapExprs m = destructorCall span name

theorem SameScope.enter {scope scope' : Scope} (tracks : Tracks model model' m ρ P D)
    (h : SameScope ρ D scope scope') (kind : FrameKind) :
    SameScope ρ D (scope.enter kind) (scope'.enter kind) := by
  refine ⟨tracks.push kind h.locals, by simp [Scope.enter, h.frames], fun frame hf name hn => ?_⟩
  rcases List.mem_cons.mp hf with rfl | hf
  · exact nomatch hn
  · exact h.declared frame hf name hn

theorem SameScope.declare {scope scope' : Scope} (tracks : Tracks model model' m ρ P D)
    (h : SameScope ρ D scope scope') {decl : VariableDecl} (hd : decl.All P D) :
    SameScope ρ D (scope.declare model policy decl)
      (scope'.declare model' policy (decl.mapExprs m)) := by
  have hdestroyed := tracks.destroyed policy h.locals hd
  have hname : (decl.mapExprs m).name = decl.name := rfl
  unfold Scope.declare
  rw [hname]
  cases hn : decl.name.ident? with
  | none => exact h
  | some name =>
    have hd' : D (.ident name) decl.type := BindingName.eq_ident hn ▸ hd.1
    dsimp only
    rw [hdestroyed]
    refine ⟨tracks.declare h.locals hd (BindingName.eq_ident hn), ?_, ?_⟩
    · by_cases hdest : isDestructible model policy (model.declaredType scope.locals decl) = true
      · simp only [hdest, if_true, Scope.track, h.frames]
        cases hfr : scope.frames with
        | nil => simp [h.frames, hfr]
        | cons top rest => rfl
      · simp [hdest, h.frames]
    · intro frame hf other ho
      by_cases hdest : isDestructible model policy (model.declaredType scope.locals decl) = true
      · simp only [hdest, if_true, Scope.track] at hf
        cases hfr : scope.frames with
        | nil => simp [hfr] at hf
        | cons top rest =>
          simp only [hfr, List.mem_cons] at hf
          rcases hf with rfl | hf
          · rcases List.mem_cons.mp ho with rfl | ho
            · exact ⟨decl.type, hd'⟩
            · exact h.declared top (by simp [hfr]) other ho
          · exact h.declared frame (by simp [hfr, hf]) other ho
      · simp only [hdest] at hf
        exact h.declared frame hf other ho

theorem SameScope.declareAll (tracks : Tracks model model' m ρ P D) {decls : List VariableDecl}
    (hall : ∀ decl ∈ decls, decl.All P D) {scope scope' : Scope} (h : SameScope ρ D scope scope') :
    SameScope ρ D (decls.foldl (Scope.declare model policy) scope)
      ((decls.map (VariableDecl.mapExprs m)).foldl (Scope.declare model' policy) scope') := by
  induction decls generalizing scope scope' with
  | nil => exact h
  | cons decl rest ih =>
    exact ih (fun other hm => hall other (by simp [hm])) (h.declare tracks (hall decl (by simp)))

theorem calls_transport (hcalls : CallsFit m P D) (span : Span) {names : List String}
    (h : ∀ name ∈ names, ∃ type, D (.ident name) type) :
    AllList P D (names.map (destructorCall span)) ∧
      mapList m (names.map (destructorCall span)) = names.map (destructorCall span) := by
  induction names with
  | nil => exact ⟨trivial, rfl⟩
  | cons name rest ih =>
    obtain ⟨type, htype⟩ := h name (by simp)
    obtain ⟨hall, hmap⟩ := hcalls span name type htype
    obtain ⟨hrest, hmapRest⟩ := ih fun other hm => h other (by simp [hm])
    exact ⟨⟨hall, hrest⟩, by simp only [List.map_cons, mapList, hmap, hmapRest]⟩

/-- The variables that are destroyed at an exit, over all frames that it leaves. -/
def exitNames (exit : Exit) : List Tracked → List String
  | [] => []
  | frame :: outer =>
    frame.names ++ if exit = .loop ∧ frame.kind = .loop then [] else exitNames exit outer

theorem exitCalls_eq (exit : Exit) (span : Span) (frames : List Tracked) :
    exitCalls exit span frames = (exitNames exit frames).map (destructorCall span) := by
  induction frames with
  | nil => rfl
  | cons frame outer ih =>
    rw [exitCalls, exitNames, List.map_append, Tracked.calls, ih]
    by_cases h : exit = .loop ∧ frame.kind = .loop
    · simp [h]
    · simp [h]

theorem mem_exitNames {exit : Exit} {name : String} : ∀ {frames : List Tracked},
    name ∈ exitNames exit frames → ∃ frame ∈ frames, name ∈ frame.names
  | [], h => nomatch h
  | frame :: outer, h => by
    rw [exitNames, List.mem_append] at h
    rcases h with h | h
    · exact ⟨frame, by simp, h⟩
    · split at h
      · exact nomatch h
      · obtain ⟨other, hm, hn⟩ := mem_exitNames h
        exact ⟨other, by simp [hm], hn⟩

theorem exitCalls_transport (hcalls : CallsFit m P D) {scope scope' : Scope}
    (h : SameScope ρ D scope scope') (exit : Exit) (span : Span) :
    AllList P D (scope.exitCalls exit span) ∧
      mapList m (scope.exitCalls exit span) = scope'.exitCalls exit span := by
  rw [Scope.exitCalls, Scope.exitCalls, h.frames, exitCalls_eq]
  refine calls_transport hcalls span fun name hn => ?_
  obtain ⟨frame, hf, hm⟩ := mem_exitNames hn
  exact h.declared frame hf name hm

theorem endCalls_transport (hcalls : CallsFit m P D) {scope scope' : Scope}
    (h : SameScope ρ D scope scope') (span : Span) :
    AllList P D (scope.endCalls span) ∧
      mapList m (scope.endCalls span) = scope'.endCalls span := by
  rw [Scope.endCalls, Scope.endCalls, h.frames]
  cases hf : scope.frames with
  | nil => exact ⟨trivial, rfl⟩
  | cons frame outer =>
    exact calls_transport hcalls span fun name hn => h.declared frame (by simp [hf]) name hn

/-! ### Statement by statement -/

/-- What the pass does with a statement of the first body, it does with that of the second. -/
structure StmtTransport (model model' : Model) (policy : DestructorPolicy) (m : Expr → Expr)
    (ρ : Locals → Locals → Prop) (P : Expr → Prop) (D : DeclCondition) (B : Expr → Prop)
    (E : DeclCondition) (kind : FrameKind) (scope scope' : Scope) (stmt : Stmt) : Prop where
  all : (statement model policy scope kind stmt).1.All P D
  map : (statement model' policy scope' kind (stmt.mapExprs m)).1
    = (statement model policy scope kind stmt).1.mapExprs m
  after : SameScope ρ D (statement model policy scope kind stmt).2
    (statement model' policy scope' kind (stmt.mapExprs m)).2
  back : (statement model policy scope kind stmt).1.All B E → stmt.All B E

def Transported (model model' : Model) (policy : DestructorPolicy) (m : Expr → Expr)
    (ρ : Locals → Locals → Prop) (P : Expr → Prop) (D : DeclCondition) (B : Expr → Prop)
    (E : DeclCondition) (stmt : Stmt) : Prop :=
  ∀ (kind : FrameKind) (scope scope' : Scope), stmt.All P D → SameScope ρ D scope scope' →
    StmtTransport model model' policy m ρ P D B E kind scope scope' stmt

theorem list_transport (hcalls : CallsFit m P D) {stmts : List Stmt}
    (h : ∀ stmt ∈ stmts, Transported model model' policy m ρ P D B E stmt) (hall : AllList P D stmts)
    {scope scope' : Scope} (hs : SameScope ρ D scope scope') (span : Span) :
    AllList P D (statements model policy scope span stmts) ∧
      statements model' policy scope' span (mapList m stmts)
        = mapList m (statements model policy scope span stmts) ∧
      (AllList B E (statements model policy scope span stmts) → AllList B E stmts) := by
  induction stmts generalizing scope scope' span with
  | nil =>
    obtain ⟨hend, hmap⟩ := endCalls_transport hcalls hs span
    exact ⟨hend, hmap.symm, fun _ => trivial⟩
  | cons stmt rest ih =>
    rw [mapList, statements, statements, exitOf?_mapExprs]
    cases hexit : exitOf? stmt with
    | some exit =>
      obtain ⟨hcall, hmap⟩ := exitCalls_transport hcalls hs exit stmt.span
      refine ⟨Stmt.allList_append.mpr ⟨hcall, hall⟩, ?_, ?_⟩
      · rw [Stmt.span_mapExprs, Stmt.mapList_append, hmap, mapList]
      · intro hback
        exact (Stmt.allList_append.mp hback).2
    | none =>
      obtain ⟨hfirst, hmap, hscope, hback⟩ := h stmt (by simp) .block scope scope' hall.1 hs
      obtain ⟨hrest, hmapRest, hbackRest⟩ := ih (fun other hm => h other (by simp [hm])) hall.2
        hscope stmt.span
      refine ⟨⟨hfirst, hrest⟩, ?_, ?_⟩
      · rw [mapList, Stmt.span_mapExprs]
        simp only [hmap, hmapRest]
      · intro hresult
        exact ⟨hback hresult.1, hbackRest hresult.2⟩

theorem lone_transport (hcalls : CallsFit m P D) {stmt : Stmt} {scope scope' : Scope}
    (hall : stmt.All P D) (hs : SameScope ρ D scope scope')
    (h : StmtTransport model model' policy m ρ P D B E .block scope scope' stmt) :
    (loneBlock scope stmt (statement model policy scope .block stmt)).All P D ∧
      loneBlock scope' (stmt.mapExprs m) (statement model' policy scope' .block (stmt.mapExprs m))
        = (loneBlock scope stmt (statement model policy scope .block stmt)).mapExprs m ∧
      ((loneBlock scope stmt (statement model policy scope .block stmt)).All B E →
        stmt.All B E) := by
  unfold loneBlock
  rw [exitOf?_mapExprs, Stmt.span_mapExprs]
  cases hexit : exitOf? stmt with
  | some exit =>
    obtain ⟨hcall, hmap⟩ := exitCalls_transport hcalls hs exit stmt.span
    refine ⟨Stmt.allList_append.mpr ⟨hcall, hall, trivial⟩, ?_, ?_⟩
    · rw [Stmt.mapExprs, Stmt.mapList_append, hmap]
      rfl
    · intro hback
      exact (Stmt.allList_append.mp hback).2.1
  | none =>
    obtain ⟨hend, hmap⟩ := endCalls_transport hcalls h.after stmt.span
    refine ⟨⟨h.all, hend⟩, ?_, ?_⟩
    · rw [Stmt.mapExprs, mapList, hmap, h.map]
    · intro hback
      exact h.back hback.1

theorem branch_transport (tracks : Tracks model model' m ρ P D) (hcalls : CallsFit m P D) {stmt : Stmt}
    (h : Transported model model' policy m ρ P D B E stmt) {scope scope' : Scope} (hall : stmt.All P D)
    (hs : SameScope ρ D scope scope') (kind : FrameKind) :
    let branch (model : Model) (scope : Scope) (stmt : Stmt) :=
      if stmt.isBlock then (statement model policy scope kind stmt).1
      else loneBlock (scope.enter kind) stmt
        (statement model policy (scope.enter kind) .block stmt)
    (branch model scope stmt).All P D ∧
      branch model' scope' (stmt.mapExprs m) = (branch model scope stmt).mapExprs m ∧
      ((branch model scope stmt).All B E → stmt.All B E) := by
  dsimp only
  rw [Stmt.isBlock_mapExprs]
  cases stmt.isBlock with
  | true =>
    obtain ⟨hall', hmap, -, hback⟩ := h kind scope scope' hall hs
    exact ⟨hall', hmap, hback⟩
  | false =>
    exact lone_transport hcalls hall (hs.enter tracks kind)
      (h .block _ _ hall (hs.enter tracks kind))

theorem staged_transport {before : List Stmt}
    (h : ∀ stmt ∈ before, Transported model model' policy m ρ P D B E stmt) (hall : AllList P D before)
    {scope scope' : Scope} (hs : SameScope ρ D scope scope') :
    AllList P D (staged model policy scope before).1 ∧
      (staged model' policy scope' (mapList m before)).1
        = mapList m (staged model policy scope before).1 ∧
      SameScope ρ D (staged model policy scope before).2
        (staged model' policy scope' (mapList m before)).2 ∧
      (AllList B E (staged model policy scope before).1 → AllList B E before) := by
  induction before generalizing scope scope' with
  | nil => exact ⟨trivial, rfl, hs, fun hback => hback⟩
  | cons stmt rest ih =>
    obtain ⟨hfirst, hmap, hscope, hback⟩ := h stmt (by simp) .block scope scope' hall.1 hs
    obtain ⟨hrest, hmapRest, hscopeRest, hbackRest⟩ :=
      ih (fun other hm => h other (by simp [hm])) hall.2 hscope
    simp only [mapList, staged]
    refine ⟨⟨hfirst, hrest⟩, ?_, hscopeRest, ?_⟩
    · rw [hmap, hmapRest]
    · intro hresult
      exact ⟨hback hresult.1, hbackRest hresult.2⟩

theorem stmt_transport (tracks : Tracks model model' m ρ P D) (hcalls : CallsFit m P D) (stmt : Stmt) :
    Transported model model' policy m ρ P D B E stmt := by
  induction stmt using Stmt.ind with
  | vars span form decls =>
    intro kind scope scope' hall hs
    exact ⟨hall, rfl, hs.declareAll tracks hall, fun hback => hback⟩
  | expr | ret | brk | cont =>
    intro kind scope scope' hall hs
    exact ⟨hall, rfl, hs, fun hback => hback⟩
  | ifElse span condition thenBranch elseBranch hThen hElse =>
    intro kind scope scope' hall hs
    obtain ⟨hc, ht, he⟩ := hall
    obtain ⟨hthen, hmap, hback⟩ := branch_transport tracks hcalls hThen ht hs .block
    cases elseBranch with
    | none =>
      refine ⟨⟨hc, hthen, trivial⟩, ?_, hs, ?_⟩
      · simp only [Stmt.mapExprs, statement, Stmt.mapOption, elseStatement, hmap]
      · intro hresult
        exact ⟨hresult.1, hback hresult.2.1, trivial⟩
    | some branch =>
      obtain ⟨helse, hmap', hback'⟩ := branch_transport tracks hcalls (hElse branch rfl) he hs .block
      refine ⟨⟨hc, hthen, helse⟩, ?_, hs, ?_⟩
      · simp only [Stmt.mapExprs, statement, Stmt.mapOption, elseStatement, hmap, hmap']
      · intro hresult
        exact ⟨hresult.1, hback hresult.2.1, hback' hresult.2.2⟩
  | loop span condition body hBody =>
    intro kind scope scope' hall hs
    obtain ⟨hbody, hmap, hback⟩ := branch_transport tracks hcalls hBody hall.2 hs .loop
    refine ⟨⟨hall.1, hbody⟩, ?_, hs, fun hresult => ⟨hresult.1, hback hresult.2⟩⟩
    simp only [Stmt.mapExprs, statement, hmap]
  | block span body hBody =>
    intro kind scope scope' hall hs
    obtain ⟨hbody, hmap, hback⟩ := list_transport hcalls hBody hall (hs.enter tracks kind) {}
    refine ⟨hbody, ?_, hs, hback⟩
    simp only [Stmt.mapExprs, statement, hmap]
  | staged span before body hBefore hBody =>
    intro kind scope scope' hall hs
    obtain ⟨hbefore, hmap, hscope, hback⟩ := staged_transport hBefore hall.1 hs
    obtain ⟨hbody, hmap', hscope', hback'⟩ := hBody .block _ _ hall.2 hscope
    refine ⟨⟨hbefore, hbody⟩, ?_, hscope', ?_⟩
    · simp only [Stmt.mapExprs, statement, hmap, hmap']
    · intro hresult
      exact ⟨hback hresult.1, hback' hresult.2⟩

end Transport

/-- Adding destructor calls commutes with a change of expressions that the types of variables do not
notice, and loses nothing. -/
theorem cleanup_transport {model model' : Model} {m : Expr → Expr} {ρ : Locals → Locals → Prop}
    {P B : Expr → Prop} {D E : DeclCondition} (policy : DestructorPolicy)
    (tracks : Tracks model model' m ρ P D) (hcalls : CallsFit m P D) {locals locals' : Locals}
    (hlocals : ρ locals locals') {body : List Stmt} (hall : AllList P D body) :
    AllList P D (run model policy locals body) ∧
      run model' policy locals' (mapList m body) = mapList m (run model policy locals body) ∧
      (AllList B E (run model policy locals body) → AllList B E body) := by
  refine list_transport hcalls (fun stmt _ => stmt_transport tracks hcalls stmt) hall ?_ {}
  refine ⟨hlocals, rfl, fun frame hf name hn => ?_⟩
  rcases List.mem_singleton.mp hf with rfl
  exact nomatch hn

end Cleanup

/-! ## Walking a body -/

namespace Walk

open Stmt (AllList mapList)

section Runs

variable {model : Model} {visit : Visit} {locals : Locals} {next : Nat} {point : Point}

theorem run_atPoint {value result : Expr} {before : List Stmt} :
    (atPoint visit value).run ⟨locals, next⟩ = .ok ((result, before), point) ↔
      ∃ last, (expr (visit locals) value).run ⟨next, []⟩ = .ok (result, ⟨last, before⟩) ∧
        point = ⟨locals, last⟩ := by
  simp only [atPoint, Lowered.run_bind, Lowered.run_get, Lowered.run_lift, Lowered.run_set,
    Lowered.run_pure, Prod.mk.injEq]
  constructor
  · rintro ⟨_, _, ⟨rfl, rfl⟩, ⟨_, ⟨last, _⟩⟩, _, ⟨hrun, rfl⟩, _, _, rfl, ⟨rfl, rfl⟩, rfl⟩
    exact ⟨last, hrun, rfl⟩
  · rintro ⟨last, hrun, rfl⟩
    exact ⟨_, _, ⟨rfl, rfl⟩, (result, ⟨last, before⟩), _, ⟨hrun, rfl⟩, ⟨⟩, _, rfl, ⟨rfl, rfl⟩, rfl⟩

theorem run_atPointOption_locals {value result : Option Expr} {before : List Stmt}
    (h : (atPointOption visit value).run ⟨locals, next⟩ = .ok ((result, before), point)) :
    point.locals = locals := by
  cases value with
  | none =>
    cases h
    rfl
  | some value =>
    rw [atPointOption, Lowered.run_bind] at h
    obtain ⟨⟨inner, asked⟩, between, hrun, hpure⟩ := h
    obtain ⟨-, rfl⟩ := Lowered.run_pure.mp hpure
    obtain ⟨last, -, rfl⟩ := run_atPoint.mp hrun
    rfl

theorem run_varDecl {decl result : VariableDecl} {before : List Stmt} :
    (varDecl model visit decl).run ⟨locals, next⟩ = .ok ((result, before), point) ↔
      ∃ init last, (atPointOption visit decl.init).run ⟨locals, next⟩
          = .ok ((init, before), ⟨locals, last⟩) ∧
        result = { decl with init } ∧ point = ⟨declareLocal model locals result, last⟩ := by
  rw [varDecl, Lowered.run_bind]
  constructor
  · rintro ⟨⟨init, asked⟩, ⟨_, last⟩, hinit, h⟩
    obtain rfl : _ = locals := run_atPointOption_locals hinit
    unfold declareLocal
    cases hn : decl.name.ident? with
    | none =>
      simp only [hn] at h
      cases h
      exact ⟨init, last, hinit, rfl, by simp only [hn]⟩
    | some name =>
      simp only [hn] at h
      cases h
      exact ⟨init, last, hinit, rfl, by simp only [hn]⟩
  · rintro ⟨init, last, hinit, rfl, rfl⟩
    refine ⟨_, _, hinit, ?_⟩
    unfold declareLocal
    cases hn : decl.name.ident? with
    | none => simp only [hn]; rfl
    | some name => simp only [hn]; rfl

theorem run_inFrame {α : Type} {kind : FrameKind} {walk : StmtM α} {result : α} :
    (inFrame kind walk).run ⟨locals, next⟩ = .ok (result, point) ↔
      ∃ inner, walk.run ⟨locals.push kind, next⟩ = .ok (result, inner) ∧
        point = ⟨locals, inner.next⟩ := by
  simp only [inFrame, Lowered.run_bind, Lowered.run_get, Lowered.run_modify, Lowered.run_pure]
  constructor
  · rintro ⟨_, _, ⟨rfl, rfl⟩, _, _, rfl, _, inner, hwalk, _, _, rfl, rfl, rfl⟩
    exact ⟨inner, hwalk, rfl⟩
  · rintro ⟨inner, hwalk, rfl⟩
    exact ⟨_, _, ⟨rfl, rfl⟩, ⟨⟩, _, rfl, result, inner, hwalk, ⟨⟩, _, rfl, rfl, rfl⟩

theorem body_eq_ok {statements result : List Stmt} :
    body model visit locals statements = .ok result ↔
      ∃ point, (stmts model visit statements).run ⟨locals, 1⟩ = .ok (result, point) := by
  change Except.map Prod.fst ((stmts model visit statements).run ⟨locals, 1⟩) = _ ↔ _
  rw [Lowered.map_eq_ok]
  constructor
  · rintro ⟨⟨_, point⟩, h, rfl⟩
    exact ⟨point, h⟩
  · rintro ⟨point, h⟩
    exact ⟨_, h, rfl⟩

/-! ### Taking a walk apart

A walk leads somewhere exactly if the walks of the parts do, one after the other. These
equivalences, one for each form, give the parts of a walk, and put a walk together from its parts. -/

variable {start : Point} {span : Span} {before : List Stmt} {result : Stmt}

-- The equations of the walk are made here, once for all forms.
attribute [local simp] stmt elseStmt stmts

theorem run_atPointOption_some {value : Expr} {result : Option Expr} :
    (atPointOption visit (some value)).run start = .ok ((result, before), point) ↔
      ∃ walked, (atPoint visit value).run start = .ok ((walked, before), point) ∧
        result = some walked := by
  simp only [atPointOption, Lowered.run_bind, Lowered.run_pure, Prod.mk.injEq, Prod.exists,
    exists_eq_right_right']

theorem run_varDecls_cons {decl : VariableDecl} {rest results : List VariableDecl} :
    (varDecls model visit (decl :: rest)).run start = .ok ((results, before), point) ↔
      ∃ first asked between others more,
        (varDecl model visit decl).run start = .ok ((first, asked), between) ∧
        (varDecls model visit rest).run between = .ok ((others, more), point) ∧
        results = first :: others ∧ before = asked ++ more := by
  simp only [varDecls, Lowered.run_bind, Lowered.run_pure, Prod.mk.injEq, Prod.exists,
    exists_and_left, exists_eq_right_right']

theorem run_stmt_vars {kind : VariableKind} {decls : List VariableDecl} :
    (stmt model visit (.vars span kind decls)).run start = .ok (result, point) ↔
      ∃ walked before, (varDecls model visit decls).run start = .ok ((walked, before), point) ∧
        result = stage before (.vars span kind walked) := by
  simp only [stmt, Lowered.run_bind, Lowered.run_pure, Prod.exists, exists_eq_right_right']

theorem run_stmt_expr {value : Expr} :
    (stmt model visit (.expr span value)).run start = .ok (result, point) ↔
      ∃ walked before, (atPoint visit value).run start = .ok ((walked, before), point) ∧
        result = stage before (.expr span walked) := by
  simp only [stmt, Lowered.run_bind, Lowered.run_pure, Prod.exists, exists_eq_right_right']

theorem run_stmt_ret {value : Option Expr} :
    (stmt model visit (.ret span value)).run start = .ok (result, point) ↔
      ∃ walked before, (atPointOption visit value).run start = .ok ((walked, before), point) ∧
        result = stage before (.ret span walked) := by
  simp only [stmt, Lowered.run_bind, Lowered.run_pure, Prod.exists, exists_eq_right_right']

theorem run_stmt_ifElse {condition : Expr} {thenBranch : Stmt} {elseBranch : Option Stmt} :
    (stmt model visit (.ifElse span condition thenBranch elseBranch)).run start
        = .ok (result, point) ↔
      ∃ walked before between first mid second,
        (atPoint visit condition).run start = .ok ((walked, before), between) ∧
        (inFrame .block (stmt model visit thenBranch)).run between = .ok (first, mid) ∧
        (elseStmt model visit elseBranch).run mid = .ok (second, point) ∧
        result = stage before (.ifElse span walked first second) := by
  simp only [stmt, Lowered.run_bind, Lowered.run_pure, Prod.exists, exists_and_left,
    exists_eq_right_right']

theorem run_stmt_loop {condition : Expr} {body : Stmt} :
    (stmt model visit (.loop span condition body)).run start = .ok (result, point) ↔
      ∃ walked before between inner,
        (atPoint visit condition).run start = .ok ((walked, before), between) ∧
        (inFrame .loop (stmt model visit body)).run between = .ok (inner, point) ∧
        result = stage before (.loop span walked inner) := by
  simp only [stmt, Lowered.run_bind, Lowered.run_pure, Prod.exists, exists_and_left,
    exists_eq_right_right']

theorem run_stmt_block {body : List Stmt} :
    (stmt model visit (.block span body)).run start = .ok (result, point) ↔
      ∃ inner, (inFrame .block (stmts model visit body)).run start = .ok (inner, point) ∧
        result = .block span inner := by
  simp only [stmt, Lowered.run_bind, Lowered.run_pure, exists_eq_right_right']

theorem run_stmt_staged {body : Stmt} :
    (stmt model visit (.staged span before body)).run start = .ok (result, point) ↔
      ∃ first between second,
        (stmts model visit before).run start = .ok (first, between) ∧
        (stmt model visit body).run between = .ok (second, point) ∧
        result = restage span first second := by
  simp only [stmt, Lowered.run_bind, Lowered.run_pure, exists_and_left, exists_eq_right_right']

theorem run_elseStmt_some {branch : Stmt} {result : Option Stmt} :
    (elseStmt model visit (some branch)).run start = .ok (result, point) ↔
      ∃ walked, (inFrame .block (stmt model visit branch)).run start = .ok (walked, point) ∧
        result = some walked := by
  simp only [elseStmt, Lowered.run_bind, Lowered.run_pure, exists_eq_right_right']

theorem run_stmts_cons {head : Stmt} {rest result : List Stmt} :
    (stmts model visit (head :: rest)).run start = .ok (result, point) ↔
      ∃ first between others, (stmt model visit head).run start = .ok (first, between) ∧
        (stmts model visit rest).run between = .ok (others, point) ∧
        result = first :: others := by
  simp only [stmts, Lowered.run_bind, Lowered.run_pure, exists_and_left, exists_eq_right_right']

end Runs

section Transport

variable {model model' : Model} {m : Expr → Expr} {ρ : Locals → Locals → Prop} {P Q : Expr → Prop}
  {D : DeclCondition} {B C : Expr → Prop} {E : DeclCondition} {visit visit' : Visit}

/-- Visiting an expression commutes with the change, and leads from the first condition to the
second, which the statements that the visit asks for meet too. Backwards it leads from the last
condition to the one before. -/
def VisitTransport (m : Expr → Expr) (ρ : Locals → Locals → Prop) (P Q : Expr → Prop)
    (D : DeclCondition) (B C : Expr → Prop) (visit visit' : Visit) : Prop :=
  ∀ (locals locals' : Locals) (value result : Expr) (next last : Nat) (before : List Stmt),
    ρ locals locals' → P value →
    (expr (visit locals) value).run ⟨next, []⟩ = .ok (result, ⟨last, before⟩) →
    Q result ∧ (C result → B value) ∧ AllList Q D before ∧
      (expr (visit' locals') (m value)).run ⟨next, []⟩ = .ok (m result, ⟨last, mapList m before⟩)

theorem atPoint_transport (hvisit : VisitTransport m ρ P Q D B C visit visit')
    {locals locals' : Locals} (hlocals : ρ locals locals') {value result : Expr} (hvalue : P value)
    {next : Nat} {before : List Stmt} {point : Point}
    (h : (atPoint visit value).run ⟨locals, next⟩ = .ok ((result, before), point)) :
    Q result ∧ (C result → B value) ∧ AllList Q D before ∧ point.locals = locals ∧
      (atPoint visit' (m value)).run ⟨locals', next⟩
        = .ok ((m result, mapList m before), ⟨locals', point.next⟩) := by
  obtain ⟨last, hrun, rfl⟩ := run_atPoint.mp h
  obtain ⟨hresult, hback, hbefore, hrun'⟩ := hvisit _ _ _ _ _ _ _ hlocals hvalue hrun
  exact ⟨hresult, hback, hbefore, rfl, run_atPoint.mpr ⟨last, hrun', rfl⟩⟩

theorem atPointOption_transport (hvisit : VisitTransport m ρ P Q D B C visit visit')
    {locals locals' : Locals} (hlocals : ρ locals locals') {value result : Option Expr}
    (hvalue : ∀ inner, value = some inner → P inner) {next : Nat} {before : List Stmt}
    {point : Point}
    (h : (atPointOption visit value).run ⟨locals, next⟩ = .ok ((result, before), point)) :
    (∀ inner, result = some inner → Q inner) ∧
      ((∀ inner, result = some inner → C inner) → ∀ inner, value = some inner → B inner) ∧
      AllList Q D before ∧ point.locals = locals ∧
      (atPointOption visit' (value.map m)).run ⟨locals', next⟩
        = .ok ((result.map m, mapList m before), ⟨locals', point.next⟩) := by
  cases value with
  | none =>
    cases h
    exact ⟨nofun, fun _ => nofun, trivial, rfl, rfl⟩
  | some value =>
    obtain ⟨inner, hrun, rfl⟩ := run_atPointOption_some.mp h
    obtain ⟨hresult, hback, hbefore, hpoint, hrun'⟩ :=
      atPoint_transport hvisit hlocals (hvalue value rfl) hrun
    refine ⟨?_, ?_, hbefore, hpoint, ?_⟩
    · rintro _ ⟨⟩
      exact hresult
    · rintro hinner _ ⟨⟩
      exact hback (hinner inner rfl)
    · exact run_atPointOption_some.mpr ⟨_, hrun', rfl⟩

theorem varDecl_transport (tracks : Tracks model model' m ρ Q D)
    (hvisit : VisitTransport m ρ P Q D B C visit visit') {locals locals' : Locals}
    (hlocals : ρ locals locals') {decl result : VariableDecl} (hdecl : decl.All P D) {next : Nat}
    {before : List Stmt} {point : Point}
    (h : (varDecl model visit decl).run ⟨locals, next⟩ = .ok ((result, before), point)) :
    result.All Q D ∧ (result.All C E → decl.All B E) ∧ AllList Q D before ∧
      ∃ after, ρ point.locals after ∧
        (varDecl model' visit' (decl.mapExprs m)).run ⟨locals', next⟩
          = .ok ((result.mapExprs m, mapList m before), ⟨after, point.next⟩) := by
  obtain ⟨init, last, hinit, rfl, rfl⟩ := run_varDecl.mp h
  obtain ⟨hinit', hback, hbefore, -, hrun⟩ := atPointOption_transport hvisit hlocals hdecl.2 hinit
  refine ⟨⟨hdecl.1, hinit'⟩, fun hresult => ⟨hresult.1, hback hresult.2⟩, hbefore, _,
    tracks.declareLocal hlocals ⟨hdecl.1, hinit'⟩, ?_⟩
  exact run_varDecl.mpr ⟨init.map m, last, hrun, rfl, rfl⟩

theorem varDecls_transport (tracks : Tracks model model' m ρ Q D)
    (hvisit : VisitTransport m ρ P Q D B C visit visit') {decls : List VariableDecl}
    (hdecls : ∀ decl ∈ decls, decl.All P D) {locals locals' : Locals}
    (hlocals : ρ locals locals') {results : List VariableDecl} {next : Nat} {before : List Stmt}
    {point : Point}
    (h : (varDecls model visit decls).run ⟨locals, next⟩ = .ok ((results, before), point)) :
    (∀ decl ∈ results, decl.All Q D) ∧
      ((∀ decl ∈ results, decl.All C E) → ∀ decl ∈ decls, decl.All B E) ∧ AllList Q D before ∧
      ∃ after, ρ point.locals after ∧
        (varDecls model' visit' (decls.map (VariableDecl.mapExprs m))).run ⟨locals', next⟩
          = .ok ((results.map (VariableDecl.mapExprs m), mapList m before),
              ⟨after, point.next⟩) := by
  induction decls generalizing locals locals' next results before point with
  | nil =>
    cases h
    exact ⟨nofun, fun _ => nofun, trivial, locals', hlocals, rfl⟩
  | cons decl rest ih =>
    obtain ⟨first, asked, ⟨between, mid⟩, others, more, hfirst, hrest, rfl, rfl⟩ :=
      run_varDecls_cons.mp h
    obtain ⟨hall, hback, hbefore, after, hafter, hrun⟩ :=
      varDecl_transport tracks hvisit hlocals (hdecls decl (by simp)) hfirst
    obtain ⟨hall', hback', hbefore', after', hafter', hrun'⟩ :=
      ih (fun other hm => hdecls other (by simp [hm])) hafter hrest
    refine ⟨?_, ?_, Stmt.allList_append.mpr ⟨hbefore, hbefore'⟩, after', hafter', ?_⟩
    · intro other hm
      rcases List.mem_cons.mp hm with rfl | hm
      · exact hall
      · exact hall' other hm
    · intro hresults other hm
      rcases List.mem_cons.mp hm with rfl | hm
      · exact hback (hresults first (by simp))
      · exact hback' (fun result hr => hresults result (by simp [hr])) other hm
    · rw [Stmt.mapList_append]
      exact run_varDecls_cons.mpr ⟨_, _, _, _, _, hrun, hrun', rfl, rfl⟩

theorem stage_all {before : List Stmt} {stmt : Stmt} :
    (stage before stmt).All Q D ↔ AllList Q D before ∧ stmt.All Q D := by
  cases before with
  | nil => simp [stage, AllList]
  | cons first rest => exact Iff.rfl

theorem stage_map (before : List Stmt) (stmt : Stmt) :
    (stage before stmt).mapExprs m = stage (mapList m before) (stmt.mapExprs m) := by
  cases before with
  | nil => rfl
  | cons first rest => simp [stage, Stmt.mapExprs, mapList]

theorem all_withSpan {stmt : Stmt} {span : Span} : (stmt.withSpan span).All Q D ↔ stmt.All Q D := by
  cases stmt <;> exact Iff.rfl

theorem map_withSpan (span : Span) (stmt : Stmt) :
    (stmt.withSpan span).mapExprs m = (stmt.mapExprs m).withSpan span := by
  cases stmt <;> rfl

theorem restage_all {before : List Stmt} {stmt : Stmt} {span : Span} :
    (restage span before stmt).All Q D ↔ AllList Q D before ∧ stmt.All Q D := by
  cases stmt with
  | staged _ more body =>
    rw [restage, stage_all, Stmt.allList_append, all_withSpan, and_assoc]
    exact Iff.rfl
  | _ => exact stage_all.trans (and_congr_right fun _ => all_withSpan)

theorem restage_map (span : Span) (before : List Stmt) (stmt : Stmt) :
    (restage span before stmt).mapExprs m = restage span (mapList m before) (stmt.mapExprs m) := by
  cases stmt with
  | staged _ more body =>
    simp only [restage, Stmt.mapExprs, stage_map, Stmt.mapList_append, map_withSpan]
  | _ => exact stage_map before _

/-! ### Statement by statement -/

/-- A walk of the first statement is matched by one of the second. -/
def Matched (model model' : Model) (m : Expr → Expr) (ρ : Locals → Locals → Prop) (P Q : Expr → Prop)
    (D : DeclCondition) (B C : Expr → Prop) (E : DeclCondition) (visit visit' : Visit)
    (statement : Stmt) : Prop :=
  ∀ (locals locals' : Locals) (next : Nat) (result : Stmt) (point : Point), ρ locals locals' →
    statement.All P D → (stmt model visit statement).run ⟨locals, next⟩ = .ok (result, point) →
    result.All Q D ∧ (result.All C E → statement.All B E) ∧
      ∃ after, ρ point.locals after ∧
        (stmt model' visit' (statement.mapExprs m)).run ⟨locals', next⟩
          = .ok (result.mapExprs m, ⟨after, point.next⟩)

theorem stmts_matched {body : List Stmt}
    (h : ∀ statement ∈ body, Matched model model' m ρ P Q D B C E visit visit' statement)
    (hall : AllList P D body) {locals locals' : Locals} (hlocals : ρ locals locals') {next : Nat}
    {result : List Stmt} {point : Point}
    (hrun : (stmts model visit body).run ⟨locals, next⟩ = .ok (result, point)) :
    AllList Q D result ∧ (AllList C E result → AllList B E body) ∧
      ∃ after, ρ point.locals after ∧
        (stmts model' visit' (mapList m body)).run ⟨locals', next⟩
          = .ok (mapList m result, ⟨after, point.next⟩) := by
  induction body generalizing locals locals' next result point with
  | nil =>
    cases hrun
    exact ⟨trivial, fun _ => trivial, locals', hlocals, rfl⟩
  | cons head rest ih =>
    obtain ⟨first, ⟨between, mid⟩, others, hfirst, hrest, rfl⟩ := run_stmts_cons.mp hrun
    obtain ⟨hall', hback, after, hafter, hrun⟩ := h head (by simp) _ _ _ _ _ hlocals hall.1 hfirst
    obtain ⟨hothers, hback', after', hafter', hrun'⟩ :=
      ih (fun other hm => h other (by simp [hm])) hall.2 hafter hrest
    refine ⟨⟨hall', hothers⟩, fun hresult => ⟨hback hresult.1, hback' hresult.2⟩, after', hafter', ?_⟩
    exact run_stmts_cons.mpr ⟨_, _, _, hrun, hrun', rfl⟩

theorem inFrame_matched (tracks : Tracks model model' m ρ Q D) {statement : Stmt}
    (h : Matched model model' m ρ P Q D B C E visit visit' statement) (hall : statement.All P D)
    {locals locals' : Locals} (hlocals : ρ locals locals') (kind : FrameKind) {next : Nat}
    {result : Stmt} {point : Point}
    (hrun : (inFrame kind (stmt model visit statement)).run ⟨locals, next⟩ = .ok (result, point)) :
    result.All Q D ∧ (result.All C E → statement.All B E) ∧ point.locals = locals ∧
      (inFrame kind (stmt model' visit' (statement.mapExprs m))).run ⟨locals', next⟩
        = .ok (result.mapExprs m, ⟨locals', point.next⟩) := by
  obtain ⟨inner, hinner, rfl⟩ := run_inFrame.mp hrun
  obtain ⟨hall', hback, after, -, hrun'⟩ := h _ _ _ _ _ (tracks.push kind hlocals) hall hinner
  exact ⟨hall', hback, rfl, run_inFrame.mpr ⟨_, hrun', rfl⟩⟩

theorem elseStmt_matched (tracks : Tracks model model' m ρ Q D) {elseBranch : Option Stmt}
    (h : ∀ branch, elseBranch = some branch → Matched model model' m ρ P Q D B C E visit visit' branch)
    (hall : Stmt.AllOption P D elseBranch) {locals locals' : Locals} (hlocals : ρ locals locals')
    {next : Nat} {result : Option Stmt} {point : Point}
    (hrun : (elseStmt model visit elseBranch).run ⟨locals, next⟩ = .ok (result, point)) :
    Stmt.AllOption Q D result ∧ (Stmt.AllOption C E result → Stmt.AllOption B E elseBranch) ∧
      point.locals = locals ∧
      (elseStmt model' visit' (Stmt.mapOption m elseBranch)).run ⟨locals', next⟩
        = .ok (Stmt.mapOption m result, ⟨locals', point.next⟩) := by
  cases elseBranch with
  | none =>
    cases hrun
    exact ⟨trivial, fun hback => hback, rfl, rfl⟩
  | some branch =>
    obtain ⟨walked, hbranch, rfl⟩ := run_elseStmt_some.mp hrun
    obtain ⟨hall', hback, hpoint, hrun'⟩ :=
      inFrame_matched tracks (h branch rfl) hall hlocals .block hbranch
    exact ⟨hall', hback, hpoint, run_elseStmt_some.mpr ⟨_, hrun', rfl⟩⟩

theorem stmt_matched (tracks : Tracks model model' m ρ Q D)
    (hvisit : VisitTransport m ρ P Q D B C visit visit') (statement : Stmt) :
    Matched model model' m ρ P Q D B C E visit visit' statement := by
  induction statement using Stmt.ind with
  | vars span kind decls =>
    intro locals locals' next result point hlocals hall hrun
    obtain ⟨walked, before, hdecls, rfl⟩ := run_stmt_vars.mp hrun
    obtain ⟨hall', hback, hbefore, after, hafter, hrun'⟩ :=
      varDecls_transport tracks hvisit hall hlocals hdecls
    refine ⟨stage_all.mpr ⟨hbefore, hall'⟩, fun hresult => hback (stage_all.mp hresult).2, after,
      hafter, ?_⟩
    rw [stage_map]
    exact run_stmt_vars.mpr ⟨_, _, hrun', rfl⟩
  | expr span value =>
    intro locals locals' next result point hlocals hall hrun
    obtain ⟨walked, before, hvalue, rfl⟩ := run_stmt_expr.mp hrun
    obtain ⟨hall', hback, hbefore, hpoint, hrun'⟩ := atPoint_transport hvisit hlocals hall hvalue
    refine ⟨stage_all.mpr ⟨hbefore, hall'⟩, fun hresult => hback (stage_all.mp hresult).2, locals',
      hpoint ▸ hlocals, ?_⟩
    rw [stage_map]
    exact run_stmt_expr.mpr ⟨_, _, hrun', rfl⟩
  | ret span value =>
    intro locals locals' next result point hlocals hall hrun
    obtain ⟨walked, before, hvalue, rfl⟩ := run_stmt_ret.mp hrun
    obtain ⟨hall', hback, hbefore, hpoint, hrun'⟩ :=
      atPointOption_transport hvisit hlocals hall hvalue
    refine ⟨stage_all.mpr ⟨hbefore, hall'⟩, fun hresult => hback (stage_all.mp hresult).2, locals',
      hpoint ▸ hlocals, ?_⟩
    rw [stage_map]
    exact run_stmt_ret.mpr ⟨_, _, hrun', rfl⟩
  | ifElse span condition thenBranch elseBranch hThen hElse =>
    intro locals locals' next result point hlocals hall hrun
    obtain ⟨hc, ht, he⟩ := hall
    obtain ⟨walked, before, ⟨_, n₁⟩, first, ⟨_, n₂⟩, second, hcond, hthen, helse, rfl⟩ :=
      run_stmt_ifElse.mp hrun
    obtain ⟨hcond', hback₁, hbefore, hp₁, hrun₁⟩ := atPoint_transport hvisit hlocals hc hcond
    obtain rfl : _ = locals := hp₁
    obtain ⟨hthen', hback₂, hp₂, hrun₂⟩ := inFrame_matched tracks hThen ht hlocals .block hthen
    obtain rfl : _ = _ := hp₂
    obtain ⟨helse', hback₃, hp₃, hrun₃⟩ := elseStmt_matched tracks hElse he hlocals helse
    refine ⟨stage_all.mpr ⟨hbefore, hcond', hthen', helse'⟩, ?_, locals', hp₃ ▸ hlocals, ?_⟩
    · intro hresult
      obtain ⟨-, hcondition, hfirst, hsecond⟩ := stage_all.mp hresult
      exact ⟨hback₁ hcondition, hback₂ hfirst, hback₃ hsecond⟩
    · rw [stage_map]
      exact run_stmt_ifElse.mpr ⟨_, _, _, _, _, _, hrun₁, hrun₂, hrun₃, rfl⟩
  | loop span condition body hBody =>
    intro locals locals' next result point hlocals hall hrun
    obtain ⟨walked, before, ⟨_, n₁⟩, inner, hcond, hbody, rfl⟩ := run_stmt_loop.mp hrun
    obtain ⟨hcond', hback₁, hbefore, hp₁, hrun₁⟩ := atPoint_transport hvisit hlocals hall.1 hcond
    obtain rfl : _ = locals := hp₁
    obtain ⟨hbody', hback₂, hp₂, hrun₂⟩ := inFrame_matched tracks hBody hall.2 hlocals .loop hbody
    refine ⟨stage_all.mpr ⟨hbefore, hcond', hbody'⟩, ?_, locals', hp₂ ▸ hlocals, ?_⟩
    · intro hresult
      obtain ⟨-, hcondition, hinner⟩ := stage_all.mp hresult
      exact ⟨hback₁ hcondition, hback₂ hinner⟩
    · rw [stage_map]
      exact run_stmt_loop.mpr ⟨_, _, _, _, hrun₁, hrun₂, rfl⟩
  | brk | cont =>
    intro locals locals' next result point hlocals hall hrun
    cases hrun
    exact ⟨trivial, fun _ => trivial, locals', hlocals, rfl⟩
  | block span body hBody =>
    intro locals locals' next result point hlocals hall hrun
    obtain ⟨inner, hbody, rfl⟩ := run_stmt_block.mp hrun
    obtain ⟨last, hinner, rfl⟩ := run_inFrame.mp hbody
    obtain ⟨hall', hback, after, -, hrun'⟩ :=
      stmts_matched hBody hall (tracks.push .block hlocals) hinner
    refine ⟨hall', hback, locals', hlocals, ?_⟩
    exact run_stmt_block.mpr ⟨_, run_inFrame.mpr ⟨_, hrun', rfl⟩, rfl⟩
  | staged span before body hBefore hBody =>
    intro locals locals' next result point hlocals hall hrun
    obtain ⟨first, ⟨between, n₁⟩, second, hbefore, hbody, rfl⟩ := run_stmt_staged.mp hrun
    obtain ⟨hfirst, hback, after, hafter, hrun₁⟩ := stmts_matched hBefore hall.1 hlocals hbefore
    obtain ⟨hsecond, hback', after', hafter', hrun₂⟩ := hBody _ _ _ _ _ hafter hall.2 hbody
    refine ⟨restage_all.mpr ⟨hfirst, hsecond⟩, ?_, after', hafter', ?_⟩
    · intro hresult
      obtain ⟨hone, htwo⟩ := restage_all.mp hresult
      exact ⟨hback hone, hback' htwo⟩
    · rw [restage_map]
      exact run_stmt_staged.mpr ⟨_, _, _, hrun₁, hrun₂, rfl⟩

end Transport

/-- A walk through a body commutes with a change of expressions if every visit does, leads from one
condition to the other, and loses nothing. -/
theorem walk_transport {model model' : Model} {m : Expr → Expr} {ρ : Locals → Locals → Prop}
    {P Q : Expr → Prop} {D : DeclCondition} {B C : Expr → Prop} {E : DeclCondition}
    {visit visit' : Visit} (tracks : Tracks model model' m ρ Q D)
    (hvisit : VisitTransport m ρ P Q D B C visit visit') {locals locals' : Locals}
    (hlocals : ρ locals locals') {statements result : List Stmt} (hall : AllList P D statements)
    (h : body model visit locals statements = .ok result) :
    AllList Q D result ∧
      body model' visit' locals' (mapList m statements) = .ok (mapList m result) ∧
      (AllList C E result → AllList B E statements) := by
  obtain ⟨point, hrun⟩ := body_eq_ok.mp h
  obtain ⟨hall', hback, after, -, hmatch⟩ := stmts_matched
    (fun statement _ => stmt_matched tracks hvisit statement) hall hlocals hrun
  exact ⟨hall', body_eq_ok.mpr ⟨_, hmatch⟩, hback⟩

end Walk

end NativeLowering
