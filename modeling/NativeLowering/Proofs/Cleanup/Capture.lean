import NativeLowering.Proofs.Cleanup.Paths
import NativeLowering.Proofs.Model.Typed
import NativeLowering.Proofs.Syntax.Bodies

/-!
# Which binding an added call destroys

An added call names its variable, and the name is looked up where the call stands. The pass keeps
bare names, so the lookup can meet another variable: one that was declared later under the same
name and is still in scope at the call. This file says that nothing else can go wrong.

Bindings are told apart by their rank (`Target.rank`), the number of bindings visible from one
downwards. `callPoints` collects the added calls of a marked body together with the local
bindings at the places where they stand, from a walk that knows only about frames and
declarations. Where a call stands, the binding that its declaration made is still there, with the
type that was declared (`Target.HeldBy`); so the call meets it exactly if no younger binding has
its name (`run_call_meets_own_binding_iff`). The condition can fail (`returnPast_captured`).
-/

set_option autoImplicit false

namespace NativeLowering

namespace Locals

/-- The rank of the first binding of a name: how many bindings there are from it on. -/
def rankIn (name : String) : List (String × Ty) → Option Nat
  | [] => none
  | binding :: older =>
    if name == binding.1 then some (older.length + 1) else rankIn name older

/-- The rank of the binding that a lookup of the name meets. -/
def rankOf? (locals : Locals) (name : String) : Option Nat := rankIn name locals.visible

/-- The bindings that were made after the one of the given rank. -/
def younger (locals : Locals) (rank : Nat) : List (String × Ty) :=
  locals.visible.take (locals.visible.length - rank)

/-- Below a binding of the name the rank is that binding's, unless a younger one comes first. -/
theorem rankIn_append_iff (name : String) (type : Ty) (newer older : List (String × Ty)) :
    rankIn name (newer ++ (name, type) :: older) = some (older.length + 1) ↔
      ∀ binding ∈ newer, binding.1 ≠ name := by
  induction newer with
  | nil => simp [rankIn]
  | cons first rest ih =>
    by_cases hn : name = first.1
    · -- The first binding is met, and its rank is too high.
      subst hn
      simp only [List.cons_append, rankIn, beq_self_eq_true, if_true, Option.some.injEq,
        List.length_append, List.length_cons, List.mem_cons]
      constructor
      · intro h
        omega
      · intro h
        exact absurd rfl (h first (Or.inl rfl))
    · simp only [List.cons_append, rankIn, beq_iff_eq, hn, if_false, ih, List.mem_cons]
      constructor
      · rintro h binding (rfl | hm)
        · exact fun he => hn he.symm
        · exact h binding hm
      · intro h binding hm
        exact h binding (Or.inr hm)

theorem lookup_append {name : String} {type : Ty} {newer older : List (String × Ty)}
    (h : ∀ binding ∈ newer, binding.1 ≠ name) :
    (newer ++ (name, type) :: older).lookup name = some type := by
  induction newer with
  | nil => simp
  | cons first rest ih =>
    have hn : (name == first.1) = false := by
      rw [beq_eq_false_iff_ne]
      exact fun he => h first (by simp) he.symm
    rw [List.cons_append, List.lookup_cons, hn]
    exact ih fun binding hm => h binding (by simp [hm])

end Locals

namespace Cleanup

open Marked (ofStmt ofOption ofStmts)

/-! ## Where the added calls stand -/

/-- An added call, with the bindings in scope where it stands. -/
structure CallPoint where
  target : Target
  locals : Locals

mutual

/-- The bindings in scope after a statement. -/
def Marked.localsAfter (model : Model) : Locals → Marked → Locals
  | locals, .vars _ _ decls => decls.foldl (declareLocal model) locals
  | locals, .staged _ before body =>
    Marked.localsAfter model (localsAfterAll model locals before) body
  | locals, _ => locals

/-- The bindings in scope after statements. -/
def localsAfterAll (model : Model) : Locals → List Marked → Locals
  | locals, [] => locals
  | locals, stmt :: rest => localsAfterAll model (Marked.localsAfter model locals stmt) rest

end

/-- A branch or loop body that is a block opens the frame itself; a single statement stands in a
frame that is opened around it. -/
def branchPoints (branch : Marked) (asBlock asSingle : List CallPoint) : List CallPoint :=
  match branch with
  | .block .. => asBlock
  | _ => asSingle

mutual

/-- The added calls of a statement. The kind is that of the frame which the statement opens if it
is a block. -/
def stmtPoints (model : Model) : Locals → FrameKind → Marked → List CallPoint
  | locals, _, .added _ target => [{ target, locals }]
  | locals, _, .ifElse _ _ thenBranch elseBranch =>
    branchPoints thenBranch (stmtPoints model locals .block thenBranch)
        (stmtPoints model (locals.push .block) .block thenBranch) ++
      elsePoints model locals elseBranch
  | locals, _, .loop _ _ body =>
    branchPoints body (stmtPoints model locals .loop body)
      (stmtPoints model (locals.push .loop) .block body)
  | locals, kind, .block _ body => callPoints model (locals.push kind) body
  | locals, _, .staged _ before body =>
    callPoints model locals before ++
      stmtPoints model (localsAfterAll model locals before) .block body
  | _, _, _ => []

/-- The added calls of the branch taken otherwise, if there is one. -/
def elsePoints (model : Model) : Locals → Option Marked → List CallPoint
  | _, none => []
  | locals, some branch =>
    branchPoints branch (stmtPoints model locals .block branch)
      (stmtPoints model (locals.push .block) .block branch)

/-- The added calls of statements. -/
def callPoints (model : Model) : Locals → List Marked → List CallPoint
  | _, [] => []
  | locals, stmt :: rest =>
    stmtPoints model locals .block stmt ++
      callPoints model (Marked.localsAfter model locals stmt) rest

end

/-! ## What holds at every call -/

/-- The binding that the declaration of a variable made is among the visible ones. Without a frame
to put it in, a declaration makes no binding; the rank is 0 then. -/
def Target.HeldBy (target : Target) (locals : Locals) : Prop :=
  0 < target.rank → ∃ newer older,
    locals.visible = newer ++ (target.name, target.type) :: older ∧
      target.rank = older.length + 1

/-- What holds of a tracked variable for as long as its frame is open. The proposition says that
the body started with a frame. -/
structure Target.Fit (model : Model) (policy : DestructorPolicy) (framed : Prop)
    (locals : Locals) (target : Target) : Prop where
  held : target.HeldBy locals
  ranked : framed → 0 < target.rank
  destructible : isDestructible model policy target.type = true

/-- What holds of the scope of the pass at every point. -/
structure MarkedScope.Fit (model : Model) (policy : DestructorPolicy) (framed : Prop)
    (scope : MarkedScope) : Prop where
  frame : framed → scope.locals.frames ≠ []
  targets : ∀ frame ∈ scope.frames, ∀ target ∈ frame.targets,
    target.Fit model policy framed scope.locals

section Invariant

variable {model : Model} {policy : DestructorPolicy} {framed : Prop}

theorem Target.HeldBy.declare {target : Target} {locals : Locals} (h : target.HeldBy locals)
    (name : String) (type : Ty) : target.HeldBy (locals.declare name type) := by
  intro hrank
  obtain ⟨newer, older, hvis, hr⟩ := h hrank
  by_cases hf : locals.frames = []
  · rw [Locals.declare_of_no_frame hf]
    exact ⟨newer, older, hvis, hr⟩
  · refine ⟨(name, type) :: newer, older, ?_, hr⟩
    rw [Locals.visible_declare hf, hvis, List.cons_append]

/-- A variable that has just been declared is held. -/
theorem Target.heldBy_own (locals : Locals) (name : String) (type : Ty) :
    Target.HeldBy ⟨name, type, (locals.declare name type).visible.length⟩
      (locals.declare name type) := by
  intro hrank
  by_cases hf : locals.frames = []
  · have hvis : locals.visible = [] := by simp [Locals.visible, hf]
    simp [Locals.declare_of_no_frame hf, hvis] at hrank
  · exact ⟨[], locals.visible, Locals.visible_declare hf name type,
      by simp [Locals.visible_declare hf]⟩

theorem MarkedScope.Fit.start (locals : Locals) :
    (MarkedScope.start locals).Fit model policy (locals.frames ≠ []) := by
  refine ⟨id, fun frame hf target ht => ?_⟩
  simp only [MarkedScope.start, MarkedScope.frames, List.mem_singleton] at hf
  subst hf
  cases ht

theorem MarkedScope.Fit.enter {scope : MarkedScope} (h : scope.Fit model policy framed)
    (kind : FrameKind) : (scope.enter kind).Fit model policy framed := by
  refine ⟨fun _ => by simp [MarkedScope.enter, Locals.push], fun frame hf target ht => ?_⟩
  rcases List.mem_cons.mp hf with rfl | hf
  · cases ht
  · obtain ⟨held, ranked, destructible⟩ := h.targets frame hf target ht
    exact ⟨held, ranked, destructible⟩

theorem MarkedScope.Fit.declare {scope : MarkedScope} (h : scope.Fit model policy framed)
    (decl : VariableDecl) : (scope.declare model policy decl).Fit model policy framed := by
  unfold MarkedScope.declare
  cases decl.name.ident? with
  | none => exact h
  | some name =>
    have hframe (hf : framed) := Locals.declare_frames_ne_nil (h.frame hf) name
      (model.declaredType scope.locals decl)
    -- What was tracked before is held below the new binding.
    have hold : ∀ frame ∈ scope.frames, ∀ target ∈ frame.targets, target.Fit model policy framed
        (scope.locals.declare name (model.declaredType scope.locals decl)) :=
      fun frame hf target ht =>
        { h.targets frame hf target ht with
          held := (h.targets frame hf target ht).held.declare name _ }
    by_cases hd : isDestructible model policy (model.declaredType scope.locals decl) = true
    · simp only [hd, if_true]
      refine ⟨hframe, fun frame hf target ht => ?_⟩
      rcases List.mem_cons.mp hf with rfl | hf
      · rcases List.mem_cons.mp ht with rfl | ht
        · refine ⟨Target.heldBy_own scope.locals name _, fun hfr => ?_, hd⟩
          simp [Locals.visible_declare (h.frame hfr)]
        · exact hold scope.frame (by simp [MarkedScope.frames]) target ht
      · exact hold frame (by simp [MarkedScope.frames, hf]) target ht
    · simp only [hd]
      exact ⟨hframe, hold⟩

/-! ## Statement by statement -/

theorem callPoints_eq_nil_of_forall {stmts : List Stmt}
    (h : ∀ stmt ∈ stmts, ∀ locals kind, stmtPoints model locals kind (ofStmt stmt) = []) :
    ∀ locals, callPoints model locals (ofStmts stmts) = [] := by
  induction stmts with
  | nil => intro locals; rfl
  | cons stmt rest ih =>
    intro locals
    rw [ofStmts, callPoints, h stmt (by simp), ih fun other hm => h other (by simp [hm])]
    rfl

theorem branchPoints_nil (branch : Marked) : branchPoints branch [] [] = [] := by
  cases branch <;> rfl

/-- Nothing is added to code that is left alone. -/
theorem stmtPoints_ofStmt (stmt : Stmt) :
    ∀ locals kind, stmtPoints model locals kind (ofStmt stmt) = [] := by
  induction stmt using Stmt.ind with
  | vars | expr | ret | brk | cont => intro locals kind; rfl
  | ifElse span condition thenBranch elseBranch hThen hElse =>
    intro locals kind
    cases elseBranch with
    | none => simp [ofStmt, ofOption, stmtPoints, elsePoints, hThen, branchPoints_nil]
    | some branch =>
      simp [ofStmt, ofOption, stmtPoints, elsePoints, hThen, hElse branch rfl, branchPoints_nil]
  | loop span condition body hBody =>
    intro locals kind
    simp [ofStmt, stmtPoints, hBody, branchPoints_nil]
  | block span body hBody =>
    intro locals kind
    exact callPoints_eq_nil_of_forall hBody (locals.push kind)
  | staged span before body hBefore hBody =>
    intro locals kind
    simp [ofStmt, stmtPoints, callPoints_eq_nil_of_forall hBefore, hBody]

theorem mem_exitTargets {exit : Exit} {target : Target} :
    ∀ {frames : List MarkedFrame}, target ∈ exitTargets exit frames →
      ∃ frame ∈ frames, target ∈ frame.targets
  | [], h => nomatch h
  | frame :: outer, h => by
    rw [exitTargets, List.mem_append] at h
    rcases h with h | h
    · exact ⟨frame, by simp, h⟩
    · split at h
      · cases h
      · obtain ⟨other, hm, ht⟩ := mem_exitTargets h
        exact ⟨other, by simp [hm], ht⟩

theorem mem_callPoints_addedCalls {span : Span} {locals : Locals} {rest : List Marked}
    {point : CallPoint} : ∀ {targets : List Target},
      point ∈ callPoints model locals (addedCalls span targets ++ rest) →
      (∃ target ∈ targets, point = ⟨target, locals⟩) ∨ point ∈ callPoints model locals rest
  | [], h => Or.inr h
  | target :: targets, h => by
    simp only [addedCalls, List.map_cons, List.cons_append, callPoints, stmtPoints,
      Marked.localsAfter, List.nil_append, List.mem_cons] at h
    rcases h with rfl | h
    · exact Or.inl ⟨target, by simp, rfl⟩
    · rcases mem_callPoints_addedCalls h with ⟨other, hm, hp⟩ | h
      · exact Or.inl ⟨other, by simp [hm], hp⟩
      · exact Or.inr h

/-- What holds of the calls of a list of statements, whatever scope it stands in. -/
def ListFit (model : Model) (policy : DestructorPolicy) (framed : Prop) (stmts : List Stmt) :
    Prop :=
  ∀ {scope : MarkedScope} {span : Span}, scope.Fit model policy framed →
    ∀ point ∈ callPoints model scope.locals (markStatements model policy scope span stmts),
      point.target.Fit model policy framed point.locals

/-- What holds of the calls of a statement and of the scope after it. -/
def StmtFit (model : Model) (policy : DestructorPolicy) (framed : Prop) (stmt : Stmt) : Prop :=
  ∀ {scope : MarkedScope} (kind : FrameKind), scope.Fit model policy framed →
    (∀ point ∈ stmtPoints model scope.locals kind (markStatement model policy scope kind stmt).1,
      point.target.Fit model policy framed point.locals) ∧
    (markStatement model policy scope kind stmt).2.Fit model policy framed ∧
    Marked.localsAfter model scope.locals (markStatement model policy scope kind stmt).1
      = (markStatement model policy scope kind stmt).2.locals

theorem nil_fit : ListFit model policy framed [] := by
  intro scope span hscope point hp
  have hp' : point ∈ callPoints model scope.locals
      (addedCalls span scope.frame.targets ++ []) := by
    simpa [markStatements, MarkedScope.endCalls] using hp
  rcases mem_callPoints_addedCalls hp' with ⟨target, hm, rfl⟩ | hp'
  · exact hscope.targets scope.frame (by simp [MarkedScope.frames]) target hm
  · cases hp'

theorem cons_fit {stmt : Stmt} {rest : List Stmt} (hs : StmtFit model policy framed stmt)
    (hr : ListFit model policy framed rest) : ListFit model policy framed (stmt :: rest) := by
  intro scope span hscope point hp
  rw [markStatements] at hp
  cases hexit : exitOf? stmt with
  | some exit =>
    rw [hexit] at hp
    rcases mem_callPoints_addedCalls hp with ⟨target, hm, rfl⟩ | hp
    · obtain ⟨frame, hf, ht⟩ := mem_exitTargets hm
      exact hscope.targets frame hf target ht
    · have hnil : callPoints model scope.locals (ofStmts (stmt :: rest)) = [] :=
        callPoints_eq_nil_of_forall (fun other _ => stmtPoints_ofStmt other) _
      rw [show ofStmt stmt :: ofStmts rest = ofStmts (stmt :: rest) from rfl, hnil] at hp
      exact nomatch hp
  | none =>
    rw [hexit] at hp
    obtain ⟨hpoints, hafter, hlocals⟩ := hs .block hscope
    simp only [callPoints, List.mem_append] at hp
    rcases hp with hp | hp
    · exact hpoints point hp
    · rw [hlocals] at hp
      exact hr hafter point hp

theorem list_fit_of_forall {stmts : List Stmt}
    (h : ∀ stmt ∈ stmts, StmtFit model policy framed stmt) :
    ListFit model policy framed stmts := by
  induction stmts with
  | nil => exact nil_fit
  | cons stmt rest ih =>
    exact cons_fit (h stmt (by simp)) (ih fun other hm => h other (by simp [hm]))

/-- A branch is a block after the pass, and its calls are those of the block's statements. -/
theorem branch_fit {stmt : Stmt} (h : StmtFit model policy framed stmt) {scope : MarkedScope}
    (hscope : scope.Fit model policy framed) (kind : FrameKind) :
    let branch := markBranch scope kind stmt (markStatement model policy scope kind stmt)
      (markStatement model policy (scope.enter kind) .block stmt)
    ∀ point ∈ branchPoints branch (stmtPoints model scope.locals kind branch)
        (stmtPoints model (scope.locals.push kind) .block branch),
      point.target.Fit model policy framed point.locals := by
  intro branch point hp
  simp only [branch, markBranch_eq, branchPoints, stmtPoints] at hp
  cases stmt with
  | block span body => exact (h kind hscope).1 point hp
  | _ => exact cons_fit h nil_fit (hscope.enter kind) point hp

theorem declare_locals (scope : MarkedScope) (decl : VariableDecl) :
    (scope.declare model policy decl).locals = declareLocal model scope.locals decl := by
  unfold MarkedScope.declare declareLocal
  cases decl.name.ident? with
  | none => rfl
  | some name =>
    by_cases hd : isDestructible model policy (model.declaredType scope.locals decl) = true
    · simp [hd]
    · simp [hd]

theorem vars_fit {decls : List VariableDecl} : ∀ {scope : MarkedScope},
    scope.Fit model policy framed →
      (decls.foldl (MarkedScope.declare model policy) scope).Fit model policy framed ∧
      decls.foldl (declareLocal model) scope.locals
        = (decls.foldl (MarkedScope.declare model policy) scope).locals := by
  induction decls with
  | nil => exact fun hscope => ⟨hscope, rfl⟩
  | cons decl rest ih =>
    intro scope hscope
    have hlocals : declareLocal model scope.locals decl = (scope.declare model policy decl).locals :=
      (declare_locals scope decl).symm
    rw [List.foldl_cons, List.foldl_cons, hlocals]
    exact ih (hscope.declare decl)

theorem staged_fit {before : List Stmt} (h : ∀ stmt ∈ before, StmtFit model policy framed stmt) :
    ∀ {scope : MarkedScope}, scope.Fit model policy framed →
      (∀ point ∈ callPoints model scope.locals (markStaged model policy scope before).1,
        point.target.Fit model policy framed point.locals) ∧
      (markStaged model policy scope before).2.Fit model policy framed ∧
      localsAfterAll model scope.locals (markStaged model policy scope before).1
        = (markStaged model policy scope before).2.locals := by
  induction before with
  | nil => exact fun hscope => ⟨fun point hp => (nomatch hp), hscope, rfl⟩
  | cons stmt rest ih =>
    intro scope hscope
    obtain ⟨hpoints, hafter, hlocals⟩ := h stmt (by simp) .block hscope
    obtain ⟨hrest, hend, hendLocals⟩ := ih (fun other hm => h other (by simp [hm])) hafter
    refine ⟨fun point hp => ?_, hend, ?_⟩
    · simp only [markStaged, callPoints, hlocals, List.mem_append] at hp
      rcases hp with hp | hp
      · exact hpoints point hp
      · exact hrest point hp
    · simp only [markStaged, localsAfterAll, hlocals]
      exact hendLocals

theorem stmt_fit (stmt : Stmt) : StmtFit model policy framed stmt := by
  induction stmt using Stmt.ind with
  | vars span form decls =>
    intro scope kind hscope
    obtain ⟨hafter, hlocals⟩ := vars_fit hscope
    exact ⟨fun point hp => (nomatch hp), hafter, hlocals⟩
  | expr | ret | brk | cont =>
    intro scope kind hscope
    exact ⟨fun point hp => (nomatch hp), hscope, rfl⟩
  | ifElse span condition thenBranch elseBranch hThen hElse =>
    intro scope kind hscope
    refine ⟨fun point hp => ?_, hscope, rfl⟩
    simp only [markStatement, stmtPoints, List.mem_append] at hp
    rcases hp with hp | hp
    · exact branch_fit hThen hscope .block point hp
    · cases elseBranch with
      | none => exact nomatch hp
      | some branch => exact branch_fit (hElse branch rfl) hscope .block point hp
  | loop span condition body hBody =>
    intro scope kind hscope
    refine ⟨fun point hp => ?_, hscope, rfl⟩
    exact branch_fit hBody hscope .loop point hp
  | block span body hBody =>
    intro scope kind hscope
    refine ⟨fun point hp => ?_, hscope, rfl⟩
    exact list_fit_of_forall hBody (hscope.enter kind) point hp
  | staged span before body hBefore hBody =>
    intro scope kind hscope
    obtain ⟨hpoints, hafter, hlocals⟩ := staged_fit hBefore hscope
    obtain ⟨hbody, hend, hendLocals⟩ := hBody .block hafter
    refine ⟨fun point hp => ?_, hend, ?_⟩
    · simp only [markStatement, stmtPoints, hlocals, List.mem_append] at hp
      rcases hp with hp | hp
      · exact hpoints point hp
      · exact hbody point hp
    · simp only [markStatement, Marked.localsAfter, hlocals]
      exact hendLocals

end Invariant

theorem mark_calls_fit (model : Model) (policy : DestructorPolicy) (locals : Locals)
    (body : List Stmt) :
    ∀ point ∈ callPoints model locals (mark model policy locals body),
      point.target.Fit model policy (locals.frames ≠ []) point.locals := by
  have hbody : ListFit model policy (locals.frames ≠ []) body :=
    list_fit_of_forall fun stmt _ => stmt_fit stmt
  exact hbody (MarkedScope.Fit.start locals)

/-! ## Which binding a name meets -/

theorem rankIn_pos {name : String} {rank : Nat} : ∀ {bindings : List (String × Ty)},
    Locals.rankIn name bindings = some rank → 0 < rank
  | [], h => nomatch h
  | binding :: older, h => by
    rw [Locals.rankIn] at h
    split at h
    · simp only [Option.some.injEq] at h
      omega
    · exact rankIn_pos h

/-- The bindings younger than a held variable are those in front of it. -/
theorem Target.younger_eq {target : Target} {locals : Locals} {newer older : List (String × Ty)}
    (hvis : locals.visible = newer ++ (target.name, target.type) :: older)
    (hrank : target.rank = older.length + 1) : locals.younger target.rank = newer := by
  have hlen : (newer ++ (target.name, target.type) :: older).length - target.rank
      = newer.length := by
    simp only [List.length_append, List.length_cons]
    omega
  rw [Locals.younger, hvis, hlen, List.take_left]

theorem Target.HeldBy.rankOf?_eq_iff {target : Target} {locals : Locals}
    (h : target.HeldBy locals) :
    locals.rankOf? target.name = some target.rank ↔
      0 < target.rank ∧ ∀ binding ∈ locals.younger target.rank, binding.1 ≠ target.name := by
  by_cases hpos : 0 < target.rank
  · obtain ⟨newer, older, hvis, hrank⟩ := h hpos
    rw [Target.younger_eq hvis hrank, Locals.rankOf?, hvis, hrank, Locals.rankIn_append_iff]
    simp
  · constructor
    · intro hr
      exact absurd (rankIn_pos hr) hpos
    · intro hr
      exact absurd hr.1 hpos

theorem Target.HeldBy.typeOf_eq {target : Target} {locals : Locals} (h : target.HeldBy locals)
    (hmeets : locals.rankOf? target.name = some target.rank) (model : Model) [model.Typed]
    (span : Span) :
    model.typeOf locals (.ident span target.name) = target.type := by
  obtain ⟨hpos, hnone⟩ := h.rankOf?_eq_iff.mp hmeets
  obtain ⟨newer, older, hvis, hrank⟩ := h hpos
  rw [Target.younger_eq hvis hrank] at hnone
  have hlookup : locals.lookup? target.name = some target.type := by
    rw [Locals.lookup?, hvis, Locals.lookup_append hnone]
  rw [model.typeOf_ident, hlookup, Option.getD_some]

/-- **An added call destroys its own variable exactly if no younger binding hides it.** Wherever a
call stands, the variable that it was added for is still in scope and has a type that the policy
destroys, and a body with a frame to start in has bound it. A lookup of the name from there meets
its binding if and only if none of the bindings made since has that name, and then the receiver of
the call has the type that was declared. -/
theorem run_call_meets_own_binding_iff (model : TypedModel) (policy : DestructorPolicy)
    (locals : Locals) (body : List Stmt) :
    Marked.eraseAll (mark model policy locals body) = run model policy locals body ∧
      ∀ point ∈ callPoints model locals (mark model policy locals body),
        point.target.HeldBy point.locals ∧
        isDestructible model policy point.target.type = true ∧
        (locals.frames ≠ [] → 0 < point.target.rank) ∧
        (point.locals.rankOf? point.target.name = some point.target.rank ↔
          0 < point.target.rank ∧
            ∀ binding ∈ point.locals.younger point.target.rank, binding.1 ≠ point.target.name) ∧
        (point.locals.rankOf? point.target.name = some point.target.rank →
          ∀ span, model.typeOf point.locals (.ident span point.target.name)
            = point.target.type) := by
  refine ⟨eraseAll_mark .., fun point hp => ?_⟩
  obtain ⟨held, ranked, destructible⟩ := mark_calls_fit model policy locals body point hp
  exact ⟨held, destructible, ranked, held.rankOf?_eq_iff,
    fun hmeets => held.typeOf_eq hmeets model⟩

/-- A return out of a block that has a variable of its own. -/
def returnPast (inner : Stmt) : List Stmt :=
  [declareAs "x" "Foo", .block {} [inner, .ret {} none]]

/-- A return past `y` that destroys `x`: the call stands below the binding of `y` and meets the
binding of `x` all the same. -/
theorem run_call_meets_own_binding_iff_returnPast :
    ∃ point ∈ callPoints fooModel (.start none)
        (mark fooModel .allClasses (.start none) (returnPast (declareAs "y" "Foo"))),
      point.target.name = "x" ∧ point.locals.younger point.target.rank = [("y", .classTy "Foo")] ∧
      point.locals.rankOf? "x" = some point.target.rank ∧
      fooModel.typeOf point.locals (.ident {} "x") = .classTy "Foo" := by
  refine ⟨⟨⟨"x", .classTy "Foo", 1⟩, ⟨[⟨.block, [("y", .classTy "Foo")]⟩,
    ⟨.function, [("x", .classTy "Foo")]⟩], none⟩⟩, ?_, rfl, rfl, rfl, ?_⟩
  · exact List.mem_cons_of_mem _ (List.mem_cons_self ..)
  · exact ((run_call_meets_own_binding_iff fooModel .allClasses (.start none)
      (returnPast (declareAs "y" "Foo"))).2 _
        (List.mem_cons_of_mem _ (List.mem_cons_self ..))).2.2.2.2 rfl {}

/-- A return past another `x`, whose type is no class: the call that is to destroy the instance
meets the younger binding, and its receiver does not have the class whose destructor is meant. -/
theorem returnPast_captured :
    ∃ point ∈ callPoints fooModel (.start none)
        (mark fooModel .allClasses (.start none) (returnPast (declareAs "x" "Text"))),
      point.target.name = "x" ∧ point.target.type = .classTy "Foo" ∧
      point.locals.rankOf? "x" ≠ some point.target.rank ∧
      fooModel.typeOf point.locals (.ident {} "x") ≠ .classTy "Foo" := by
  refine ⟨⟨⟨"x", .classTy "Foo", 1⟩, ⟨[⟨.block, [("x", .named "Text")]⟩,
    ⟨.function, [("x", .classTy "Foo")]⟩], none⟩⟩, ?_, rfl, rfl, nofun, nofun⟩
  exact List.mem_cons_self ..

end Cleanup
end NativeLowering
