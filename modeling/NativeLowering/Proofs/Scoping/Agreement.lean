import NativeLowering.Proofs.Emit.Annotated
import NativeLowering.Proofs.Emit.Shapes
import NativeLowering.Proofs.Scoping.Emit
import NativeLowering.Proofs.Scoping.Passes
import NativeLowering.Syntax.Build

/-!
# All walks see the same scopes

A function, method, constructor or destructor is written after the selected passes have gone through
its body. Here this is done with a log of what the passes and the writing see
(`functionLikeLogged`); without the log it is the writing of the declaration
(`functionLikeLogged_erases`). What they see agrees (`functionLike_agree`): an expression is met with
the same variables in scope wherever it is met, and in the text with those of operands besides.
-/

set_option autoImplicit false

namespace NativeLowering

/-- The variables in scope after a parameter. -/
def Param.bind (model : Model) (visible : Bindings) (param : Param) : Bindings :=
  match param.name.ident? with
  | none => visible
  | some name => (name, model.typeFromOption param.type) :: visible

namespace Emit

/-! ## Writing a declaration with a log -/

/-- What is seen of the body of a function, by the passes and by the writing of what they leave. -/
structure FunctionLog where
  passes : PassSet.Log
  emit : Log

section Logged

variable (cx : Context)

/-- Runs the selected passes over a body, writes it, and logs what is seen. -/
def functionBodyLogged (body : List Stmt) (span : Span) : Emit (Unit × FunctionLog) := do
  let locals ← theLocals span
  let (lowered, passes) ←
    cx.options.passes.runLogged cx.model cx.options.destructorPolicy locals body
  let ((_, emit), buffer) ← inScope (.atDepth cx.layout 1) (stmtsLogged cx lowered)
  onRecord span fun record => { record with body := buffer }
  return ((), { passes, emit })

/-- Writes a function, method, constructor or destructor and logs what is seen. -/
def functionLikeLogged (shape : FunctionShape) (span : Span) : Emit (Unit × FunctionLog) := do
  let record := FunctionRecord.new cx.layout shape.returnType shape.qualifier shape.name
  beginFunction record (.start shape.thisClass) shape.visibility span
  params cx shape.params
  let (_, log) ← functionBodyLogged cx shape.body span
  endFunction span
  return ((), log)

end Logged

/-! ### Without the log -/

section Erasing

variable {cx : Context}

theorem lift_erases {α ω : Type} {logged : Lowered (α × ω)} {plain : Lowered α}
    (h : Erases logged plain) : Erases (liftM logged : Emit (α × ω)) (liftM plain) := by
  obtain rfl : Except.map Prod.fst logged = plain := h
  cases logged <;> rfl

theorem functionBodyLogged_erases (body : List Stmt) (span : Span) :
    Erases (functionBodyLogged cx body span) (functionBody cx body span) := by
  refine .after fun locals => (lift_erases (PassSet.runLogged_erases body)).bind ?_
  rintro ⟨lowered, passes⟩
  have hstmts : Prod.fst <$> stmtsLogged cx lowered = stmts cx lowered := stmtsLogged_erases lowered
  dsimp only
  rw [← hstmts, inScope_map, bind_map_left]
  exact .after fun _ => .last _

/-- Without its log the writing of a declaration is that writing. -/
theorem functionLikeLogged_erases (shape : FunctionShape) (span : Span) :
    Erases (functionLikeLogged cx shape span) (functionLike cx shape span) :=
  .after fun _ => .after fun _ => (functionBodyLogged_erases shape.body span).bind fun _ => .last _

/-- A step that succeeds does so with its log. -/
theorem Gives.logged {ω : Type} {logged : Emit (Unit × ω)} {plain : Emit Unit}
    (h : Erases logged plain) {session after : Session} (hgives : Gives plain session () after) :
    ∃ log, Gives logged session ((), log) after := by
  obtain rfl : Prod.fst <$> logged = plain := h
  unfold Gives at hgives ⊢
  rw [run_map] at hgives
  obtain ⟨hresult, hafter⟩ := Prod.mk.inj hgives
  obtain ⟨⟨_, log⟩, hlog, -⟩ := Lowered.map_eq_ok.mp hresult
  exact ⟨log, Prod.ext hlog hafter⟩

end Erasing

/-! ## What the log says -/

section Scoping

variable {cx : Context}

theorem paramRecords_visible : ∀ {params : List Param} {locals after : Locals}
    {records : List ParamRecord}, locals.Open →
    paramRecords cx locals params = .ok (records, after) →
    after.Open ∧ after.visible = params.foldl (Param.bind cx.model) locals.visible
  | [], _, _, _, hopen, h => by
    cases h
    exact ⟨hopen, rfl⟩
  | param :: rest, locals, after, _, hopen, h => by
    obtain ⟨⟨record, between⟩, hparam, h⟩ := Lowered.bind_eq_ok.mp h
    obtain ⟨⟨records, last⟩, hrest, h⟩ := Lowered.bind_eq_ok.mp h
    cases h
    obtain ⟨name, hname, hparam⟩ := Lowered.bind_eq_ok.mp hparam
    obtain ⟨node, hnode, hparam⟩ := Lowered.bind_eq_ok.mp hparam
    obtain ⟨type, -, hparam⟩ := Lowered.bind_eq_ok.mp hparam
    obtain ⟨default, -, hparam⟩ := Lowered.bind_eq_ok.mp hparam
    cases hparam
    obtain ⟨hlast, hvisible⟩ :=
      paramRecords_visible (Locals.declare_frames_ne_nil hopen name _) hrest
    refine ⟨hlast, ?_⟩
    rw [hvisible, Locals.visible_declare hopen, List.foldl_cons, Param.bind, paramName_eq_ok hname,
      paramType_eq_ok hnode]
    rfl

/-- The passes run at the bindings of the open function, and there the body that they leave is
written. -/
theorem functionBodyLogged_gives {session after : Session} {current : OpenFunction}
    {body : List Stmt} {span : Span} {log : FunctionLog} (hopen : session.openFunction = some current)
    (hframe : current.locals.Open)
    (h : Gives (functionBodyLogged cx body span) session ((), log) after) :
    ∃ lowered, cx.options.passes.runLogged cx.model cx.options.destructorPolicy current.locals body
        = .ok (lowered, log.passes) ∧
      log.emit.map Visited.occurrence
        = (Stmt.valuesAll cx.model lowered).found current.locals.visible := by
  simp only [functionBodyLogged, gives_bind, gives_lift, gives_theLocals, gives_pure] at h
  obtain ⟨_, _, ⟨found, hfound, rfl, rfl⟩, ⟨lowered, passes⟩, _, ⟨hlowered, rfl⟩,
    ⟨⟨_, emit⟩, written⟩, between, hscope, _, _, -, hlog, -⟩ := h
  obtain rfl : found = current := Option.some.inj (hfound.symm.trans hopen)
  cases hlog
  obtain ⟨inner, next, outer, hstmts, -⟩ := gives_inScope.mp hscope
  obtain ⟨last, -, -, hsees⟩ := stmtsLogged_spells lowered _ inner found.locals emit
    (by exact congrArg (Option.map OpenFunction.locals) hopen) hframe hstmts
  exact ⟨lowered, hlowered, hsees.occurrences⟩

/-- **All walks see the same scopes.** Wherever an expression of a function is met, by the injection
of receivers, by the materialization of operands or by the writing, the variables in scope are the
same: the parameters, and each variable from the end of its declarator to the end of the block,
branch or loop body around it. Only the writing sees the variables of operands besides. Destructor
synthesis sees these scopes at the declarators. -/
theorem functionLike_agree {session after : Session} {shape : FunctionShape} {span : Span}
    (hidle : Idle cx session) (hgives : Gives (functionLike cx shape span) session () after) :
    ∃ log found, Gives (functionLikeLogged cx shape span) session ((), log) after ∧
      cx.options.passes.Agree cx.model (shape.params.foldl (Param.bind cx.model) []) shape.body
        log.passes found (log.emit.map Visited.occurrence) := by
  obtain ⟨log, hlogged⟩ := hgives.logged (functionLikeLogged_erases shape span)
  -- What is written is annotated, and the passes have dropped no annotation on the way.
  obtain ⟨_, hrecord, -⟩ := functionLike_gives hidle hgives
  obtain ⟨_, locals, lowered, draft, hparams, hlowered, hdraft, -⟩ := functionRecordWith_eq_ok.mp hrecord
  -- The steps of the logged writing, from the parameters to the body.
  have hsteps := hlogged
  simp only [functionLikeLogged, gives_bind, gives_beginFunction, gives_pure] at hsteps
  obtain ⟨_, _, ⟨-, rfl⟩, _, _, hentered, ⟨_, found⟩, _, hbody, _, _, -, hlog, -⟩ := hsteps
  cases hlog
  obtain ⟨_, _, hrecords, rfl⟩ := params_gives (by exact hidle.layout) rfl hentered
  cases hparams.symm.trans hrecords
  obtain ⟨hframe, hvisible⟩ := paramRecords_visible (.start shape.thisClass) hparams
  obtain ⟨written, hpasses, hemit⟩ := functionBodyLogged_gives rfl hframe hbody
  have hwritten : loweredBody cx locals shape.body = .ok written :=
    (PassSet.runLogged_erases shape.body).eq_ok.mpr ⟨_, hpasses⟩
  cases hlowered.symm.trans hwritten
  obtain ⟨found, hagree⟩ := PassSet.runLogged_agree hframe (Draft.stmts_annotated hdraft) hpasses
  rw [← hemit, hvisible] at hagree
  exact ⟨_, found, hlogged, hagree⟩

end Scoping

/-! ## Boxes -/

/-- A class with value semantics that has a destructor, and a function that makes an instance. -/
def boxes : Program :=
  ⟨[Build.declaredFunction "addressof" [] (Build.keyword .number),
    Build.valueClass "Box" [Build.method "destructor" [] Build.void [],
      Build.method "open" [] Build.void []],
    Build.declaredFunction "make" [] (Build.type "Box")]⟩

def opening (box : Expr) : Stmt := Build.exprStmt (Build.methodCall box "open" [])

/-- A function that opens a box in a block, or else one that no variable holds. -/
def opener : FunctionShape :=
  { returnType := some "void", qualifier := none, name := "tscc_main"
    params := [Build.param "wide" (Build.keyword .boolean)]
    body :=
      [Build.letVar "box" (some (Build.type "Box")) (some (Build.call (Build.ident "make") [])),
        Build.ifElse (Build.ident "wide")
          (Build.block [Build.letVar "inner" (some (Build.type "Box")) none,
            opening (Build.ident "inner")])
          (some (opening (Build.call (Build.ident "make") [])))]
    thisClass := none, visibility := none }

theorem functionLike_agree_opener : ∃ model after log found,
    Model.build boxes [] = .ok model ∧
      Gives (functionLike ⟨model, { passes := .all }⟩ opener {}) (.start {}) () after ∧
      Gives (functionLikeLogged ⟨model, { passes := .all }⟩ opener {}) (.start {}) ((), log) after ∧
      PassSet.all.Agree model (opener.params.foldl (Param.bind model) []) opener.body log.passes found
        (log.emit.map Visited.occurrence) := by
  have hready : (Model.build boxes []).toOption.map (fun model : TypedModel =>
      ((functionLike ⟨model, { passes := .all }⟩ opener {}).run (.start {})).1.toOption)
      = some (some ()) := by decide +kernel
  cases hbuild : Model.build boxes [] with
  | error e =>
    rw [hbuild] at hready
    cases hready
  | ok model =>
    rw [hbuild] at hready
    have hwritten := Option.some.inj hready
    dsimp only at hwritten
    cases hrun : (functionLike ⟨model, { passes := .all }⟩ opener {}).run (.start {}) with
    | mk result after =>
      rw [hrun] at hwritten
      cases result with
      | error e => cases hwritten
      | ok value =>
        obtain ⟨log, found, hlogged, hagree⟩ :=
          @functionLike_agree ⟨model, { passes := .all }⟩ _ _ _ _ ⟨rfl, rfl⟩ hrun
        exact ⟨model, after, log, found, rfl, hrun, hlogged, hagree⟩

/-- The names of the variables that are seen in the opener: by the synthesis of destructor calls at
the declarators, by the injection, by the materialization and by the writing. -/
def openerNames : Option (List (List (List String))) := do
  let model ← (Model.build boxes []).toOption
  let cx : Context := ⟨model, { passes := .all }⟩
  let (_, log) ← ((functionLikeLogged cx opener {}).run (.start {})).1.toOption
  let names (seen : List Locals) := seen.map fun locals => locals.visible.map Prod.fst
  return [names (log.passes.cleanup.map Visited.locals), names (log.passes.receiver.map Visited.locals),
    names (log.passes.address.map Visited.locals), names (log.emit.map Visited.locals)]

/-- The last expressions are the branch without a block, where only the writing sees the variable of
the operand, and the destruction of the outer box. -/
example : openerNames = some
    [[["wide"], ["box", "wide"]],
      [["wide"], ["box", "wide"], ["inner", "box", "wide"], ["inner", "box", "wide"],
        ["box", "wide"], ["box", "wide"]],
      [["wide"], ["box", "wide"], ["inner", "box", "wide"], ["inner", "box", "wide"],
        ["box", "wide"], ["box", "wide"]],
      [["wide"], ["box", "wide"], ["inner", "box", "wide"], ["inner", "box", "wide"],
        ["_tscc_temp_1", "box", "wide"], ["box", "wide"]]] := by decide +kernel

end Emit

end NativeLowering
