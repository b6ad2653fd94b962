import Mathlib
import NativeLowering.Emit.Session

/-!
# What a step of a session does

`Emit.Gives step session value after` says that a step, run in a session, succeeds with a value and
leaves another session. For each operation of a session one equivalence says exactly when that
is so, and the proofs about writing statements and declarations take a step apart with these and
never look at the monad again. `Emit.Fails step session e` says that the step fails with an error,
whatever it leaves.

A step that runs another one and closes what it opened also on failure (`inScope`, `asStatement`,
`inPrelude`) succeeds only if the inner step does. For these steps the last section says what is
left when the inner step fails.
-/

set_option autoImplicit false

namespace NativeLowering
namespace Emit

variable {α β : Type} {session after : Session}

/-- The step succeeds in the session with the value, and leaves the second session. -/
def Gives (step : Emit α) (session : Session) (value : α) (after : Session) : Prop :=
  step.run session = (.ok value, after)

/-! ## The monad -/

theorem gives_pure {value other : α} :
    Gives (pure value) session other after ↔ other = value ∧ after = session := by
  constructor
  · intro h
    cases h
    exact ⟨rfl, rfl⟩
  · rintro ⟨rfl, rfl⟩
    rfl

theorem run_bind (step : Emit α) (next : α → Emit β) (session : Session) :
    (step >>= next).run session = match step.run session with
      | (.ok middle, between) => (next middle).run between
      | (.error e, between) => (.error e, between) := by
  change (ExceptT.bindCont next (step.run session).1).run (step.run session).2 = _
  rcases step.run session with ⟨result, between⟩
  cases result with
  | ok middle => rfl
  | error e => rfl

theorem gives_bind {step : Emit α} {next : α → Emit β} {value : β} :
    Gives (step >>= next) session value after ↔
      ∃ middle between, Gives step session middle between ∧
        Gives (next middle) between value after := by
  unfold Gives
  rw [run_bind]
  rcases step.run session with ⟨result, between⟩
  cases result with
  | ok middle =>
    constructor
    · intro h
      exact ⟨middle, between, rfl, h⟩
    · rintro ⟨_, _, h, h'⟩
      cases h
      exact h'
  | error e =>
    constructor
    · intro h
      cases h
    · rintro ⟨_, _, h, _⟩
      cases h

theorem gives_throw {e : LoweringError} {value : α} :
    ¬ Gives (throw e) session value after := nofun

/-- A step that leaves the session as it was gives what it computes. -/
theorem gives_computed {step : Emit α} {computed : Lowered α} {value : α}
    (hrun : step.run session = (computed, session)) :
    Gives step session value after ↔ computed = .ok value ∧ after = session := by
  rw [Gives, hrun, Prod.mk.injEq, eq_comm (b := after)]

theorem gives_lift {result : Lowered α} {value : α} :
    Gives (liftM result) session value after ↔ result = .ok value ∧ after = session :=
  gives_computed rfl

theorem gives_ofLowered {result : Lowered α} {value : α} :
    Gives (ofLowered result) session value after ↔ result = .ok value ∧ after = session :=
  gives_lift

theorem gives_attempt {step : Emit α} {result : Lowered α} :
    Gives (attempt step) session result after ↔ step.run session = (result, after) := by
  constructor
  · intro h
    cases h
    rfl
  · intro h
    change (Except.ok (step.run session).1, (step.run session).2) = _
    rw [h]

theorem gives_get {value : Session} :
    Gives get session value after ↔ value = session ∧ after = session := by
  constructor
  · intro h
    cases h
    exact ⟨rfl, rfl⟩
  · rintro ⟨rfl, rfl⟩
    rfl

theorem gives_set {written : Session} {value : Unit} :
    Gives (set written) session value after ↔ after = written := by
  constructor
  · intro h
    cases h
    rfl
  · rintro rfl
    rfl

theorem gives_modify {change : Session → Session} {value : Unit} :
    Gives (modify change) session value after ↔ after = change session := by
  constructor
  · intro h
    cases h
    rfl
  · rintro rfl
    rfl

/-! ## Failure -/

/-- The step fails in the session with the error. -/
def Fails (step : Emit α) (session : Session) (e : LoweringError) : Prop :=
  ∃ after, step.run session = (.error e, after)

theorem gives_or_fails (step : Emit α) (session : Session) :
    (∃ value after, Gives step session value after) ∨ ∃ e, Fails step session e := by
  rcases hrun : step.run session with ⟨result, after⟩
  cases result with
  | ok value => exact .inl ⟨value, after, hrun⟩
  | error e => exact .inr ⟨e, after, hrun⟩

/-- One evaluation shows both that the input of a step is built and that the step succeeds. -/
theorem gives_of_toOption {γ : Type} {built : Lowered γ} {step : γ → Emit α} {value : α}
    (h : built.toOption.map (fun input => ((step input).run session).1.toOption)
      = some (some value)) :
    ∃ input after, built = .ok input ∧ Gives (step input) session value after := by
  cases built with
  | error e => cases h
  | ok input =>
    have hvalue : ((step input).run session).1.toOption = some value := Option.some.inj h
    rcases hrun : (step input).run session with ⟨result, after⟩
    rw [hrun] at hvalue
    cases result with
    | error e => cases hvalue
    | ok other =>
      obtain rfl := Option.some.inj hvalue
      exact ⟨input, after, rfl, hrun⟩

theorem Gives.not_fails {step : Emit α} {value : α} {e : LoweringError}
    (h : Gives step session value after) : ¬ Fails step session e := by
  rintro ⟨_, hrun⟩
  cases h.symm.trans hrun

theorem fails_throw {e e' : LoweringError} :
    Fails (throw e : Emit α) session e' ↔ e' = e := by
  constructor
  · rintro ⟨_, hrun⟩
    cases hrun
    rfl
  · rintro rfl
    exact ⟨session, rfl⟩

theorem fails_computed {step : Emit α} {computed : Lowered α} {e : LoweringError}
    (hrun : step.run session = (computed, session)) :
    Fails step session e ↔ computed = .error e := by
  constructor
  · rintro ⟨_, hrun'⟩
    cases hrun.symm.trans hrun'
    rfl
  · rintro rfl
    exact ⟨session, hrun⟩

theorem not_fails_pure {value : α} {e : LoweringError} :
    ¬ Fails (pure value : Emit α) session e := by
  rintro ⟨_, hrun⟩
  cases hrun

theorem not_fails_modify {change : Session → Session} {e : LoweringError} :
    ¬ Fails (modify change : Emit Unit) session e := by
  rintro ⟨_, hrun⟩
  cases hrun

theorem fails_bind {step : Emit α} {next : α → Emit β} {e : LoweringError} :
    Fails (step >>= next) session e ↔
      Fails step session e ∨
        ∃ middle between, Gives step session middle between ∧ Fails (next middle) between e := by
  unfold Fails Gives
  rw [run_bind]
  rcases step.run session with ⟨result, between⟩
  cases result with
  | ok middle =>
    constructor
    · rintro ⟨after, hrun⟩
      exact .inr ⟨middle, between, rfl, after, hrun⟩
    · rintro (⟨_, hrun⟩ | ⟨_, _, hstep, hnext⟩)
      · cases hrun
      · cases hstep
        exact hnext
  | error e' =>
    constructor
    · rintro ⟨_, hrun⟩
      cases hrun
      exact .inl ⟨between, rfl⟩
    · rintro (⟨_, hrun⟩ | ⟨_, _, hstep, -⟩)
      · cases hrun
        exact ⟨between, rfl⟩
      · cases hstep

theorem fails_computed_bind {step : Emit α} {computed : Lowered α} {next : α → Emit β}
    {e : LoweringError} (hrun : step.run session = (computed, session)) :
    Fails (step >>= next) session e ↔
      computed = .error e ∨ ∃ value, computed = .ok value ∧ Fails (next value) session e := by
  rw [fails_bind, fails_computed hrun]
  refine or_congr_right ?_
  constructor
  · rintro ⟨value, _, hstep, hnext⟩
    obtain ⟨hvalue, rfl⟩ := (gives_computed hrun).mp hstep
    exact ⟨value, hvalue, hnext⟩
  · rintro ⟨value, hvalue, hnext⟩
    exact ⟨value, session, (gives_computed hrun).mpr ⟨hvalue, rfl⟩, hnext⟩

theorem fails_lift_bind {computed : Lowered α} {next : α → Emit β} {e : LoweringError} :
    Fails (liftM computed >>= next) session e ↔
      computed = .error e ∨ ∃ value, computed = .ok value ∧ Fails (next value) session e :=
  fails_computed_bind rfl

/-! ## Scopes -/

theorem gives_append {text : String} {mode : AppendMode} {value : Unit} :
    Gives (append text mode) session value after ↔
      after = { session with current := session.current.append text mode } :=
  gives_modify

theorem gives_indent {value : Unit} :
    Gives indent session value after ↔ after = { session with current := session.current.indent } :=
  gives_modify

theorem gives_dedent {value : Unit} :
    Gives dedent session value after ↔ after = { session with current := session.current.dedent } :=
  gives_modify

theorem gives_pushScope {buffer : Buffer} {value : Unit} :
    Gives (pushScope buffer) session value after ↔
      after = { session with current := buffer, outer := session.current :: session.outer } :=
  gives_modify

theorem gives_popScope {buffer : Buffer} :
    Gives popScope session buffer after ↔
      ∃ next outer, session.outer = next :: outer ∧ buffer = session.current ∧
        after = { session with current := next, outer } := by
  unfold popScope
  rw [gives_bind]
  simp only [gives_get]
  constructor
  · rintro ⟨_, _, ⟨rfl, rfl⟩, h⟩
    split at h
    · exact absurd h gives_throw
    · rename_i next outer heq
      simp only [gives_bind, gives_set, gives_pure] at h
      obtain ⟨_, _, rfl, rfl, rfl⟩ := h
      exact ⟨next, outer, heq, rfl, rfl⟩
  · rintro ⟨next, outer, heq, rfl, rfl⟩
    refine ⟨session, session, ⟨rfl, rfl⟩, ?_⟩
    rw [heq]
    exact gives_bind.mpr ⟨(), _, gives_set.mpr rfl, gives_pure.mpr ⟨rfl, rfl⟩⟩

theorem gives_inScope {buffer written : Buffer} {step : Emit α} {value : α} :
    Gives (inScope buffer step) session (value, written) after ↔
      ∃ inner next outer,
        Gives step { session with current := buffer, outer := session.current :: session.outer }
          value inner ∧
        inner.outer = next :: outer ∧ written = inner.current ∧
        after = { inner with current := next, outer } := by
  unfold inScope
  simp only [gives_bind, gives_pushScope, gives_attempt, gives_popScope, gives_ofLowered,
    gives_pure, Prod.mk.injEq]
  constructor
  · rintro ⟨_, _, rfl, _, inner, hstep, _, _, ⟨next, outer, hnext, rfl, rfl⟩, _, _, ⟨rfl, rfl⟩,
      ⟨rfl, rfl⟩, rfl⟩
    exact ⟨inner, next, outer, hstep, hnext, rfl, rfl⟩
  · rintro ⟨inner, next, outer, hstep, hnext, rfl, rfl⟩
    exact ⟨(), _, rfl, _, inner, hstep, _, _, ⟨next, outer, hnext, rfl, rfl⟩, value, _, ⟨rfl, rfl⟩,
      ⟨rfl, rfl⟩, rfl⟩

/-! ## Statements -/

/-- The session once a statement is opened. -/
def opened (session : Session) : Session :=
  { session with
    current := .new session.layout, outer := session.current :: session.outer
    stages := { before := .new session.layout, after := .new session.layout } :: session.stages }

/-- A buffer with a statement appended, unless the statement is blank. -/
def appendParts (layout : Layout) (buffer : Buffer) (parts : List String) : Buffer :=
  match joinParts layout parts with
  | none => buffer
  | some text => buffer.append text .line

theorem gives_pushStatement {value : Unit} :
    Gives pushStatement session value after ↔ after = opened session := by
  unfold pushStatement pushNewScope
  simp only [gives_bind, gives_modify, gives_get, gives_pushScope]
  constructor
  · rintro ⟨_, _, rfl, _, _, ⟨rfl, rfl⟩, rfl⟩
    rfl
  · rintro rfl
    exact ⟨(), _, rfl, _, _, ⟨rfl, rfl⟩, rfl⟩

theorem gives_popStatement {value : Unit} :
    Gives popStatement session value after ↔
      ∃ next outer stage stages, session.outer = next :: outer ∧
        session.stages = stage :: stages ∧
        after = { session with
          current := appendParts session.layout next
            [stage.before.text, session.current.text, stage.after.text]
          outer, stages } := by
  unfold popStatement
  rw [gives_bind]
  constructor
  · rintro ⟨_, _, hpop, h⟩
    obtain ⟨next, outer, hnext, rfl, rfl⟩ := gives_popScope.mp hpop
    obtain ⟨_, _, hget, h⟩ := gives_bind.mp h
    obtain ⟨rfl, rfl⟩ := gives_get.mp hget
    split at h
    · exact absurd h gives_throw
    · rename_i stage stages hstages
      obtain ⟨_, _, hset, h⟩ := gives_bind.mp h
      cases gives_set.mp hset
      refine ⟨next, outer, stage, stages, hnext, hstages, ?_⟩
      split at h
      · rename_i hparts
        obtain ⟨-, rfl⟩ := gives_pure.mp h
        simp only [appendParts, hparts]
      · rename_i text hparts
        cases gives_append.mp h
        simp only [appendParts, hparts]
  · rintro ⟨next, outer, stage, stages, hnext, hstages, rfl⟩
    refine ⟨_, _, gives_popScope.mpr ⟨next, outer, hnext, rfl, rfl⟩, ?_⟩
    refine gives_bind.mpr ⟨_, _, gives_get.mpr ⟨rfl, rfl⟩, ?_⟩
    simp only [hstages]
    refine gives_bind.mpr ⟨(), _, gives_set.mpr rfl, ?_⟩
    cases hparts : joinParts session.layout
        [stage.before.text, session.current.text, stage.after.text] with
    | none =>
      refine gives_pure.mpr ⟨rfl, ?_⟩
      simp only [appendParts, hparts]
    | some text =>
      refine gives_append.mpr ?_
      simp only [appendParts, hparts]

theorem gives_asStatement {step : Emit Unit} {value : Unit} :
    Gives (asStatement step) session value after ↔
      ∃ inner, Gives step (opened session) () inner ∧ Gives popStatement inner () after := by
  unfold asStatement
  simp only [gives_bind, gives_pushStatement, gives_attempt, gives_ofLowered]
  constructor
  · rintro ⟨_, _, rfl, _, inner, hstep, _, _, hpop, _, _, ⟨rfl, rfl⟩, rfl, rfl⟩
    exact ⟨inner, hstep, hpop⟩
  · rintro ⟨inner, hstep, hpop⟩
    exact ⟨(), _, rfl, _, inner, hstep, _, _, hpop, (), _, ⟨rfl, rfl⟩, rfl, rfl⟩

/-- The session while something is written before the open statement. -/
def preluding (session : Session) (stage : Stage) (stages : List Stage) : Session :=
  { session with
    current := stage.before, outer := session.current :: session.outer
    stages := { stage with before := .new session.layout } :: stages }

theorem gives_inPrelude {step : Emit α} {value : α} :
    Gives (inPrelude step) session value after ↔
      ∃ stage stages inner next outer newStage newStages,
        session.stages = stage :: stages ∧
        Gives step (preluding session stage stages) value inner ∧
        inner.outer = next :: outer ∧ inner.stages = newStage :: newStages ∧
        after = { inner with
          current := next, outer
          stages := { newStage with before := inner.current } :: newStages } := by
  unfold inPrelude
  rw [gives_bind]
  constructor
  · rintro ⟨_, _, hget, h⟩
    obtain ⟨rfl, rfl⟩ := gives_get.mp hget
    split at h
    · exact absurd h gives_throw
    · rename_i stage stages hstages
      obtain ⟨_, _, hset, h⟩ := gives_bind.mp h
      cases gives_set.mp hset
      obtain ⟨⟨_, written⟩, _, hscope, h⟩ := gives_bind.mp h
      obtain ⟨inner, next, outer, hstep, hnext, rfl, rfl⟩ := gives_inScope.mp hscope
      -- The stage is looked up again, since the step may have changed it.
      obtain ⟨_, _, hget, h⟩ := gives_bind.mp h
      obtain ⟨rfl, rfl⟩ := gives_get.mp hget
      split at h
      · exact absurd h gives_throw
      · rename_i newStage newStages hnew
        obtain ⟨_, _, hset, h⟩ := gives_bind.mp h
        cases gives_set.mp hset
        obtain ⟨rfl, rfl⟩ := gives_pure.mp h
        exact ⟨stage, stages, inner, next, outer, newStage, newStages, hstages, hstep, hnext, hnew,
          rfl⟩
  · rintro ⟨stage, stages, inner, next, outer, newStage, newStages, hstages, hstep, hnext, hnew,
      rfl⟩
    refine ⟨_, _, gives_get.mpr ⟨rfl, rfl⟩, ?_⟩
    simp only [hstages]
    refine gives_bind.mpr ⟨(), _, gives_set.mpr rfl, ?_⟩
    refine gives_bind.mpr ⟨_, _, gives_inScope.mpr ⟨inner, next, outer, hstep, hnext, rfl, rfl⟩, ?_⟩
    refine gives_bind.mpr ⟨_, _, gives_get.mpr ⟨rfl, rfl⟩, ?_⟩
    simp only [hnew]
    exact gives_bind.mpr ⟨(), _, gives_set.mpr rfl, gives_pure.mpr ⟨rfl, rfl⟩⟩

/-! ## Functions -/

theorem gives_theFunction {span : Span} {current : OpenFunction} :
    Gives (theFunction span) session current after ↔
      session.openFunction = some current ∧ after = session := by
  unfold theFunction
  rw [gives_bind]
  constructor
  · rintro ⟨_, _, hget, h⟩
    obtain ⟨rfl, rfl⟩ := gives_get.mp hget
    split at h
    · rename_i found hfound
      obtain ⟨rfl, rfl⟩ := gives_pure.mp h
      exact ⟨hfound, rfl⟩
    · exact absurd h gives_throw
  · rintro ⟨hfound, rfl⟩
    refine ⟨_, _, gives_get.mpr ⟨rfl, rfl⟩, ?_⟩
    rw [hfound]
    exact gives_pure.mpr ⟨rfl, rfl⟩

theorem gives_onFunction {span : Span} {change : OpenFunction → OpenFunction} {value : Unit} :
    Gives (onFunction span change) session value after ↔
      ∃ current, session.openFunction = some current ∧
        after = { session with openFunction := some (change current) } := by
  unfold onFunction
  simp only [gives_bind, gives_theFunction, gives_modify]
  constructor
  · rintro ⟨current, _, ⟨hfound, rfl⟩, rfl⟩
    exact ⟨current, hfound, rfl⟩
  · rintro ⟨current, hfound, rfl⟩
    exact ⟨current, _, ⟨hfound, rfl⟩, rfl⟩

theorem not_fails_onFunction {span : Span} {change : OpenFunction → OpenFunction}
    {current : OpenFunction} {e : LoweringError} (hopen : session.openFunction = some current) :
    ¬ Fails (onFunction span change) session e := by
  have hgives : Gives (onFunction span change) session ()
      { session with openFunction := some (change current) } :=
    gives_onFunction.mpr ⟨current, hopen, rfl⟩
  exact hgives.not_fails

theorem gives_theLocals {span : Span} {locals : Locals} :
    Gives (theLocals span) session locals after ↔
      ∃ current, session.openFunction = some current ∧ locals = current.locals ∧
        after = session := by
  unfold theLocals
  simp only [gives_bind, gives_theFunction, gives_pure]
  constructor
  · rintro ⟨current, _, ⟨hfound, rfl⟩, rfl, rfl⟩
    exact ⟨current, hfound, rfl, rfl⟩
  · rintro ⟨current, hfound, rfl, rfl⟩
    exact ⟨current, _, ⟨hfound, rfl⟩, rfl, rfl⟩

theorem fails_theLocals_bind {span : Span} {next : Locals → Emit α} {current : OpenFunction}
    {e : LoweringError} (hopen : session.openFunction = some current) :
    Fails (theLocals span >>= next) session e ↔ Fails (next current.locals) session e := by
  have hgives : Gives (theLocals span) session current.locals session :=
    gives_theLocals.mpr ⟨current, hopen, rfl, rfl⟩
  rw [fails_bind, or_iff_right hgives.not_fails]
  constructor
  · rintro ⟨_, _, hfound, hnext⟩
    cases hgives.symm.trans hfound
    exact hnext
  · intro hnext
    exact ⟨_, _, hgives, hnext⟩

theorem gives_onLocals {span : Span} {change : Locals → Locals} {value : Unit} :
    Gives (onLocals span change) session value after ↔
      ∃ current, session.openFunction = some current ∧
        after = { session with
          openFunction := some { current with locals := change current.locals } } :=
  gives_onFunction

theorem gives_onRecord {span : Span} {change : FunctionRecord → FunctionRecord} {value : Unit} :
    Gives (onRecord span change) session value after ↔
      ∃ current, session.openFunction = some current ∧
        after = { session with
          openFunction := some { current with record := change current.record } } :=
  gives_onFunction

theorem gives_beginFunction {record : FunctionRecord} {locals : Locals}
    {visibility : Option Visibility} {span : Span} {value : Unit} :
    Gives (beginFunction record locals visibility span) session value after ↔
      session.openFunction = none ∧
        after = { session with openFunction := some { record, locals, visibility } } := by
  unfold beginFunction
  rw [gives_bind]
  constructor
  · rintro ⟨_, _, hget, h⟩
    obtain ⟨rfl, rfl⟩ := gives_get.mp hget
    split at h
    · exact absurd h gives_throw
    · rename_i hnone
      exact ⟨hnone, gives_set.mp h⟩
  · rintro ⟨hnone, rfl⟩
    refine ⟨_, _, gives_get.mpr ⟨rfl, rfl⟩, ?_⟩
    rw [hnone]
    exact gives_set.mpr rfl

/-- Where a finished function goes: a member to the open class, a free function to the file. -/
def Placed (session : Session) (record : FunctionRecord) (visibility : Option Visibility)
    (after : Session) : Prop :=
  (∃ shown owner, visibility = some shown ∧ session.openClass = some owner ∧
    after = { session with
      openFunction := none
      openClass := some { owner with
        methods := owner.methods ++ [{ visibility := shown, function := record }] } }) ∨
  (visibility = none ∧ session.openClass = none ∧
    after = { session with openFunction := none, functions := session.functions ++ [record] })

theorem gives_endFunction {span : Span} {value : Unit} :
    Gives (endFunction span) session value after ↔
      ∃ finished, session.openFunction = some finished ∧
        Placed session finished.record finished.visibility after := by
  unfold endFunction
  rw [gives_bind]
  constructor
  · rintro ⟨_, _, hget, h⟩
    obtain ⟨rfl, rfl⟩ := gives_get.mp hget
    split at h
    · exact absurd h gives_throw
    · rename_i finished hfound
      refine ⟨finished, hfound, ?_⟩
      dsimp only at h
      split at h
      · rename_i visibility owner hvisibility howner
        exact Or.inl ⟨visibility, owner, hvisibility, howner, gives_set.mp h⟩
      · rename_i hvisibility howner
        exact Or.inr ⟨hvisibility, howner, gives_set.mp h⟩
      · obtain ⟨_, _, _, h⟩ := gives_bind.mp h
        exact absurd h gives_throw
  · rintro ⟨finished, hfound, hplaced⟩
    refine ⟨_, _, gives_get.mpr ⟨rfl, rfl⟩, ?_⟩
    rw [hfound]
    rcases hplaced with ⟨visibility, owner, hvisibility, howner, rfl⟩ | ⟨hvisibility, howner, rfl⟩
    · simp only [hvisibility, howner]
      exact gives_set.mpr rfl
    · simp only [hvisibility, howner]
      exact gives_set.mpr rfl

/-! ## Classes -/

theorem gives_beginClass {record : ClassRecord} {span : Span} {value : Unit} :
    Gives (beginClass record span) session value after ↔
      session.openClass = none ∧ session.openFunction = none ∧
        after = { session with openClass := some record } := by
  unfold beginClass
  rw [gives_bind]
  constructor
  · rintro ⟨_, _, hget, h⟩
    obtain ⟨rfl, rfl⟩ := gives_get.mp hget
    split at h
    · exact absurd h gives_throw
    · rename_i hopen
      simp only [Bool.or_eq_true, not_or, Bool.not_eq_true, Option.isSome_eq_false_iff,
        Option.isNone_iff_eq_none] at hopen
      exact ⟨hopen.1, hopen.2, gives_set.mp h⟩
  · rintro ⟨hclass, hfunction, rfl⟩
    refine ⟨_, _, gives_get.mpr ⟨rfl, rfl⟩, ?_⟩
    simp only [hclass, hfunction]
    exact gives_set.mpr rfl

theorem gives_endClass {span : Span} {value : Unit} :
    Gives (endClass span) session value after ↔
      ∃ record, session.openClass = some record ∧
        after = { session with openClass := none, classes := session.classes ++ [record] } := by
  unfold endClass
  rw [gives_bind]
  constructor
  · rintro ⟨_, _, hget, h⟩
    obtain ⟨rfl, rfl⟩ := gives_get.mp hget
    split at h
    · exact absurd h gives_throw
    · rename_i record hfound
      exact ⟨record, hfound, gives_set.mp h⟩
  · rintro ⟨record, hfound, rfl⟩
    refine ⟨_, _, gives_get.mpr ⟨rfl, rfl⟩, ?_⟩
    rw [hfound]
    exact gives_set.mpr rfl

theorem gives_addField {field : FieldRecord} {span : Span} {value : Unit} :
    Gives (addField field span) session value after ↔
      ∃ record, session.openClass = some record ∧
        after = { session with
          openClass := some { record with fields := record.fields ++ [field] } } := by
  unfold addField theClass
  simp only [gives_bind, gives_get, gives_modify]
  constructor
  · rintro ⟨record, _, ⟨_, _, ⟨rfl, rfl⟩, h⟩, rfl⟩
    split at h
    · rename_i found hfound
      obtain ⟨rfl, rfl⟩ := gives_pure.mp h
      exact ⟨_, hfound, rfl⟩
    · exact absurd h gives_throw
  · rintro ⟨record, hfound, rfl⟩
    refine ⟨record, session, ⟨_, _, ⟨rfl, rfl⟩, ?_⟩, rfl⟩
    rw [hfound]
    exact gives_pure.mpr ⟨rfl, rfl⟩

/-! ## Closing what was opened

What a step opens around another one is closed whatever the inner step comes to. So the outcome is
the inner step's, provided that there is something left to close. -/

theorem run_attempt {step : Emit α} {result : Lowered α} (h : step.run session = (result, after)) :
    (attempt step).run session = (.ok result, after) :=
  gives_attempt.mpr h

theorem run_inScope {buffer next : Buffer} {outer : List Buffer} {step : Emit α}
    {result : Lowered α} {inner : Session}
    (h : step.run { session with current := buffer, outer := session.current :: session.outer }
      = (result, inner)) (houter : inner.outer = next :: outer) :
    (inScope buffer step).run session
      = (result.map (·, inner.current), { inner with current := next, outer }) := by
  have hpush : (pushScope buffer).run session = (.ok (),
      { session with current := buffer, outer := session.current :: session.outer }) := rfl
  have hpop : popScope.run inner = (.ok inner.current, { inner with current := next, outer }) :=
    gives_popScope.mpr ⟨next, outer, houter, rfl, rfl⟩
  simp only [inScope, run_bind, hpush, run_attempt h, hpop]
  cases result with
  | ok value => rfl
  | error e => rfl

theorem run_asStatement {step : Emit Unit} {result : Lowered Unit} {inner : Session}
    (h : step.run (opened session) = (result, inner)) (hpop : Gives popStatement inner () after) :
    (asStatement step).run session = (result, after) := by
  have hpush : pushStatement.run session = (.ok (), opened session) := gives_pushStatement.mpr rfl
  simp only [asStatement, run_bind, hpush, run_attempt h, run_attempt hpop]
  cases result with
  | ok value => rfl
  | error e => rfl

/-- What went before the statement so far is dropped if the step fails. -/
theorem run_inPrelude_error {step : Emit α} {stage : Stage} {stages : List Stage} {next : Buffer}
    {outer : List Buffer} {e : LoweringError} {inner : Session}
    (hstages : session.stages = stage :: stages)
    (h : step.run (preluding session stage stages) = (.error e, inner))
    (houter : inner.outer = next :: outer) :
    (inPrelude step).run session = (.error e, { inner with current := next, outer }) := by
  have hget : (get : Emit Session).run session = (.ok session, session) := rfl
  have hset (written : Session) : (set written : Emit Unit).run session = (.ok (), written) := rfl
  have hscope : (inScope stage.before step).run { session with
      stages := { stage with before := .new session.layout } :: stages }
        = (Except.map (·, inner.current) (.error e), { inner with current := next, outer }) :=
    run_inScope h houter
  simp only [inPrelude, run_bind, hget, hstages, hset, hscope]
  rfl

end Emit
end NativeLowering
