import NativeLowering.Proofs.Emit.Piecewise

/-!
# What writing inside a function leaves in place

A session keeps four stacks: scopes, open statements, and inside the open function frames of local
bindings, with the indentation of the current buffer beside them. A step that writes part of a body
may fail anywhere, and what it did before stays done. Still it comes back to the scopes and the
statements it started from, and all it does to the current buffer is to write at its end: that is
`Stays`, and it holds of success and of failure.

Indentation and frames are restored on success only. `Moves` says by how much a single step changes
them, so that a step which opens a frame and one which closes it add up to nothing
(`Moves.braced`). A step that changes neither is `Balanced`.
-/

set_option autoImplicit false

namespace NativeLowering

/-- How many frames of bindings the open function has. -/
def Session.frameCount (session : Session) : Nat :=
  match session.openFunction with
  | some current => current.locals.depth
  | none => 0

namespace Locals

theorem depth_push (locals : Locals) (kind : FrameKind) :
    (locals.push kind).depth = locals.depth + 1 := rfl

theorem depth_pop (locals : Locals) : locals.pop.2.depth = locals.depth - 1 := by
  unfold pop depth
  cases hframes : locals.frames with
  | nil => simp [hframes]
  | cons frame frames => simp

theorem depth_declare (locals : Locals) (name : String) (type : Ty) :
    (locals.declare name type).depth = locals.depth := by
  unfold declare depth
  cases hframes : locals.frames with
  | nil => simp [hframes]
  | cons frame frames => simp

end Locals

namespace Emit

variable {α β : Type}

/-- What a step leaves in place whether it succeeds or fails: the scopes around the current one, how
many statements are open and all of them but the innermost, what was written to the current buffer
before, and the open function. -/
structure Stays (session after : Session) : Prop where
  outer : after.outer = session.outer
  enclosing : after.stages.tail = session.stages.tail
  staged : after.stages.length = session.stages.length
  grows : ∃ added, after.current.text = session.current.text ++ added
  isOpen : after.openFunction.isSome = true

theorem grows_refl (text : String) : ∃ added, text = text ++ added :=
  ⟨"", String.append_empty.symm⟩

theorem Stays.refl {session : Session} (hopen : session.openFunction.isSome = true) :
    Stays session session :=
  ⟨rfl, rfl, rfl, grows_refl _, hopen⟩

theorem Stays.trans {session between after : Session} (h : Stays session between)
    (h' : Stays between after) : Stays session after := by
  obtain ⟨added, hadded⟩ := h.grows
  obtain ⟨more, hmore⟩ := h'.grows
  refine ⟨h'.outer.trans h.outer, h'.enclosing.trans h.enclosing, h'.staged.trans h.staged, ?_,
    h'.isOpen⟩
  exact ⟨added ++ more, by rw [hmore, hadded, String.append_assoc]⟩

/-- In an open function the step stays in place, and if it succeeds it changes the indentation of
the current buffer and the number of frames as told. -/
def Moves (depth frames : Nat → Nat) (step : Emit α) : Prop :=
  ∀ (session : Session) (result : Lowered α) (after : Session),
    session.openFunction.isSome = true → step.run session = (result, after) →
    Stays session after ∧ ∀ value, result = .ok value →
      after.current.depth = depth session.current.depth ∧
        after.frameCount = frames session.frameCount

/-- A step after which indentation and frames are what they were. -/
abbrev Balanced (step : Emit α) : Prop := Moves id id step

/-! ## Steps and their composition -/

section Composition

variable {depth depth' frames frames' : Nat → Nat}

theorem Moves.congr {step : Emit α} (h : Moves depth frames step) (hdepth : ∀ n, depth n = depth' n)
    (hframes : ∀ n, frames n = frames' n) : Moves depth' frames' step := by
  obtain rfl : depth = depth' := funext hdepth
  obtain rfl : frames = frames' := funext hframes
  exact h

theorem Moves.bind {step : Emit α} {next : α → Emit β} (h : Moves depth frames step)
    (hnext : ∀ value, Moves depth' frames' (next value)) :
    Moves (depth' ∘ depth) (frames' ∘ frames) (step >>= next) := by
  intro session result after hopen hrun
  rw [run_bind] at hrun
  rcases hstep : step.run session with ⟨middle, between⟩
  rw [hstep] at hrun
  obtain ⟨hstays, hmoves⟩ := h session middle between hopen hstep
  cases middle with
  | error e =>
    cases hrun
    exact ⟨hstays, nofun⟩
  | ok value =>
    obtain ⟨hdepth, hframes⟩ := hmoves value rfl
    obtain ⟨hstays', hmoves'⟩ := hnext value between result after hstays.isOpen hrun
    refine ⟨hstays.trans hstays', ?_⟩
    intro final hfinal
    obtain ⟨hdepth', hframes'⟩ := hmoves' final hfinal
    rw [hdepth', hframes', hdepth, hframes]
    exact ⟨rfl, rfl⟩

end Composition

theorem balanced_pure (value : α) : Balanced (pure value : Emit α) := by
  intro session result after hopen hrun
  cases hrun
  exact ⟨.refl hopen, fun _ _ => ⟨rfl, rfl⟩⟩

/-- Writing at the end of the current buffer. -/
theorem moves_onCurrent {change : Buffer → Buffer} {depth : Nat → Nat}
    (hgrows : ∀ buffer, ∃ added, (change buffer).text = buffer.text ++ added)
    (hdepth : ∀ buffer, (change buffer).depth = depth buffer.depth) :
    Moves depth id (onCurrent change) := by
  intro session result after hopen hrun
  cases hrun
  exact ⟨⟨rfl, rfl, rfl, hgrows _, hopen⟩, fun _ _ => ⟨hdepth _, rfl⟩⟩

theorem balanced_append (text : String) (mode : AppendMode) : Balanced (append text mode) :=
  moves_onCurrent (fun _ => ⟨_, rfl⟩) fun _ => rfl

theorem moves_indent : Moves (· + 1) id indent :=
  moves_onCurrent (fun buffer => grows_refl buffer.text) fun _ => rfl

theorem moves_dedent : Moves (· - 1) id dedent :=
  moves_onCurrent (fun buffer => grows_refl buffer.text) fun _ => rfl

/-! ## The open function -/

theorem moves_onFunction (span : Span) {change : OpenFunction → OpenFunction} {frames : Nat → Nat}
    (h : ∀ current, (change current).locals.depth = frames current.locals.depth) :
    Moves id frames (onFunction span change) := by
  intro session result after hopen hrun
  obtain ⟨current, hcurrent⟩ := Option.isSome_iff_exists.mp hopen
  have hgives : (onFunction span change).run session
      = (.ok (), { session with openFunction := some (change current) }) :=
    gives_onFunction.mpr ⟨current, hcurrent, rfl⟩
  rw [hgives] at hrun
  cases hrun
  refine ⟨⟨rfl, rfl, rfl, grows_refl _, rfl⟩, ?_⟩
  intro _ _
  simp only [Session.frameCount, hcurrent, h current, id, and_self]

theorem moves_onLocals (span : Span) {change : Locals → Locals} {frames : Nat → Nat}
    (h : ∀ locals, (change locals).depth = frames locals.depth) :
    Moves id frames (onLocals span change) :=
  moves_onFunction span fun current => h current.locals

theorem balanced_onRecord (span : Span) (change : FunctionRecord → FunctionRecord) :
    Balanced (onRecord span change) :=
  moves_onFunction span fun _ => rfl

/-- Whether an expression can be written or not, all that writing it does is to append. -/
theorem balanced_expr (cx : Context) (value : Expr) : Balanced (expr cx value) := by
  intro session result after hopen hrun
  obtain ⟨current, hcurrent⟩ := Option.isSome_iff_exists.mp hopen
  obtain ⟨added, happends, -⟩ := appends_expr value session rfl hcurrent
  rw [happends] at hrun
  cases hrun
  exact ⟨⟨rfl, rfl, rfl, ⟨added, rfl⟩, hopen⟩, fun _ _ => ⟨rfl, rfl⟩⟩

/-- A step that leaves the session as it was, for whatever it computes. -/
theorem Moves.computed {step : Emit α} {next : α → Emit β} {computed : Session → Lowered α}
    {depth frames : Nat → Nat} (hrun : ∀ session, step.run session = (computed session, session))
    (h : ∀ value, Moves depth frames (next value)) : Moves depth frames (step >>= next) := by
  intro session result after hopen hrun'
  rw [run_bind, hrun] at hrun'
  cases hvalue : computed session with
  | ok value =>
    rw [hvalue] at hrun'
    exact h value session result after hopen hrun'
  | error e =>
    rw [hvalue] at hrun'
    cases hrun'
    exact ⟨.refl hopen, nofun⟩

/-! ## Scopes and statements -/

/-- After a step inside an open statement that statement can be closed, also if the step failed. -/
theorem Stays.popStatement {session inner : Session} (h : Stays (opened session) inner) :
    ∃ text, Gives popStatement inner () { inner with
      current := { session.current with text := session.current.text ++ text }
      outer := session.outer, stages := session.stages } := by
  -- The stack of statements is one deeper than before, and below its top nothing has changed.
  have hlength : inner.stages.length = session.stages.length + 1 := h.staged
  have htail : inner.stages.tail = session.stages := h.enclosing
  obtain ⟨stage, stages, hstages⟩ := List.exists_cons_of_length_eq_add_one hlength
  rw [hstages, List.tail_cons] at htail
  subst htail
  cases hjoin : joinParts inner.layout
      [stage.before.text, inner.current.text, stage.after.text] with
  | none =>
    refine ⟨"", gives_popStatement.mpr ⟨_, _, stage, _, h.outer, hstages, ?_⟩⟩
    simp only [appendParts, hjoin, String.append_empty]
  | some text =>
    refine ⟨session.current.layout.format session.current.depth .line text,
      gives_popStatement.mpr ⟨_, _, stage, _, h.outer, hstages, ?_⟩⟩
    simp only [appendParts, hjoin]
    rfl

theorem Moves.asStatement {step : Emit Unit} (h : Balanced step) : Balanced (asStatement step) := by
  intro session result after hopen hrun
  rcases hstep : step.run (opened session) with ⟨outcome, inner⟩
  obtain ⟨hstays, hmoves⟩ := h (opened session) outcome inner hopen hstep
  obtain ⟨text, hpop⟩ := hstays.popStatement
  rw [run_asStatement hstep hpop] at hrun
  cases hrun
  refine ⟨⟨rfl, rfl, rfl, ⟨text, rfl⟩, hstays.isOpen⟩, ?_⟩
  intro value hvalue
  exact ⟨rfl, (hmoves value hvalue).2⟩

theorem Moves.inPrelude {step : Emit α} (h : Balanced step) : Balanced (inPrelude step) := by
  intro session result after hopen hrun
  cases hstages : session.stages with
  | nil =>
    -- With no open statement nothing is run at all.
    have hthrow : (Emit.inPrelude step).run session
        = (.error (.underflow .statementPrelude), session) := by
      have hget : (get : Emit Session).run session = (.ok session, session) := rfl
      simp only [Emit.inPrelude, run_bind, hget, hstages]
      rfl
    rw [hthrow] at hrun
    cases hrun
    exact ⟨.refl hopen, fun _ hvalue => by cases hvalue⟩
  | cons stage stages =>
    rcases hstep : step.run (preluding session stage stages) with ⟨outcome, inner⟩
    obtain ⟨hstays, hmoves⟩ := h (preluding session stage stages) outcome inner hopen hstep
    have houter : inner.outer = session.current :: session.outer := hstays.outer
    have hlength : inner.stages.length = stages.length + 1 := hstays.staged
    have htail : inner.stages.tail = stages := hstays.enclosing
    cases outcome with
    | error e =>
      rw [run_inPrelude_error hstages hstep houter] at hrun
      cases hrun
      refine ⟨⟨rfl, ?_, ?_, grows_refl _, hstays.isOpen⟩, fun _ hvalue => by cases hvalue⟩
      · rw [hstages]
        exact htail
      · rw [hstages]
        exact hlength
    | ok value =>
      obtain ⟨newStage, newStages, hinner⟩ := List.exists_cons_of_length_eq_add_one hlength
      have hgives : (Emit.inPrelude step).run session = (.ok value, _) :=
        gives_inPrelude.mpr ⟨stage, stages, inner, session.current, session.outer, newStage,
          newStages, hstages, hstep, houter, hinner, rfl⟩
      rw [hgives] at hrun
      cases hrun
      rw [hinner] at hlength htail
      refine ⟨⟨rfl, ?_, ?_, grows_refl _, hstays.isOpen⟩, ?_⟩
      · rw [hstages]
        exact htail
      · rw [hstages]
        exact hlength
      · intro _ _
        exact ⟨rfl, (hmoves value rfl).2⟩

/-! A step that opens something around another one and closes it again fails only as the inner step
does: what is to be closed is always there. -/

theorem Moves.fails_inScope {step : Emit α} {buffer : Buffer} {session : Session}
    {e : LoweringError} (h : Balanced step) (hopen : session.openFunction.isSome = true)
    (hfails : Fails (inScope buffer step) session e) :
    Fails step { session with current := buffer, outer := session.current :: session.outer } e := by
  obtain ⟨after, hrun⟩ := hfails
  rcases hstep : step.run
    { session with current := buffer, outer := session.current :: session.outer }
    with ⟨result, inner⟩
  have houter : inner.outer = session.current :: session.outer := (h _ _ _ (by exact hopen) hstep).1.outer
  rw [run_inScope hstep houter] at hrun
  cases result with
  | ok value => cases hrun
  | error e' =>
    cases hrun
    exact ⟨inner, hstep⟩

theorem Moves.fails_asStatement {step : Emit Unit} {session : Session} {e : LoweringError}
    (h : Balanced step) (hopen : session.openFunction.isSome = true)
    (hfails : Fails (Emit.asStatement step) session e) : Fails step (opened session) e := by
  obtain ⟨after, hrun⟩ := hfails
  rcases hstep : step.run (opened session) with ⟨result, inner⟩
  obtain ⟨text, hpop⟩ := (h _ _ _ (by exact hopen) hstep).1.popStatement
  rw [run_asStatement hstep hpop] at hrun
  cases hrun
  exact ⟨inner, hstep⟩

theorem Moves.fails_inPrelude {step : Emit α} {session : Session} {stage : Stage}
    {stages : List Stage} {e : LoweringError} (h : Balanced step)
    (hopen : session.openFunction.isSome = true) (hstages : session.stages = stage :: stages)
    (hfails : Fails (Emit.inPrelude step) session e) :
    Fails step (preluding session stage stages) e := by
  rcases hstep : step.run (preluding session stage stages) with ⟨result, inner⟩
  have hstays : Stays (preluding session stage stages) inner :=
    (h _ _ _ (by exact hopen) hstep).1
  have houter : inner.outer = session.current :: session.outer := hstays.outer
  have hlength : inner.stages.length = stages.length + 1 := hstays.staged
  cases result with
  | error e' =>
    obtain ⟨after, hrun⟩ := hfails
    rw [run_inPrelude_error hstages hstep houter] at hrun
    cases hrun
    exact ⟨inner, hstep⟩
  | ok value =>
    obtain ⟨newStage, newStages, hinner⟩ := List.exists_cons_of_length_eq_add_one hlength
    have hgives : Gives (Emit.inPrelude step) session value _ :=
      gives_inPrelude.mpr ⟨stage, stages, inner, session.current, session.outer, newStage,
        newStages, hstages, hstep, houter, hinner, rfl⟩
    exact absurd hfails hgives.not_fails

theorem Moves.braced {step : Emit Unit} (h : Balanced step) (span : Span) (kind : FrameKind) :
    Balanced (braced span kind step) := by
  have hclose : Moves (· - 1) (· - 1) (do
      onLocals span fun locals => locals.pop.2
      dedent
      append "\x7d" .line) :=
    (moves_onLocals span Locals.depth_pop).bind fun _ =>
      moves_dedent.bind fun _ => balanced_append _ _
  refine ((balanced_append "\x7b" .line).bind fun _ => moves_indent.bind fun _ =>
    (moves_onLocals span fun locals => Locals.depth_push locals kind).bind fun _ =>
      h.bind fun _ => hclose).congr ?_ ?_
  · intro depth
    exact Nat.add_sub_cancel depth 1
  · intro frames
    exact Nat.add_sub_cancel frames 1

end Emit
end NativeLowering
