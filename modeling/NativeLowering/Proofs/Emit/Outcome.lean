import NativeLowering.Proofs.Emit.Records

/-!
# What comes of writing a program

A successful run leaves the output of the program. This module adds the other half: a run that
fails reports the error that the computation of the output comes to, for every function, member,
class and declaration. The steps that close what was opened add no failure of their own.

So a run is decided by the computation: `gives_decls` says when declarations are written and what
they leave, and `generateWith_run` gives the written file, or the error, in one equation.
-/

set_option autoImplicit false

namespace NativeLowering
namespace Emit

variable {cx : Context} {session : Session} {e : LoweringError}

/-! ## Functions -/

theorem fails_typeString_bind {α : Type} {node : TypeNode} {next : String → Emit α} :
    Fails (typeString cx node >>= next) session e ↔
      (cx.laidOut session.layout).typePiece node = .error e ∨
        ∃ type, (cx.laidOut session.layout).typePiece node = .ok type ∧
          Fails (next type) session e :=
  fails_computed_bind (run_typeString node session)

theorem param_fails {current : OpenFunction} {entered : Param} (hlayout : session.layout = cx.layout)
    (hopen : session.openFunction = some current) (h : Fails (param cx entered) session e) :
    paramRecord cx current.locals entered = .error e := by
  simp only [param, fails_lift_bind, fails_typeString_bind,
    fails_computed_bind (run_defaultString hopen entered.default), hlayout,
    Context.laidOut_self] at h
  rcases h with hname | ⟨name, hname, h⟩
  · simp only [paramRecord, hname, bind, Except.bind]
  rcases h with hnode | ⟨node, hnode, h⟩
  · simp only [paramRecord, hname, hnode, bind, Except.bind]
  rcases h with htype | ⟨type, htype, h⟩
  · simp only [paramRecord, hname, hnode, htype, bind, Except.bind]
  rcases h with hdefault | ⟨default, hdefault, h⟩
  · simp only [paramRecord, hname, hnode, htype, hdefault, bind, Except.bind]
  -- What is left changes the open function, which cannot fail.
  rcases fails_bind.mp h with hdeclare | ⟨_, _, hdeclare, hrecord⟩
  · exact absurd hdeclare (not_fails_onFunction hopen)
  · obtain ⟨_, -, rfl⟩ := gives_onLocals.mp hdeclare
    exact absurd hrecord (not_fails_onFunction rfl)

theorem params_fails : ∀ {entered : List Param} {session : Session} {current : OpenFunction},
    session.layout = cx.layout → session.openFunction = some current →
    Fails (params cx entered) session e → paramRecords cx current.locals entered = .error e
  | [], session, current, _, _, h => absurd h not_fails_pure
  | first :: rest, session, current, hlayout, hopen, h => by
    rcases fails_bind.mp h with hfirst | ⟨_, between, hfirst, hrest⟩
    · simp only [paramRecords, param_fails hlayout hopen hfirst, bind, Except.bind]
    · obtain ⟨record, locals, hrecord, rfl⟩ := param_gives hlayout hopen hfirst
      have hothers : paramRecords cx locals rest = .error e :=
        params_fails (by exact hlayout) rfl hrest
      simp only [paramRecords, hrecord, hothers, bind, Except.bind]

theorem functionBody_fails {current : OpenFunction} {body : List Stmt} {span : Span}
    (hidle : Idle cx session) (hopen : session.openFunction = some current)
    (h : Fails (functionBody cx body span) session e) :
    (loweredBody cx current.locals body >>= fun lowered =>
      Draft.stmts cx (exprText cx) 1 current.locals lowered) = .error e := by
  have hisOpen : session.openFunction.isSome = true := by
    rw [hopen]
    rfl
  simp only [functionBody, fails_theLocals_bind hopen, fails_lift_bind] at h
  rcases h with hlowered | ⟨lowered, hlowered, h⟩
  · simp only [loweredBody, hlowered, bind, Except.bind]
  have hwrites : Writes cx 0 _ _ := stmts_writes 0 lowered
  rcases fails_bind.mp h with hscope | ⟨⟨_, written⟩, between, hscope, hrecord⟩
  · have hready : ({ session with
        current := .atDepth cx.layout 1, outer := session.current :: session.outer } :
          Session).Ready cx := ⟨hidle.layout, rfl, by simp [hidle.stages]⟩
    have herror : Draft.stmts cx (exprText cx) 1 current.locals lowered = .error e :=
      hwrites.reports _ _ _ hready (Nat.zero_le _) hopen
        (hwrites.moves.fails_inScope hisOpen hscope)
    simp only [loweredBody, hlowered, bind, Except.bind, herror]
  · -- The function is still open once its body is written.
    obtain ⟨inner, next, outer, hstmts, hnext, rfl, rfl⟩ := gives_inScope.mp hscope
    have hstays := (hwrites.moves _ _ _ (by exact hisOpen) hstmts).1
    obtain ⟨last, hlast⟩ := Option.isSome_iff_exists.mp hstays.isOpen
    exact absurd hrecord (not_fails_onFunction hlast)

/-- Whether a function can be closed where it was opened: members inside a class, free functions
outside. -/
def Fits (session : Session) (visibility : Option Visibility) : Prop :=
  visibility.isSome = session.openClass.isSome

theorem not_fails_endFunction {span : Span} {finished : OpenFunction}
    (hopen : session.openFunction = some finished) (hfits : Fits session finished.visibility) :
    ¬ Fails (endFunction span) session e := by
  have hplaced : ∃ after, Placed session finished.record finished.visibility after := by
    cases hvisibility : finished.visibility with
    | none =>
      have hclass : session.openClass = none := by simpa [Fits, hvisibility] using hfits.symm
      exact ⟨_, .inr ⟨rfl, hclass, rfl⟩⟩
    | some shown =>
      have hclass : session.openClass.isSome = true := by
        simpa [Fits, hvisibility] using hfits.symm
      obtain ⟨owner, howner⟩ := Option.isSome_iff_exists.mp hclass
      exact ⟨_, .inl ⟨shown, owner, rfl, howner, rfl⟩⟩
  obtain ⟨after, hafter⟩ := hplaced
  have hgives : Gives (endFunction span) session () after :=
    gives_endFunction.mpr ⟨finished, hopen, hafter⟩
  exact hgives.not_fails

theorem functionLike_fails {shape : FunctionShape} {span : Span} (hidle : Idle cx session)
    (hnone : session.openFunction = none) (hfits : Fits session shape.visibility)
    (h : Fails (functionLike cx shape span) session e) : functionRecord cx shape = .error e := by
  simp only [functionLike, fails_bind, gives_beginFunction] at h
  rcases h with hbegin | ⟨_, _, ⟨-, rfl⟩, h⟩
  · have hgives : Gives (beginFunction (FunctionRecord.new cx.layout shape.returnType
        shape.qualifier shape.name) (.start shape.thisClass) shape.visibility span) session () _ :=
      gives_beginFunction.mpr ⟨hnone, rfl⟩
    exact absurd hbegin hgives.not_fails
  unfold functionRecord functionRecordWith
  rcases h with hparams | ⟨_, _, hparams, h⟩
  · have herror : paramRecords cx (.start shape.thisClass) shape.params = .error e :=
      params_fails (by exact hidle.layout) rfl hparams
    simp only [herror, bind, Except.bind]
  obtain ⟨records, locals, hrecords, rfl⟩ := params_gives (by exact hidle.layout) rfl hparams
  rcases h with hbody | ⟨_, _, hbody, hend⟩
  · have herror := functionBody_fails (by exact ⟨hidle.layout, hidle.stages⟩) rfl hbody
    simp only [hrecords, bind, Except.bind] at herror ⊢
    cases hlowered : loweredBody cx locals shape.body with
    | error e' =>
      simp only [hlowered] at herror
      cases herror
      rfl
    | ok lowered =>
      simp only [hlowered] at herror ⊢
      simp only [herror]
  · obtain ⟨lowered, draft, -, -, rfl⟩ := functionBody_gives
      (by exact ⟨hidle.layout, hidle.stages⟩) rfl hbody
    exact absurd hend (not_fails_endFunction rfl hfits)

/-! ## Classes -/

theorem classMember_fails {names : ClassNames} {owner : ClassRecord} {member : ClassMember}
    (hidle : Idle cx session) (hnone : session.openFunction = none)
    (hclass : session.openClass = some owner)
    (h : Fails (classMember cx names member) session e) :
    memberRecords cx names member = .error e := by
  have hfits (shown : Visibility) : Fits session (some shown) := by simp [Fits, hclass]
  cases member with
  | property span decl =>
    simp only [classMember, propertyDecl] at h
    cases hnode : decl.type with
    | none =>
      rw [hnode] at h
      cases fails_throw.mp h
      simp only [memberRecords, hnode]
      rfl
    | some node =>
      simp only [hnode, fails_typeString_bind, hidle.layout, Context.laidOut_self] at h
      rcases h with htype | ⟨type, -, hadd⟩
      · simp only [memberRecords, hnode, htype, bind, Except.bind]
      · -- A field can always be added, since the class is open.
        have hgives : Gives (addField ⟨decl.visibility, type, decl.name⟩ span) session () _ :=
          gives_addField.mpr ⟨owner, hclass, rfl⟩
        exact absurd hadd hgives.not_fails
  | method span decl =>
    simp only [classMember, methodDecl] at h
    simp only [memberRecords, methodRecord, methodShape]
    cases hbody : decl.body with
    | none =>
      rw [hbody] at h
      cases fails_throw.mp h
      rfl
    | some body =>
      simp only [hbody, fails_computed_bind (run_methodHead names decl span session), hidle.layout,
        Context.laidOut_self] at h
      rcases h with hhead | ⟨⟨returnType, name⟩, hhead, h⟩
      · simp only [hhead, bind, Except.bind]
      · have herror := functionLike_fails hidle hnone (hfits decl.visibility) h
        simp only [hhead, bind, Except.bind, pure, Except.pure, herror]
  | constructor span decl =>
    simp only [classMember, constructorDecl, fails_lift_bind] at h
    simp only [memberRecords, methodRecord, constructorShape]
    rcases h with hneeds | ⟨_, hneeds, h⟩
    · simp only [hneeds, bind, Except.bind]
    cases hbody : decl.body with
    | none =>
      rw [hbody] at h
      cases fails_throw.mp h
      simp only [hneeds, bind, Except.bind]
      rfl
    | some body =>
      simp only [hbody] at h
      have herror := functionLike_fails hidle hnone (hfits decl.visibility) h
      simp only [hneeds, bind, Except.bind, pure, Except.pure, herror]

theorem classMembers_fails {names : ClassNames} : ∀ {members : List ClassMember}
    {session : Session} {owner : ClassRecord}, Idle cx session → session.openFunction = none →
    session.openClass = some owner → Fails (classMembers cx names members) session e →
    membersRecords cx names members = .error e
  | [], session, owner, _, _, _, h => absurd h not_fails_pure
  | member :: rest, session, owner, hidle, hnone, hclass, h => by
    rcases fails_bind.mp h with hfirst | ⟨_, between, hfirst, hrest⟩
    · simp only [membersRecords, classMember_fails hidle hnone hclass hfirst, bind, Except.bind]
    · obtain ⟨first, hadded, rfl⟩ := classMember_gives hidle hnone hclass hfirst
      have hothers : membersRecords cx names rest = .error e :=
        classMembers_fails (by exact ⟨hidle.layout, hidle.stages⟩) (by exact hnone) rfl hrest
      simp only [membersRecords, hadded, hothers, bind, Except.bind]

theorem receiverFunction_fails {names : ClassNames} {decl : MethodDecl} {span : Span}
    (hidle : Between cx session) (h : Fails (receiverFunction cx names decl span) session e) :
    (receiverShape cx names decl span >>= functionRecord cx) = .error e := by
  unfold receiverFunction at h
  split at h
  · rename_i node body hnode hbody
    simp only [receiverShape, hnode, hbody]
    simp only [fails_typeString_bind, fails_lift_bind, hidle.layout, Context.laidOut_self] at h
    rcases h with htype | ⟨returnType, htype, h⟩
    · simp only [htype, bind, Except.bind]
    rcases h with hbound | ⟨bound, hbound, h⟩
    · simp only [htype, hbound, bind, Except.bind]
    have hfits : Fits session none := by simp [Fits, hidle.classRecord]
    have herror := functionLike_fails hidle.toIdle hidle.function hfits h
    simp only [htype, hbound, bind, Except.bind, pure, Except.pure, herror]
  · rename_i hincomplete
    cases fails_throw.mp h
    have hshape : receiverShape cx names decl span
        = failAt span (.incompleteMethod decl.name) := by
      unfold receiverShape
      split
      · rename_i node body hnode hbody
        exact absurd hbody (hincomplete node body hnode)
      · rfl
    rw [hshape]
    rfl

theorem receiverFunctions_fails {names : ClassNames} : ∀ {members : List ClassMember}
    {session : Session}, Between cx session →
    Fails (receiverFunctions cx names members) session e →
    receiverRecords cx names members = .error e
  | [], session, _, h => absurd h not_fails_pure
  | .property .. :: rest, session, hidle, h
  | .constructor .. :: rest, session, hidle, h => by
    rw [receiverFunctions] at h
    · rw [receiverRecords]
      · exact receiverFunctions_fails hidle h
      · intro _ _ hmethod
        cases hmethod
    · intro _ _ hmethod
      cases hmethod
  | .method span decl :: rest, session, hidle, h => by
    rw [receiverFunctions] at h
    rw [receiverRecords]
    by_cases hd : decl.name = Spelling.destructor
    · simp only [hd, if_true] at h ⊢
      exact receiverFunctions_fails hidle h
    · simp only [hd, if_false] at h ⊢
      rcases fails_bind.mp h with hfirst | ⟨_, between, hfirst, hrest⟩
      · have herror := receiverFunction_fails hidle hfirst
        rw [← bind_assoc, herror]
        rfl
      · obtain ⟨shape, record, hshape, hrecord, rfl⟩ :=
          receiverFunction_gives hidle.toIdle hidle.classRecord hfirst
        have hothers : receiverRecords cx names rest = .error e := receiverFunctions_fails
          (by exact ⟨⟨hidle.layout, hidle.stages⟩, rfl, hidle.classRecord⟩) hrest
        simp only [hshape, hrecord, hothers, bind, Except.bind]

theorem not_fails_endClass {span : Span} {record : ClassRecord}
    (hclass : session.openClass = some record) : ¬ Fails (endClass span) session e := by
  have hgives : Gives (endClass span) session () _ := gives_endClass.mpr ⟨record, hclass, rfl⟩
  exact hgives.not_fails

theorem classDecl_fails {decl : ClassDecl} {span : Span} (hidle : Between cx session)
    (h : Fails (classDecl cx decl span) session e) : classOutput cx decl span = .error e := by
  unfold classDecl at h
  unfold classOutput
  cases hname : decl.name with
  | none =>
    rw [hname] at h
    cases fails_throw.mp h
    rfl
  | some declared =>
    simp only [hname] at h ⊢
    cases hclass : cx.model.class? declared with
    | none =>
      rw [hclass] at h
      cases fails_throw.mp h
      rfl
    | some found =>
      obtain ⟨item, info⟩ := found
      simp only [hclass, fails_bind, gives_beginClass] at h ⊢
      -- Beginning and ending the class cannot fail, so one of its members or receiver functions does.
      rcases h with hbegin | ⟨_, _, ⟨-, -, rfl⟩, h⟩
      · have hgives : Gives (beginClass
            { name := info.traits.writtenName cx.mangling item.name
              ownership := info.traits.ownership } span) session () _ :=
          gives_beginClass.mpr ⟨hidle.classRecord, hidle.function, rfl⟩
        exact absurd hbegin hgives.not_fails
      rcases h with hmembers | ⟨_, _, hmembers, h⟩
      · have herror : membersRecords cx (classNames cx declared item info) decl.members
            = .error e := classMembers_fails
          (by exact ⟨hidle.layout, hidle.stages⟩) (by exact hidle.function) rfl hmembers
        simp only [herror, bind, Except.bind]
      obtain ⟨members, hadded, rfl⟩ := classMembers_gives
        (by exact ⟨hidle.layout, hidle.stages⟩) (by exact hidle.function) rfl hmembers
      rcases h with hend | ⟨_, _, hend, h⟩
      · exact absurd hend (not_fails_endClass rfl)
      obtain ⟨_, -, rfl⟩ := gives_endClass.mp hend
      have hadded' : membersRecords cx (classNames cx declared item info) decl.members
          = .ok members := hadded
      by_cases hr : cx.options.passes.contains .receiver = true
      · simp only [hr, if_true] at h
        have herror : receiverRecords cx (classNames cx declared item info) decl.members
            = .error e := receiverFunctions_fails
          (by exact ⟨⟨hidle.layout, hidle.stages⟩, hidle.function, rfl⟩) h
        simp only [hadded', hr, if_true, herror, bind, Except.bind]
      · simp only [hr] at h
        exact absurd h not_fails_pure

/-! ## Declarations -/

theorem not_fails_appendLines (lines : List String) : ¬ Fails (appendLines lines) session e := by
  induction lines generalizing session with
  | nil => exact not_fails_pure
  | cons line rest ih =>
    intro h
    rcases fails_bind.mp h with hline | ⟨_, between, -, hrest⟩
    · exact not_fails_modify hline
    · exact ih hrest

theorem decl_fails {declaration : Decl} (hidle : Between cx session)
    (h : Fails (decl cx declaration) session e) : declOutput cx declaration = .error e := by
  cases declaration with
  | importDecl span decl =>
    simp only [Emit.decl, importDecl, fails_lift_bind] at h
    rcases h with hspec | ⟨specifier, -, h⟩
    · simp only [declOutput, hspec, bind, Except.bind]
    rcases fails_bind.mp h with hline | ⟨_, _, -, hlines⟩
    · exact absurd hline not_fails_modify
    · exact absurd hlines (not_fails_appendLines _)
  | classDecl span decl =>
    by_cases hd : decl.declared = true
    · simp only [Emit.decl, hd, if_true] at h
      exact absurd h not_fails_pure
    · simp only [Emit.decl, hd] at h
      simp only [declOutput, hd]
      exact classDecl_fails hidle h
  | functionDecl span decl =>
    by_cases hd : decl.declared = true
    · simp only [Emit.decl, hd, if_true] at h
      exact absurd h not_fails_pure
    · simp only [Emit.decl, hd, functionDecl, Bool.false_eq_true, if_false, fails_lift_bind,
        fails_typeString_bind, hidle.layout, Context.laidOut_self] at h
      simp only [declOutput, hd, functionShape, Bool.false_eq_true, if_false]
      rcases h with hparts | ⟨⟨declared, node, body⟩, hparts, h⟩
      · simp only [hparts, bind, Except.bind]
      rcases h with hname | ⟨name, hname, h⟩
      · simp only [hparts, hname, bind, Except.bind]
      rcases h with htype | ⟨returnType, htype, h⟩
      · simp only [hparts, hname, htype, bind, Except.bind]
      have hfits : Fits session none := by simp [Fits, hidle.classRecord]
      have herror := functionLike_fails hidle.toIdle hidle.function hfits h
      simp only [hparts, hname, htype, bind, Except.bind, pure, Except.pure, herror]
  | interfaceDecl span decl => exact absurd h not_fails_pure
  | typeAlias span name => exact absurd h not_fails_pure
  | moduleDecl span decorators declared name body =>
    cases declared with
    | true => exact absurd h not_fails_pure
    | false =>
      cases fails_throw.mp h
      rfl

theorem decls_fails : ∀ {declarations : List Decl} {session : Session},
    Between cx session → Fails (decls cx declarations) session e →
    declsOutput cx declarations = .error e
  | [], session, _, h => absurd h not_fails_pure
  | first :: rest, session, hidle, h => by
    rcases fails_bind.mp h with hfirst | ⟨_, between, hfirst, hrest⟩
    · simp only [declsOutput, decl_fails hidle hfirst, bind, Except.bind]
    · obtain ⟨output, houtput, rfl⟩ := decl_gives hidle hfirst
      have hothers : declsOutput cx rest = .error e := decls_fails (hidle.gain output) hrest
      simp only [declsOutput, houtput, hothers, bind, Except.bind]

/-- Declarations are written exactly if their output can be computed, and they leave it. -/
theorem gives_decls {declarations : List Decl} {after : Session} (hidle : Between cx session) :
    Gives (decls cx declarations) session () after ↔
      ∃ output, declsOutput cx declarations = .ok output ∧ after = gain session output := by
  constructor
  · exact decls_gives hidle
  · rintro ⟨output, houtput, rfl⟩
    rcases gives_or_fails (decls cx declarations) session with ⟨_, after, hgives⟩ | ⟨e, hfails⟩
    · obtain ⟨output', houtput', rfl⟩ := decls_gives hidle hgives
      cases houtput.symm.trans houtput'
      exact hgives
    · cases houtput.symm.trans (decls_fails hidle hfails)

theorem between_start : Between cx (.start cx.layout) := ⟨⟨rfl, rfl⟩, rfl, rfl⟩

end Emit

/-- **Writing a program is computing its output.** In particular the session can always be
finished. -/
theorem generateWith_run (options : Options) (model : Model) (program : Program) :
    generateWith options model program
      = (Emit.programOutput ⟨model, options⟩ program).map fun output =>
          (output.session options.layout).text options.outputOrder := by
  have hidle : Emit.Between ⟨model, options⟩ (.start options.layout) := Emit.between_start
  unfold generateWith
  dsimp only
  rcases Emit.gives_or_fails (Emit.program ⟨model, options⟩ program) (.start options.layout)
    with ⟨value, after, hgives⟩ | ⟨e, hfails⟩
  · obtain ⟨output, houtput, rfl⟩ := Emit.decls_gives hidle hgives
    have houtput' : Emit.programOutput ⟨model, options⟩ program = .ok output := houtput
    rw [show (Emit.program ⟨model, options⟩ program).run (.start options.layout) = _ from hgives,
      houtput']
    rfl
  · have herror : Emit.programOutput ⟨model, options⟩ program = .error e :=
      Emit.decls_fails hidle hfails
    obtain ⟨after, hrun⟩ := hfails
    rw [hrun, herror]
    rfl

end NativeLowering
