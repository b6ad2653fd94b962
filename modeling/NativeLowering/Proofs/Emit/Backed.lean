import NativeLowering.Proofs.Emit.Blame

/-!
# What rules internal faults out

Writing a program goes through its declarations. Internal faults are not among those it meets if the
model backs the program (`Backed`): it answers for the bindings of every body, it has the classes of
the receiver calls, and the functions of the program stand for functions in it.

The passes run before a body is written, and they put in receiver calls. Those are fine by
themselves (`receivedBy_closed`), so it is only the receiver calls of the program that matter.
-/

set_option autoImplicit false

namespace NativeLowering

open Lowered
open NativeLowering.Expr (Meets)
open Stmt (AllList)

attribute [local simp] Fault.Ordinary Fault.category Fault.expected_iff Fault.isInternal

/-! ## Models -/

/-- What rules internal faults out in a program, if they are not among the faults that may be met:
the model answers for the bindings that the bodies come to, receiver calls are to methods of its
classes, and it has the functions of the program. -/
structure Backed (P : Fault → Prop) (I : Locals → Prop) (model : Model) (program : Program) :
    Prop where
  closed : Locals.Closed model I
  answers : ∀ locals, I locals → Unless P (model.Answers locals)
  free : I (.start none)
  member : ∀ owner, program.Owns owner → I (.start (some owner))
  parts : ∀ decl ∈ program.decls, Unless P (decl.All (Meets (receivedBy model)) fun _ _ => True)
  functions : ∀ span decl name, .functionDecl span decl ∈ program.decls → decl.name = some name →
    Unless P (∃ symbol, model.resolve? name = some symbol ∧ symbol.kind = .functionKind)

/-- Receiver calls are put in for methods of classes only, and with a receiver. -/
theorem receivedBy_closed (model : Model) :
    (receivedBy model).Closed (fun _ _ => True) (fun _ => True) model where
  push _ _ := trivial
  declare _ _ _ := trivial
  noTypes := trivial
  pair := trivial
  destructor _ := ⟨trivial, trivial⟩
  address _ := trivial
  receiver others hdeclares _ := by
    refine ⟨?_, Nat.succ_ne_zero others⟩
    obtain ⟨info, hinfo, -⟩ := (Option.any_eq_true _ _).mp hdeclares
    obtain ⟨known, hknown, -⟩ := Option.bind_eq_some_iff.mp hinfo
    obtain ⟨found, hfound, -⟩ := Option.map_eq_some_iff.mp hknown
    rw [hfound]
    rfl
  temporary _ _ _ _ := ⟨trivial, trivial⟩

/-! ## Functions -/

namespace Emit

section Declarations

variable {P : Fault → Prop} (hP : ∀ cause : Fault, cause.Expected → P cause) {I : Locals → Prop}
  {cx : Context} {program : Program} (h : Backed P I cx.model program)
include hP h

theorem exprText_fine {locals : Locals} (hlocals : I locals) {value : Expr}
    (hvalue : Unless P (value.Meets (receivedBy cx.model))) : (exprText cx locals value).Blames P :=
  exprText_blames hP (h.answers locals hlocals) value hvalue

theorem paramRecord_ends {locals : Locals} (hlocals : I locals) {param : Param}
    (hdefault : ∀ value, param.default = some value →
      Unless P (value.Meets (receivedBy cx.model))) :
    (paramRecord cx locals param).Ends P fun result => I result.2 := by
  have hname : (paramName param).Blames P := by
    unfold paramName
    split
    · simp [hP]
    · split <;> simp [hP]
  have htype (name : String) : (paramType param name).Blames P := by
    unfold paramType
    split <;> simp [hP]
  have htext : (defaultText cx locals param.default).Blames P := by
    cases hvalue : param.default with
    | none => exact blames_ok _
    | some value => exact blames_map.mpr (exprText_fine hP h hlocals (hdefault value hvalue))
  refine hname.ends.bind fun name _ => (htype name).ends.bind fun node _ => ?_
  refine (typePiece_blames hP node).ends.bind fun type _ => htext.ends.bind fun _ _ => ?_
  exact ends_pure (h.closed.annotated name node hlocals)

theorem paramRecords_end {params : List Param}
    (hdefaults : ∀ param ∈ params, ∀ value, param.default = some value →
      Unless P (value.Meets (receivedBy cx.model))) : ∀ {locals : Locals}, I locals →
    (paramRecords cx locals params).Ends P fun result => I result.2 := by
  induction params with
  | nil => exact fun hlocals => ends_pure hlocals
  | cons param rest ih =>
    intro locals hlocals
    refine (paramRecord_ends hP h hlocals (hdefaults param (by simp))).bind fun first hfirst => ?_
    exact (ih (fun other hm => hdefaults other (by simp [hm])) hfirst).bind fun _ hlast =>
      ends_pure hlast

/-- A function in which no internal fault is met, unless it may be. -/
structure FunctionShape.Sound (P : Fault → Prop) (I : Locals → Prop) (model : Model)
    (shape : FunctionShape) : Prop where
  start : I (.start shape.thisClass)
  defaults : ∀ param ∈ shape.params, ∀ value, param.default = some value →
    Unless P (value.Meets (receivedBy model))
  body : Unless P (AllList (Meets (receivedBy model)) (fun _ _ => True) shape.body)

theorem functionRecord_blames {shape : FunctionShape} (hshape : shape.Sound P I cx.model) :
    (functionRecord cx shape).Blames P := by
  refine ((paramRecords_end hP h hshape.defaults hshape.start).bind
    (R := fun _ => True) fun result hlocals => ?_).blames
  obtain ⟨records, locals⟩ := result
  have hlowered : (loweredBody cx locals shape.body).Ends P fun lowered =>
      AllList (fun value => Unless P (value.Meets (receivedBy cx.model))) (fun _ _ => True)
        lowered := by
    refine ⟨passes_blames hP _ _ _ _ _, fun lowered hrun => ?_⟩
    rcases hshape.body with hall | hbody
    · exact Stmt.allList_iff.mpr fun stmt _ =>
        (Stmt.all_trivial stmt).imp (fun _ _ => .inl hall) fun _ _ _ => trivial
    · exact ((receivedBy_closed cx.model).passes trivial hbody hrun).imp
        (fun _ hvalue => .inr hvalue) fun _ _ hdecl => hdecl
  refine hlowered.bind fun lowered hbody => ?_
  have hspell (locals : Locals) (value : Expr) (hlocals : I locals)
      (hvalue : Unless P (value.Meets (receivedBy cx.model))) :
      (exprText cx locals value).Blames P := exprText_fine hP h hlocals hvalue
  have hstmts := Stmt.allList_iff.mp hbody
  exact (stmts_end_of_forall (fun stmt hm => content_ends hP hspell h.closed stmt (hstmts stmt hm))
    1 hlocals).bind fun _ _ => ends_pure trivial

theorem functionShape_blames {span : Span} {decl : FunctionDecl}
    (hdecl : .functionDecl span decl ∈ program.decls) :
    (functionShape cx decl span).Blames P := by
  have hparts : (functionParts decl span).Ends P fun parts => decl.name = some parts.1 := by
    unfold functionParts
    split
    · exact ⟨by simp [hP], nofun⟩
    · rename_i name hname
      split
      · exact ⟨by simp [hP], nofun⟩
      · split
        · exact ⟨by simp [hP], nofun⟩
        · exact ⟨by simp [hP], nofun⟩
        · exact ends_pure hname
  have hname (declared : String) (hdeclared : decl.name = some declared) :
      (functionName cx declared span).Blames P := by
    have hknown := h.functions span decl declared hdecl hdeclared
    unfold functionName
    split
    · rename_i symbol hsymbol
      split
      · simp
      · rename_i hother
        refine hknown.blames rfl ?_
        rintro ⟨found, hfound, hkind⟩
        rw [hsymbol] at hfound
        cases hfound
        exact hother hkind
    · rename_i hunknown
      refine hknown.blames rfl ?_
      rintro ⟨found, hfound, -⟩
      rw [hunknown] at hfound
      cases hfound
  refine (hparts.bind (R := fun _ => True) fun parts hdeclared => ?_).blames
  refine (hname parts.1 hdeclared).ends.bind fun _ _ => ?_
  exact (typePiece_blames hP parts.2.1).ends.bind fun _ _ => ends_pure trivial

omit hP in
theorem functionShape_sound {span : Span} {decl : FunctionDecl}
    (hdecl : .functionDecl span decl ∈ program.decls) {shape : FunctionShape}
    (hshape : functionShape cx decl span = .ok shape) : shape.Sound P I cx.model := by
  have hparts := h.parts _ hdecl
  obtain ⟨declared, -, -, hparams, hbody⟩ := functionShape_parts hshape
  refine ⟨?_, fun param hparam value hvalue => hparts.imp fun hall => ?_, hparts.imp fun hall => ?_⟩
  · have hfree : shape.thisClass = none := by
      simp only [functionShape, Lowered.bind_eq_ok, Lowered.pure_eq_ok] at hshape
      obtain ⟨_, -, _, -, _, -, rfl⟩ := hshape
      rfl
    rw [hfree]
    exact h.free
  · rw [hparams] at hparam
    exact hall.defaults param hparam value hvalue
  · exact hall.bodies _ (by simp [Decl.bodies, hbody])

omit h in
theorem memberShape_blames (names : ClassNames) {member : ClassMember}
    {computed : Lowered FunctionShape} (hmember : memberShape? cx names member = some computed) :
    computed.Blames P := by
  cases member with
  | property span decl => cases hmember
  | method span decl =>
    obtain rfl := Option.some.inj hmember
    have hhead : (methodHeadText cx names decl span).Blames P := by
      unfold methodHeadText
      split
      · split <;> simp [hP]
      · split
        · simp [hP]
        · exact blames_map.mpr (typePiece_blames hP _)
    unfold methodShape
    split
    · simp [hP]
    · exact hhead.bind fun _ => blames_pure _
  | constructor span decl =>
    obtain rfl := Option.some.inj hmember
    have hneeds : (requireAllocation cx names.declared span).Blames P := by
      unfold requireAllocation
      split
      · simp [hP]
      · split <;> simp [hP]
    refine hneeds.bind fun _ => ?_
    split <;> simp [hP]

omit h in
theorem receiverShape_blames (names : ClassNames) (decl : MethodDecl) (span : Span) :
    (receiverShape cx names decl span).Blames P := by
  unfold receiverShape
  split
  · refine (typePiece_blames hP _).bind fun _ => Lowered.Blames.bind ?_ fun _ => blames_pure _
    exact Walk.body_blames (fun _ _ _ => Walk.blames_pure _) (Locals.closed_true cx.model) trivial _
  · simp [hP]

/-! ## Classes and programs -/

section Class

variable {span : Span} {decl : ClassDecl} (hdecl : .classDecl span decl ∈ program.decls)
  {declared : String} (hname : decl.name = some declared) {names : ClassNames}
  (hnames : names.declared = declared)
include hdecl hname hnames

omit hP in
theorem memberShape_sound (hown : decl.declared = false) {member : ClassMember}
    (hmember : member ∈ decl.members) {shape : FunctionShape}
    (hshape : memberShape? cx names member = some (.ok shape)) : shape.Sound P I cx.model := by
  have hparts := h.parts _ hdecl
  have hplace : shape.params = member.params ∧ shape.thisClass = some names.declared :=
    memberShape_place hshape
  refine ⟨?_, fun param hparam value hvalue => hparts.imp fun hall => ?_, hparts.imp fun hall => ?_⟩
  · rw [hplace.2, hnames]
    exact h.member declared ⟨span, decl, hdecl, hown, hname⟩
  · rw [hplace.1] at hparam
    exact (hall.memberParam hmember hparam).2 value hvalue
  · exact hall.memberBody hmember (memberShape_body hshape)

omit hP hname hnames in
theorem receiverShape_sound {place : Span} {method : MethodDecl}
    (hmember : .method place method ∈ decl.members) {shape : FunctionShape}
    (hshape : receiverShape cx names method place = .ok shape) : shape.Sound P I cx.model := by
  have hparts := h.parts _ hdecl
  obtain ⟨body, hbody, hbound, -, hparams, hfree⟩ := receiverShape_parts hshape
  refine ⟨?_, fun param hparam value hvalue => ?_, hparts.imp fun hall => ?_⟩
  · rw [hfree]
    exact h.free
  · rw [hparams] at hparam
    rcases List.mem_cons.mp hparam with rfl | hparam
    · cases hvalue
    · exact hparts.imp fun hall => (hall.memberParam hmember hparam).2 value hvalue
  · exact (receivedBy_closed cx.model).bindReceiver trivial trivial
      (hall.memberBody hmember hbody) hbound

theorem memberRecords_blames (hown : decl.declared = false) {member : ClassMember}
    (hmember : member ∈ decl.members) : (memberRecords cx names member).Blames P := by
  have hmethod {visibility : Visibility} {computed : Lowered FunctionShape}
      (hcomputed : memberShape? cx names member = some computed) :
      (methodRecord cx visibility computed).Blames P := by
    have hshape : computed.Ends P fun shape => shape.Sound P I cx.model := by
      refine ⟨memberShape_blames hP names hcomputed, ?_⟩
      rintro shape rfl
      exact memberShape_sound h hdecl hname hnames hown hmember hcomputed
    refine (hshape.bind (R := fun _ => True) fun shape hsound => ?_).blames
    exact (functionRecord_blames hP h hsound).ends.bind fun _ _ => ends_pure trivial
  cases member with
  | property place property =>
    rw [memberRecords]
    split
    · simp [hP]
    · exact (typePiece_blames hP _).bind fun _ => blames_pure _
  | method place method => exact hmethod rfl
  | constructor place constructor => exact hmethod rfl

omit hname hnames in
theorem receiverRecords_blames {members : List ClassMember}
    (hmembers : ∀ member ∈ members, member ∈ decl.members) :
    (receiverRecords cx names members).Blames P := by
  induction members with
  | nil => exact blames_ok _
  | cons member rest ih =>
    have hrest := ih fun other hm => hmembers other (by simp [hm])
    cases member with
    | method place method =>
      rw [receiverRecords]
      split
      · exact hrest
      · have hshape : (receiverShape cx names method place).Ends P
            fun shape => shape.Sound P I cx.model :=
          ⟨receiverShape_blames hP names method place, fun shape hrun =>
            receiverShape_sound h hdecl (hmembers _ (by simp)) hrun⟩
        refine (hshape.bind (R := fun _ => True) fun shape hsound => ?_).blames
        refine (functionRecord_blames hP h hsound).ends.bind fun _ _ => ?_
        exact hrest.ends.bind fun _ _ => ends_pure trivial
    | property place property => exact hrest
    | constructor place constructor => exact hrest

end Class

theorem classOutput_blames {span : Span} {decl : ClassDecl}
    (hdecl : .classDecl span decl ∈ program.decls) (hown : decl.declared = false) :
    (classOutput cx decl span).Blames P := by
  unfold classOutput
  split
  · simp [hP]
  · rename_i declared hname
    split
    · rename_i hunknown
      refine (h.answers _ (h.member declared ⟨span, decl, hdecl, hown, hname⟩)).blames rfl ?_
      intro hanswers
      have hclass : (cx.model.class? declared).isSome = true := hanswers.known.owner declared rfl
      rw [hunknown] at hclass
      cases hclass
    · rename_i item info hknown
      have hmembers {members : List ClassMember} (hin : ∀ member ∈ members, member ∈ decl.members) :
          (membersRecords cx (classNames cx declared item info) members).Blames P := by
        induction members with
        | nil => exact blames_ok _
        | cons member rest ih =>
          have hfirst : (memberRecords cx (classNames cx declared item info) member).Blames P :=
            memberRecords_blames hP h hdecl hname rfl hown (hin member (by simp))
          exact hfirst.bind fun _ =>
            (ih fun other hm => hin other (by simp [hm])).bind fun _ => blames_pure _
      refine (hmembers fun _ hm => hm).bind fun _ => ?_
      dsimp only
      split
      · exact (receiverRecords_blames hP h hdecl fun _ hm => hm).bind fun _ => blames_pure _
      · exact (blames_ok _).bind fun _ => blames_pure _

theorem declOutput_blames {decl : Decl} (hdecl : decl ∈ program.decls) :
    (declOutput cx decl).Blames P := by
  cases decl with
  | importDecl span decl =>
    refine Lowered.Blames.bind ?_ fun _ => blames_pure _
    unfold ImportDecl.specifierText
    split <;> simp [hP]
  | classDecl span decl =>
    rw [declOutput]
    split
    · exact blames_ok _
    · rename_i hown
      exact classOutput_blames hP h hdecl (Bool.eq_false_iff.mpr hown)
  | functionDecl span decl =>
    rw [declOutput]
    split
    · exact blames_ok _
    · have hshape : (functionShape cx decl span).Ends P fun shape => shape.Sound P I cx.model :=
        ⟨functionShape_blames hP h hdecl, fun _ hrun => functionShape_sound h hdecl hrun⟩
      refine (hshape.bind (R := fun _ => True) fun shape hsound => ?_).blames
      exact (functionRecord_blames hP h hsound).ends.bind fun _ _ => ends_pure trivial
  | interfaceDecl span decl => exact blames_ok _
  | typeAlias span name => exact blames_ok _
  | moduleDecl span decorators declared name body =>
    rw [declOutput]
    split <;> simp [hP]

theorem declsOutput_blames {decls : List Decl} (hdecls : ∀ decl ∈ decls, decl ∈ program.decls) :
    (declsOutput cx decls).Blames P := by
  induction decls with
  | nil => exact blames_ok _
  | cons decl rest ih =>
    refine (declOutput_blames hP h (hdecls decl (by simp))).bind fun _ => ?_
    exact (ih fun other hm => hdecls other (by simp [hm])).bind fun _ => blames_pure _

end Declarations

end Emit

/-- **What writing a program can meet.** It fails with expected faults only, and with internal ones
if those are not ruled out. -/
theorem Backed.blames {P : Fault → Prop} (hP : ∀ cause : Fault, cause.Expected → P cause)
    {I : Locals → Prop} {model : Model} {program : Program} (h : Backed P I model program)
    (options : Options) : (generateWith options model program).Blames P := by
  rw [generateWith_run]
  exact blames_map.mpr (Emit.declsOutput_blames hP h fun _ hdecl => hdecl)

end NativeLowering
