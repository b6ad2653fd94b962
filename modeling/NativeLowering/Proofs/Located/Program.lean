import NativeLowering.Proofs.Emit.Outcome
import NativeLowering.Proofs.Located.Passes
import NativeLowering.Proofs.Located.Text
import NativeLowering.Syntax.Build

/-!
# Errors point into the sources

A program that is not lowered is told at which place: every error has a span, and this is the span of
a node of the program or of one of its preludes.
-/

set_option autoImplicit false

namespace NativeLowering

open Lowered

namespace Emit

variable {S : Span → Prop} {cx : Context}

/-! ## Functions -/

theorem param_points (locals : Locals) {param : Param} (h : Within S param.spans) :
    (paramRecord cx locals param).Points S := by
  simp only [Param.spans, within_cons, within_append, within_spansOption] at h
  obtain ⟨hspan, htype, hdefault⟩ := h
  have hname : (paramName param).Points S := by
    unfold paramName
    split
    · exact located_failAt.mpr hspan
    · split
      · trivial
      · exact located_failAt.mpr hspan
  have htyped (name : String) :
      Located S (fun node => Within S node.spans) (paramType param name) := by
    unfold paramType
    split
    · rename_i node hnode
      exact htype node hnode
    · exact located_failAt.mpr hspan
  have hvalue : (defaultText cx locals param.default).Points S := by
    unfold defaultText
    split
    · trivial
    · rename_i value hin
      exact (exprText_points value (hdefault value hin)).map _
  exact hname.bind fun name => (htyped name).bind fun node hnode =>
    (typePiece_points hnode).bind fun _ => hvalue.bind fun _ => trivial

theorem params_points : ∀ (locals : Locals) (params : List Param),
    (∀ param ∈ params, Within S param.spans) → (paramRecords cx locals params).Points S
  | _, [], _ => trivial
  | locals, first :: rest, h => by
    obtain ⟨hfirst, hrest⟩ := List.forall_mem_cons.mp h
    exact (param_points locals hfirst).bind fun entry =>
      (params_points entry.2 rest hrest).bind fun _ => trivial

/-- The parameters and the body of a function have their spans in the set. -/
structure FunctionShape.Within (S : Span → Prop) (shape : FunctionShape) : Prop where
  params : ∀ param ∈ shape.params, NativeLowering.Within S param.spans
  body : WithinAll S shape.body

theorem functionRecord_points {shape : FunctionShape} (h : shape.Within S) :
    (functionRecord cx shape).Points S := by
  refine (params_points _ shape.params h.params).bind fun entry => ?_
  refine (PassSet.run_located h.body cx.options.passes).bind fun lowered hlowered => ?_
  exact (Draft.stmts_points 1 _ lowered (within_stmtSpans.mpr hlowered)).bind fun _ => trivial

theorem functionShape_located {decl : FunctionDecl} {span : Span}
    (h : Within S (Decl.functionDecl span decl).spans) :
    Located S (FunctionShape.Within S) (functionShape cx decl span) := by
  simp only [Decl.spans, within_cons, within_append, within_flatMap, within_spansOption,
    within_stmtSpans] at h
  obtain ⟨hspan, -, hparams, htype, hbody⟩ := h
  have hparts : Located S (fun parts => Within S parts.2.1.spans ∧ WithinAll S parts.2.2)
      (functionParts decl span) := by
    unfold functionParts
    split
    · exact located_failAt.mpr hspan
    · split
      · exact located_failAt.mpr hspan
      · split
        · exact located_failAt.mpr hspan
        · exact located_failAt.mpr hspan
        · rename_i node body hnode hin
          exact ⟨htype node hnode, hbody body hin⟩
  have hname (declared : String) : (functionName cx declared span).Points S := by
    unfold functionName
    split
    · split
      · trivial
      · exact located_failAt.mpr hspan
    · exact located_failAt.mpr hspan
  exact hparts.bind fun parts hparts => (hname parts.1).bind fun _ =>
    (typePiece_points hparts.1).bind fun _ => ⟨hparams, hparts.2⟩

theorem methodShape_located {names : ClassNames} {decl : MethodDecl} {span : Span}
    (h : Within S (ClassMember.method span decl).spans) :
    Located S (FunctionShape.Within S) (methodShape cx names decl span) := by
  simp only [ClassMember.spans, within_cons, within_append, within_flatMap, within_spansOption,
    within_stmtSpans] at h
  obtain ⟨hspan, -, hparams, htype, hbody⟩ := h
  have hhead : (methodHeadText cx names decl span).Points S := by
    unfold methodHeadText
    split
    · split
      · exact located_failAt.mpr hspan
      · trivial
    · split
      · exact located_failAt.mpr hspan
      · rename_i node hnode
        exact (typePiece_points (htype node hnode)).map _
  unfold methodShape
  split
  · exact located_failAt.mpr hspan
  · rename_i body hin
    exact hhead.bind fun _ => ⟨hparams, hbody body hin⟩

theorem constructorShape_located {names : ClassNames} {decl : ConstructorDecl} {span : Span}
    (h : Within S (ClassMember.constructor span decl).spans) :
    Located S (FunctionShape.Within S) (constructorShape cx names decl span) := by
  simp only [ClassMember.spans, within_cons, within_append, within_flatMap, within_spansOption,
    within_stmtSpans] at h
  obtain ⟨hspan, hparams, hbody⟩ := h
  have hallocation : (requireAllocation cx names.declared span).Points S := by
    unfold requireAllocation
    split
    · exact located_failAt.mpr hspan
    · split
      · exact located_failAt.mpr hspan
      · trivial
  refine hallocation.bind fun _ => ?_
  split
  · exact located_failAt.mpr hspan
  · rename_i body hin
    exact ⟨hparams, hbody body hin⟩

/-- The parameter for the receiver has the span of its method. -/
theorem receiverParam_within (owner : String) {span : Span} (h : S span) :
    Within S (receiverParam owner span).spans := by
  simp only [receiverParam, Param.spans, spansOption, TypeNode.spans, TypeNode.spansList,
    within_cons, within_append, within_nil]
  exact ⟨h, ⟨h, ⟨h, trivial⟩, trivial⟩, trivial⟩

theorem receiverShape_located {names : ClassNames} {decl : MethodDecl} {span : Span}
    (h : Within S (ClassMember.method span decl).spans) :
    Located S (FunctionShape.Within S) (receiverShape cx names decl span) := by
  simp only [ClassMember.spans, within_cons, within_append, within_flatMap, within_spansOption,
    within_stmtSpans] at h
  obtain ⟨hspan, -, hparams, htype, hbody⟩ := h
  unfold receiverShape
  split
  · rename_i node body hnode hin
    refine (typePiece_points (htype node hnode)).bind fun _ => ?_
    refine (Receiver.bindReceiver_located (hbody body hin)).bind fun bound hbound => ?_
    exact ⟨List.forall_mem_cons.mpr ⟨receiverParam_within names.declared hspan, hparams⟩, hbound⟩
  · exact located_failAt.mpr hspan

/-! ## Classes and programs -/

theorem methodRecord_points {visibility : Visibility} {shape : Lowered FunctionShape}
    (h : Located S (FunctionShape.Within S) shape) : (methodRecord cx visibility shape).Points S :=
  h.bind fun _ hshape => (functionRecord_points hshape).bind fun _ => trivial

theorem memberRecords_points (names : ClassNames) {member : ClassMember}
    (h : Within S member.spans) : (memberRecords cx names member).Points S := by
  cases member with
  | property span decl =>
    simp only [ClassMember.spans, within_cons, within_spansOption] at h
    rw [memberRecords]
    split
    · exact located_failAt.mpr h.1
    · rename_i node hnode
      exact (typePiece_points (h.2 node hnode)).bind fun _ => trivial
  | method span decl => exact methodRecord_points (methodShape_located h)
  | constructor span decl => exact methodRecord_points (constructorShape_located h)

theorem membersRecords_points (names : ClassNames) : ∀ members : List ClassMember,
    (∀ member ∈ members, Within S member.spans) → (membersRecords cx names members).Points S
  | [], _ => trivial
  | member :: rest, h => by
    obtain ⟨hmember, hrest⟩ := List.forall_mem_cons.mp h
    exact (memberRecords_points names hmember).bind fun _ =>
      (membersRecords_points names rest hrest).bind fun _ => trivial

theorem receiverRecords_points (names : ClassNames) : ∀ members : List ClassMember,
    (∀ member ∈ members, Within S member.spans) → (receiverRecords cx names members).Points S
  | [], _ => trivial
  | .method span decl :: rest, h => by
    obtain ⟨hmember, hrest⟩ := List.forall_mem_cons.mp h
    rw [receiverRecords]
    split
    · exact receiverRecords_points names rest hrest
    · exact (receiverShape_located hmember).bind fun _ hshape =>
        (functionRecord_points hshape).bind fun _ =>
        (receiverRecords_points names rest hrest).bind fun _ => trivial
  | .property span decl :: rest, h =>
    receiverRecords_points names rest (List.forall_mem_cons.mp h).2
  | .constructor span decl :: rest, h =>
    receiverRecords_points names rest (List.forall_mem_cons.mp h).2

theorem classOutput_points {decl : ClassDecl} {span : Span}
    (h : Within S (Decl.classDecl span decl).spans) : (classOutput cx decl span).Points S := by
  simp only [Decl.spans, within_cons, within_append, within_flatMap] at h
  obtain ⟨hspan, -, hmembers⟩ := h
  unfold classOutput
  split
  · exact located_failAt.mpr hspan
  · split
    · exact located_failAt.mpr hspan
    · refine (membersRecords_points _ decl.members hmembers).bind fun _ => ?_
      dsimp only
      split
      · exact (receiverRecords_points _ decl.members hmembers).bind fun _ => trivial
      · trivial

theorem declOutput_points {decl : Decl} (h : Within S decl.spans) :
    (declOutput cx decl).Points S := by
  cases decl with
  | importDecl span decl =>
    exact (specifierText_points (within_cons.mp h).2).bind fun _ => trivial
  | classDecl span decl =>
    rw [declOutput]
    split
    · trivial
    · exact classOutput_points h
  | functionDecl span decl =>
    rw [declOutput]
    split
    · trivial
    · exact (functionShape_located h).bind fun _ hshape =>
        (functionRecord_points hshape).bind fun _ => trivial
  | interfaceDecl | typeAlias => trivial
  | moduleDecl span decorators declared name body =>
    rw [declOutput]
    split
    · trivial
    · exact located_failAt.mpr h.decl

theorem declsOutput_points : ∀ decls : List Decl, (∀ decl ∈ decls, Within S decl.spans) →
    (declsOutput cx decls).Points S
  | [], _ => trivial
  | first :: rest, h => by
    obtain ⟨hfirst, hrest⟩ := List.forall_mem_cons.mp h
    exact (declOutput_points hfirst).bind fun _ =>
      (declsOutput_points rest hrest).bind fun _ => trivial

end Emit

/-! ## Whole programs -/

/-- The spans of the nodes of a program and its preludes. -/
def sourceSpans (program : Program) (preludes : List Program) : List Span :=
  (program :: preludes).flatMap Program.spans

theorem generateWith_points {S : Span → Prop} (options : Options) (model : Model)
    {program : Program} (h : Within S program.spans) :
    (generateWith options model program).Points S := by
  rw [generateWith_run]
  exact (Emit.declsOutput_points program.decls (within_declSpans.mp h)).map _

/-- **Every error points into the sources**: a program that is not lowered is blamed at the span of
one of its own nodes or of a node of its preludes, whichever passes ran before. -/
theorem generate_error_span {options : Options} {program : Program} {preludes : List Program}
    {e : LoweringError} (h : generate options program preludes = .error e) :
    ∃ span, e.span? = some span ∧ span ∈ sourceSpans program preludes := by
  have hsources : Within (· ∈ sourceSpans program preludes) (sourceSpans program preludes) :=
    fun _ hspan => hspan
  have heach := within_flatMap.mp hsources
  have hpoints : (generate options program preludes).Points (· ∈ sourceSpans program preludes) :=
    (build_points heach).bind fun model =>
      generateWith_points options model (heach program List.mem_cons_self)
  rw [h] at hpoints
  exact hpoints

section Shapes

open Build

/-- A function that takes the address of what another one returns. -/
def shapeProgram : Program := program
  [ interface "Shape" [],
    function "main" [] void
      [exprStmt (call (ident "addressof") [.call ⟨20, 26⟩ (ident "make") none []])] ]

def shapePrelude : Program := program
  [declaredFunction "addressof" [] (keyword .number), declaredFunction "make" [] (type "Shape")]

/-- What a run is reported with: the place and the message. -/
def report? : Lowered String → Option (Option Span × String)
  | .ok _ => none
  | .error e => some (e.span?, e.message)

/-- The annotation of the temporary, which no source has, is blamed at the operand. -/
theorem generate_error_span_temporary :
    ∃ e, generate {} shapeProgram [shapePrelude] = .error e ∧
      e.message = "unsupported: interface `Shape` used as a type; " ++
        "only classes and native types can be lowered" ∧
      e.span? = some ⟨20, 26⟩ ∧
      ∃ span, e.span? = some span ∧ span ∈ sourceSpans shapeProgram [shapePrelude] := by
  have hreport : report? (generate {} shapeProgram [shapePrelude]) = some (some ⟨20, 26⟩,
      "unsupported: interface `Shape` used as a type; " ++
        "only classes and native types can be lowered") := by
    decide +kernel
  cases hrun : generate {} shapeProgram [shapePrelude] with
  | ok text =>
    rw [hrun] at hreport
    cases hreport
  | error e =>
    rw [hrun] at hreport
    obtain ⟨hspan, hmessage⟩ := Prod.mk.inj (Option.some.inj hreport)
    exact ⟨e, rfl, hmessage, hspan, generate_error_span hrun⟩

end Shapes

end NativeLowering
