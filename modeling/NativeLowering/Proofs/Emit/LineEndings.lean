import NativeLowering.Proofs.Emit.Outcome
import NativeLowering.Proofs.Emit.Returned
import NativeLowering.Proofs.Emit.Shapes
import NativeLowering.Proofs.Layout.Records
import NativeLowering.Syntax.Build

/-!
# Files with either line ending

What each declaration adds to a file is made of records, and the records of the two runs differ in
the carriage returns only. So do the files: with carriage returns asked for, a flat program fails as
it does without them, or its source is the same with a carriage return before each line feed
(`generate_returned`).
-/

set_option autoImplicit false

namespace NativeLowering

open Lowered (InStep Same Ensures ensures_fail ensures_ok)
open NativeLowering.Expr (Meets)
open Stmt (AllList)

namespace Emit

/-! ## Functions -/

/-- The second record is the first with a carriage return in each line ending. -/
structure FunctionReturns (record record' : FunctionRecord) : Prop where
  lineFed : record.LineFed
  returned : record' = record.returned

/-- The names and annotations of the function are flat, and so is its body. -/
structure FunctionShape.Flat (shape : FunctionShape) : Prop where
  returnType : ∀ type, shape.returnType = some type → Text.Flat type
  qualifier : ∀ qualifier, shape.qualifier = some qualifier → Text.Flat qualifier
  name : Text.Flat shape.name
  thisClass : ∀ owner, shape.thisClass = some owner → Text.Flat owner
  params : ∀ param ∈ shape.params, FlatBinding param.name param.type
  defaults : ∀ param ∈ shape.params, ∀ value, param.default = some value →
    value.Meets flatNodes
  body : AllList (Meets flatNodes) FlatBinding shape.body

section Functions

variable {cx : Context} (hcx : cx.Flat)
include hcx

theorem paramRecord_same [cx.model.Typed] {locals : Locals} (hlocals : locals.TypesMeet Ty.Flat)
    {param : Param} (hparam : FlatBinding param.name param.type)
    (hdefault : ∀ value, param.default = some value → value.Meets flatNodes) :
    InStep (Same fun result => result.1.Flat ∧ result.2.TypesMeet Ty.Flat)
      (paramRecord cx locals param) (paramRecord cx.returned locals param) := by
  have hnames : (paramName param).Ensures Text.Flat := by
    intro name hname
    exact hparam.1 name (paramName_eq_ok hname)
  have hnodes (name : String) : (paramType param name).Ensures TypeNode.Flat := by
    intro node hnode
    exact hparam.2 node (paramType_eq_ok hnode)
  have htexts : InStep (Same fun text => ∀ own, text = some own → Text.Flat own)
      (defaultText cx locals param.default) (defaultText cx.returned locals param.default) := by
    have hinitial (cx : Context) :
        defaultText cx locals param.default = Draft.initial (exprText cx) locals param.default := by
      cases param.default <;> rfl
    rw [hinitial, hinitial]
    exact optionText_same hcx hdefault
  refine hnames.inStep.bind fun _ name hname => ?_
  obtain ⟨rfl, hname⟩ := hname
  refine (hnodes name).inStep.bind fun _ node hnode => ?_
  obtain ⟨rfl, hnode⟩ := hnode
  refine (typePiece_same hcx hnode).bind fun _ type htype => ?_
  obtain ⟨rfl, htype⟩ := htype
  refine htexts.bind fun _ default hdefault => .ok ?_
  obtain ⟨rfl, hdefault⟩ := hdefault
  exact ⟨rfl, ⟨htype, hname, hdefault⟩, hlocals.declare name (hnode.denoted cx.model)⟩

theorem paramRecords_same [cx.model.Typed] {params : List Param}
    (hparams : ∀ param ∈ params, FlatBinding param.name param.type)
    (hdefaults : ∀ param ∈ params, ∀ value, param.default = some value → value.Meets flatNodes) :
    ∀ {locals : Locals}, locals.TypesMeet Ty.Flat →
    InStep (Same fun result =>
        (∀ record ∈ result.1, record.Flat) ∧ result.2.TypesMeet Ty.Flat)
      (paramRecords cx locals params) (paramRecords cx.returned locals params) := by
  induction params with
  | nil =>
    intro locals hlocals
    exact .ok ⟨rfl, List.forall_mem_nil _, hlocals⟩
  | cons param rest ih =>
    intro locals hlocals
    obtain ⟨hparam, hrest⟩ := List.forall_mem_cons.mp hparams
    obtain ⟨hdefault, hothers⟩ := List.forall_mem_cons.mp hdefaults
    refine (paramRecord_same hcx hlocals hparam hdefault).bind fun _ first hfirst => ?_
    obtain ⟨record, after⟩ := first
    obtain ⟨rfl, hrecord, hafter⟩ := hfirst
    refine (ih hrest hothers hafter).bind fun _ others hlast => .ok ?_
    obtain ⟨records, last⟩ := others
    obtain ⟨rfl, hrecords, hlast⟩ := hlast
    exact ⟨rfl, List.forall_mem_cons.mpr ⟨hrecord, hrecords⟩, hlast⟩

variable (hnewline : cx.layout.newline = "\n")
include hnewline

omit hcx in
theorem recordOf_returns {shape : FunctionShape} (hshape : shape.Flat) {params : List ParamRecord}
    (hparams : ∀ param ∈ params, param.Flat) {draft draft' : Draft} (h : draft.Returns draft') :
    FunctionReturns (recordOf cx shape params draft)
      (recordOf cx.returned shape params draft') := by
  refine ⟨⟨hshape.returnType, hshape.qualifier, hshape.name, hparams, hnewline⟩, ?_⟩
  have hhoisted := (Buffer.returns_atDepth hnewline 1).lines h.hoisted.2
  have hlines : (Buffer.atDepth cx.returned.layout 1).appendLines draft'.hoisted
      = ((Buffer.atDepth cx.layout 1).appendLines draft.hoisted).returned := by
    rw [h.hoisted.1]
    exact hhoisted.returned
  have hbody : (Buffer.atDepth cx.returned.layout 1).write draft'.text
      = ((Buffer.atDepth cx.layout 1).write draft.text).returned := by
    rw [h.text.returned]
    simp [Buffer.write, Buffer.returned, Buffer.atDepth, Context.returned_layout]
  unfold recordOf FunctionRecord.returned
  rw [hlines, hbody]
  rfl

/-- The record of a function is the same in both runs, up to the line endings. -/
theorem functionRecord_returns [cx.model.Typed] {shape : FunctionShape} (hshape : shape.Flat) :
    InStep FunctionReturns (functionRecord cx shape) (functionRecord cx.returned shape) := by
  have hstart : (Locals.start shape.thisClass).TypesMeet Ty.Flat := .start hshape.thisClass
  refine (paramRecords_same hcx hshape.params hshape.defaults hstart).bind fun _ entered h => ?_
  obtain ⟨params, locals⟩ := entered
  obtain ⟨rfl, hparams, hlocals⟩ := h
  have hlowered : (loweredBody cx locals shape.body).Ensures
      (AllList (Meets flatNodes) FlatBinding) := by
    intro lowered hrun
    exact hcx.model.closed.passes hlocals hshape.body hrun
  refine hlowered.inStep.bind fun _ lowered hbody => ?_
  obtain ⟨rfl, hbody⟩ := hbody
  have hstmts := Stmt.allList_iff.mp hbody
  refine (stmts_return_of_forall hnewline (fun stmt hm =>
    content_returns hcx hnewline stmt (hstmts stmt hm)) 1 locals).bind fun draft draft' hdraft => ?_
  exact .ok (recordOf_returns hnewline hshape hparams hdraft)

end Functions

/-! ### Shapes -/

/-- The names that the members of a class are written with are flat. -/
structure ClassNames.Flat (names : ClassNames) : Prop where
  declared : Text.Flat names.declared
  written : Text.Flat names.written

section Shapes

variable {cx : Context} (hcx : cx.Flat)
include hcx

theorem functionName_flat (declared : String) (span : Span) :
    (functionName cx declared span).Ensures Text.Flat := by
  unfold functionName
  split
  · rename_i symbol hsymbol
    split
    · rename_i hkind
      refine ensures_ok (symbol_flat hcx hsymbol ?_)
      rw [hkind]
      decide
    · exact ensures_fail _ _
  · exact ensures_fail _ _

theorem functionShape_same {span : Span} {decl : FunctionDecl}
    (hnames : (Decl.functionDecl span decl).FlatNames)
    (hall : (Decl.functionDecl span decl).All (Meets flatNodes) FlatBinding) :
    InStep (Same FunctionShape.Flat) (functionShape cx decl span)
      (functionShape cx.returned decl span) := by
  have hparts : (functionParts decl span).Ensures fun parts =>
      parts.2.1.Flat ∧ AllList (Meets flatNodes) FlatBinding parts.2.2 := by
    unfold functionParts
    split
    · exact ensures_fail _ _
    · split
      · exact ensures_fail _ _
      · split
        · exact ensures_fail _ _
        · exact ensures_fail _ _
        · rename_i node body hnode hbody
          exact ensures_ok ⟨hnames.2.2 node hnode, hall.bodies body (by simp [Decl.bodies, hbody])⟩
  refine hparts.inStep.bind fun _ parts hparts => ?_
  obtain ⟨declared, node, body⟩ := parts
  obtain ⟨rfl, hnode, hbody⟩ := hparts
  refine (functionName_flat hcx declared span).inStep.bind fun _ name hname => ?_
  obtain ⟨rfl, hname⟩ := hname
  refine (typePiece_same hcx hnode).bind fun _ type htype => .ok ?_
  obtain ⟨rfl, htype⟩ := htype
  refine ⟨rfl, ?_, ?_, hname, ?_, hall.params, hall.defaults, hbody⟩
  · intro own hown
    cases hown
    exact htype
  · intro own hown
    cases hown
  · intro owner howner
    cases howner

section Class

variable {names : ClassNames} (hwritten : names.Flat)
include hwritten

theorem methodHeadText_sameFlat {decl : MethodDecl} (hname : Text.Flat decl.name)
    (htype : TypeNode.FlatOption decl.returnType) (span : Span) :
    InStep (Same fun head => (∀ type, head.1 = some type → Text.Flat type) ∧ Text.Flat head.2)
      (methodHeadText cx names decl span) (methodHeadText cx.returned names decl span) := by
  unfold methodHeadText
  split
  · split
    · exact .error _
    · refine .ok ⟨rfl, fun type htype => ?_, Text.Flat.append (by decide) hwritten.written⟩
      cases htype
  · split
    · exact .error _
    · rename_i node hnode
      refine (typePiece_same hcx (htype node hnode)).map fun _ text htext => ?_
      obtain ⟨rfl, htext⟩ := htext
      refine ⟨rfl, fun type htype => ?_, hname⟩
      cases htype
      exact htext

variable {span : Span} {decl : ClassDecl}
  (hall : (Decl.classDecl span decl).All (Meets flatNodes) FlatBinding)
include hall

theorem methodShape_same {place : Span} {method : MethodDecl}
    (hmember : .method place method ∈ decl.members) (hname : Text.Flat method.name)
    (htype : TypeNode.FlatOption method.returnType) :
    InStep (Same FunctionShape.Flat) (methodShape cx names method place)
      (methodShape cx.returned names method place) := by
  unfold methodShape
  cases hbody : method.body with
  | none => exact .error _
  | some body =>
    refine (methodHeadText_sameFlat hcx hwritten hname htype place).bind fun _ head hhead => .ok ?_
    obtain ⟨type, name⟩ := head
    obtain ⟨rfl, hresult, hname⟩ := hhead
    refine ⟨rfl, hresult, ?_, hname, ?_, ?_, ?_, ?_⟩
    · intro own hown
      cases hown
      exact hwritten.written.append (by decide)
    · intro owner howner
      cases howner
      exact hwritten.declared
    · exact fun param hparam => (hall.memberParam hmember hparam).1
    · exact fun param hparam => (hall.memberParam hmember hparam).2
    · exact hall.memberBody hmember hbody

omit hcx in
theorem constructorShape_same {place : Span} {constructor : ConstructorDecl}
    (hmember : .constructor place constructor ∈ decl.members) :
    InStep (Same FunctionShape.Flat) (constructorShape cx names constructor place)
      (constructorShape cx.returned names constructor place) := by
  have hneeds : (requireAllocation cx names.declared place).Ensures fun _ => True :=
    fun _ _ => trivial
  refine hneeds.inStep.bind fun _ _ _ => ?_
  cases hbody : constructor.body with
  | none => exact .error _
  | some body =>
    refine .ok ⟨rfl, ?_, ?_, hwritten.written, ?_, ?_, ?_, ?_⟩
    · intro type htype
      cases htype
    · intro own hown
      cases hown
      exact hwritten.written.append (by decide)
    · intro owner howner
      cases howner
      exact hwritten.declared
    · exact fun param hparam => (hall.memberParam hmember hparam).1
    · exact fun param hparam => (hall.memberParam hmember hparam).2
    · exact hall.memberBody hmember hbody

theorem receiverShape_same [cx.model.Typed] {place : Span} {method : MethodDecl}
    (hmember : .method place method ∈ decl.members) (hname : Text.Flat method.name)
    (htype : TypeNode.FlatOption method.returnType) :
    InStep (Same FunctionShape.Flat) (receiverShape cx names method place)
      (receiverShape cx.returned names method place) := by
  unfold receiverShape
  split
  · rename_i node body hnode hbody
    have hfree : (Locals.start none).TypesMeet Ty.Flat :=
      .start fun owner howner => by cases howner
    have hbound : (Receiver.bindReceiver cx.model (.start none) body).Ensures
        (AllList (Meets flatNodes) FlatBinding) := by
      intro bound hrun
      exact hcx.model.closed.bindReceiver (by decide : Text.Flat Spelling.receiver) hfree
        (hall.memberBody hmember hbody) hrun
    refine (typePiece_same hcx (htype node hnode)).bind fun _ type htype => ?_
    obtain ⟨rfl, htype⟩ := htype
    refine hbound.inStep.bind fun _ bound hbound => .ok ?_
    obtain ⟨rfl, hbound⟩ := hbound
    have hreceiver : FlatBinding (receiverParam names.declared place).name
        (receiverParam names.declared place).type := by
      refine flatBinding_ident (by decide) (TypeNode.Flat.option ?_)
      exact ⟨List.forall_mem_singleton.mpr (by decide),
        ⟨List.forall_mem_singleton.mpr hwritten.declared, trivial⟩, trivial⟩
    refine ⟨rfl, ?_, ?_, (hwritten.written.append (by decide)).append hname, ?_, ?_, ?_, hbound⟩
    · intro own hown
      cases hown
      exact htype
    · intro own hown
      cases hown
    · intro owner howner
      cases howner
    · exact List.forall_mem_cons.mpr
        ⟨hreceiver, fun param hparam => (hall.memberParam hmember hparam).1⟩
    · refine List.forall_mem_cons.mpr ⟨fun value hvalue => ?_, fun param hparam =>
        (hall.memberParam hmember hparam).2⟩
      cases hvalue
  · exact .error _

end Class

end Shapes

/-! ## Classes and programs -/

/-- The second list holds what the values of the first become with carriage returns in their line
endings, and these meet a condition. -/
structure AllReturn {α : Type} (P : α → Prop) (returned : α → α) (values values' : List α) :
    Prop where
  meets : ∀ value ∈ values, P value
  eq : values' = values.map returned

namespace AllReturn

variable {α : Type} {P : α → Prop} {returned : α → α}

theorem nil : AllReturn P returned [] [] := ⟨List.forall_mem_nil _, rfl⟩

theorem single {value : α} (h : P value) : AllReturn P returned [value] [returned value] :=
  ⟨List.forall_mem_singleton.mpr h, rfl⟩

theorem append {first first' second second' : List α} (h : AllReturn P returned first first')
    (hsecond : AllReturn P returned second second') :
    AllReturn P returned (first ++ second) (first' ++ second') := by
  obtain ⟨hfirst, rfl⟩ := h
  obtain ⟨hsecond, rfl⟩ := hsecond
  exact ⟨List.forall_mem_append.mpr ⟨hfirst, hsecond⟩, List.map_append.symm⟩

end AllReturn

/-- The second list of functions is the first with a carriage return in each line ending. -/
abbrev FunctionsReturn (functions functions' : List FunctionRecord) : Prop :=
  AllReturn FunctionRecord.LineFed FunctionRecord.returned functions functions'

structure Members.Returns (members members' : Members) : Prop where
  fields : Same (fun fields => ∀ field ∈ fields, field.Flat) members.fields members'.fields
  methods : AllReturn (fun method => method.function.LineFed) MethodRecord.returned
    members.methods members'.methods

theorem Members.Returns.append {first first' second second' : Members} (h : first.Returns first')
    (hsecond : second.Returns second') :
    Members.Returns ⟨first.fields ++ second.fields, first.methods ++ second.methods⟩
      ⟨first'.fields ++ second'.fields, first'.methods ++ second'.methods⟩ where
  fields := ⟨by rw [h.fields.1, hsecond.fields.1],
    List.forall_mem_append.mpr ⟨h.fields.2, hsecond.fields.2⟩⟩
  methods := h.methods.append hsecond.methods

/-- The second output is the first with a carriage return in each line ending. -/
structure Output.Returns (output output' : Output) : Prop where
  preamble : Same AllFlat output.preamble output'.preamble
  functions : FunctionsReturn output.functions output'.functions
  classes : AllReturn ClassRecord.LineFed ClassRecord.returned output.classes output'.classes

theorem Output.returns_empty : Output.Returns .empty .empty :=
  ⟨⟨rfl, List.forall_mem_nil _⟩, .nil, .nil⟩

theorem Output.Returns.append {first first' second second' : Output} (h : first.Returns first')
    (hsecond : second.Returns second') :
    (first.append second).Returns (first'.append second') where
  preamble := by
    refine ⟨?_, List.forall_mem_append.mpr ⟨h.preamble.2, hsecond.preamble.2⟩⟩
    simp only [Output.append, h.preamble.1, hsecond.preamble.1]
  functions := h.functions.append hsecond.functions
  classes := h.classes.append hsecond.classes

section Programs

variable {cx : Context} (hcx : cx.Flat)
include hcx

theorem usingLines_flat (specifier : String) {clause : Option ImportClause}
    (hclause : ∀ own, clause = some own → own.Flat) :
    AllFlat (usingLines cx specifier clause) := by
  intro line hline
  unfold usingLines at hline
  split at hline
  · rename_i items
    split at hline
    · cases hline
    · rename_i ambient hambient
      split at hline
      · cases hline
      · rename_i space hspace
        obtain ⟨item, hitem, rfl⟩ := List.mem_map.mp hline
        have hflat := hcx.model.module specifier ambient hambient
        have hspace := (hflat.traits.space space hspace).append (by decide : Text.Flat "::")
        refine (Text.Flat.append (by decide) (hspace.append ?_)).append (by decide)
        split
        · rename_i member hmember
          exact (hflat.members item.name member hmember).writtenName hcx.mangling
        · exact (hclause _ rfl item hitem).1
  · cases hline

variable (hnewline : cx.layout.newline = "\n")
include hnewline

section Class

variable {names : ClassNames} (hwritten : names.Flat) {span : Span} {decl : ClassDecl}
  (hall : (Decl.classDecl span decl).All (Meets flatNodes) FlatBinding)
include hwritten hall

theorem memberRecords_return [cx.model.Typed] {member : ClassMember}
    (hmember : member ∈ decl.members) (hflat : member.Flat) :
    InStep Members.Returns (memberRecords cx names member)
      (memberRecords cx.returned names member) := by
  have hmethod (visibility : Visibility) {shape shape' : Lowered FunctionShape}
      (hshape : InStep (Same FunctionShape.Flat) shape shape') :
      InStep Members.Returns (methodRecord cx visibility shape)
        (methodRecord cx.returned visibility shape') := by
    refine hshape.bind fun _ shape hshape => ?_
    obtain ⟨rfl, hshape⟩ := hshape
    refine (functionRecord_returns hcx hnewline hshape).bind fun function _ hfunction => .ok ?_
    obtain ⟨hfed, rfl⟩ := hfunction
    exact ⟨⟨rfl, List.forall_mem_nil _⟩, .single hfed⟩
  cases member with
  | property place property =>
    rw [memberRecords, memberRecords]
    cases hnode : property.type with
    | none => exact .error _
    | some node =>
      refine (typePiece_same hcx (hflat.2 node hnode)).bind fun _ type htype => .ok ?_
      obtain ⟨rfl, htype⟩ := htype
      exact ⟨⟨rfl, List.forall_mem_singleton.mpr ⟨htype, hflat.1⟩⟩, .nil⟩
  | method place method =>
    exact hmethod method.visibility
      (methodShape_same hcx hwritten hall hmember hflat.1 hflat.2)
  | constructor place constructor =>
    exact hmethod constructor.visibility (constructorShape_same hwritten hall hmember)

theorem membersRecords_return [cx.model.Typed] {members : List ClassMember}
    (hmembers : ∀ member ∈ members, member ∈ decl.members ∧ member.Flat) :
    InStep Members.Returns (membersRecords cx names members)
      (membersRecords cx.returned names members) := by
  induction members with
  | nil => exact .ok ⟨⟨rfl, List.forall_mem_nil _⟩, .nil⟩
  | cons member rest ih =>
    obtain ⟨hmember, hrest⟩ := List.forall_mem_cons.mp hmembers
    exact (memberRecords_return hcx hnewline hwritten hall hmember.1 hmember.2).bind
      fun _ _ hfirst => (ih hrest).bind fun _ _ hlast => .ok (hfirst.append hlast)

theorem receiverRecords_return [cx.model.Typed] {members : List ClassMember}
    (hmembers : ∀ member ∈ members, member ∈ decl.members ∧ member.Flat) :
    InStep FunctionsReturn (receiverRecords cx names members)
      (receiverRecords cx.returned names members) := by
  induction members with
  | nil => exact .ok .nil
  | cons member rest ih =>
    obtain ⟨⟨hmember, hflat⟩, hrest⟩ := List.forall_mem_cons.mp hmembers
    cases member with
    | method place method =>
      rw [receiverRecords, receiverRecords]
      split
      · exact ih hrest
      · refine (receiverShape_same hcx hwritten hall hmember hflat.1 hflat.2).bind
          fun _ shape hshape => ?_
        obtain ⟨rfl, hshape⟩ := hshape
        refine (functionRecord_returns hcx hnewline hshape).bind fun function _ hfunction => ?_
        obtain ⟨hfed, rfl⟩ := hfunction
        exact (ih hrest).bind fun _ _ hlast => .ok ((AllReturn.single hfed).append hlast)
    | property place property => exact ih hrest
    | constructor place constructor => exact ih hrest

end Class

theorem classOutput_returns [cx.model.Typed] {span : Span} {decl : ClassDecl}
    (hnames : (Decl.classDecl span decl).FlatNames)
    (hall : (Decl.classDecl span decl).All (Meets flatNodes) FlatBinding) :
    InStep Output.Returns (classOutput cx decl span) (classOutput cx.returned decl span) := by
  unfold classOutput
  rw [Context.returned_model]
  cases hname : decl.name with
  | none => exact .error _
  | some declared =>
    dsimp only
    cases hclass : cx.model.class? declared with
    | none => exact .error _
    | some found =>
      obtain ⟨item, info⟩ := found
      obtain ⟨hdeclared, hitem, hinfo⟩ := hcx.model.class? hclass
      have hwritten : (classNames cx declared item info).Flat :=
        ⟨hdeclared, hinfo.1.writtenName hcx.mangling hitem.name⟩
      have hmembers : ∀ member ∈ decl.members, member ∈ decl.members ∧ member.Flat :=
        fun member hmember => ⟨hmember, hnames.2.2 member hmember⟩
      refine (membersRecords_return hcx hnewline hwritten hall hmembers).bind
        fun members members' hadded => ?_
      have hrecord : (classRecord (classNames cx declared item info) info members).LineFed :=
        ⟨hwritten.written, hadded.fields.2, hadded.methods.meets⟩
      have hreturned : classRecord (classNames cx declared item info) info members'
          = (classRecord (classNames cx declared item info) info members).returned := by
        simp only [classRecord, ClassRecord.returned, hadded.fields.1, hadded.methods.eq]
      have houtput {functions functions' : List FunctionRecord}
          (h : FunctionsReturn functions functions') :
          Output.Returns
            ⟨[], functions, [classRecord (classNames cx declared item info) info members]⟩
            ⟨[], functions', [classRecord (classNames cx declared item info) info members']⟩ := by
        refine ⟨⟨rfl, List.forall_mem_nil _⟩, h, ?_⟩
        rw [hreturned]
        exact .single hrecord
      have hpasses : cx.returned.options.passes = cx.options.passes := rfl
      rw [hpasses]
      split
      · exact (receiverRecords_return hcx hnewline hwritten hall hmembers).bind
          fun _ _ hfunctions => .ok (houtput hfunctions)
      · exact .ok (houtput .nil)

theorem declOutput_returns [cx.model.Typed] {decl : Decl} (hnames : decl.FlatNames)
    (hall : decl.All (Meets flatNodes) FlatBinding) :
    InStep Output.Returns (declOutput cx decl) (declOutput cx.returned decl) := by
  cases decl with
  | importDecl span decl =>
    have hspecifier : decl.specifierText.Ensures Text.Flat := by
      unfold ImportDecl.specifierText
      split
      · rename_i place text heq
        exact ensures_ok (hnames.1 place text heq)
      · exact ensures_fail _ _
    refine hspecifier.inStep.bind fun _ specifier hspecifier => .ok ?_
    obtain ⟨rfl, hspecifier⟩ := hspecifier
    have hinclude : Text.Flat ("#include <" ++ specifier ++ ">") :=
      (Text.Flat.append (by decide) hspecifier).append (by decide)
    refine ⟨⟨rfl, ?_⟩, .nil, .nil⟩
    exact List.forall_mem_cons.mpr ⟨hinclude, usingLines_flat hcx specifier hnames.2⟩
  | classDecl span decl =>
    rw [declOutput, declOutput]
    split
    · exact .ok Output.returns_empty
    · exact classOutput_returns hcx hnewline hnames hall
  | functionDecl span decl =>
    rw [declOutput, declOutput]
    split
    · exact .ok Output.returns_empty
    · refine (functionShape_same hcx hnames hall).bind fun _ shape hshape => ?_
      obtain ⟨rfl, hshape⟩ := hshape
      refine (functionRecord_returns hcx hnewline hshape).bind fun record _ hrecord => .ok ?_
      obtain ⟨hfed, rfl⟩ := hrecord
      exact ⟨⟨rfl, List.forall_mem_nil _⟩, .single hfed, .nil⟩
  | interfaceDecl span decl => exact .ok Output.returns_empty
  | typeAlias span name => exact .ok Output.returns_empty
  | moduleDecl span decorators declared name body =>
    cases declared with
    | true => exact .ok Output.returns_empty
    | false => exact .error _

theorem declsOutput_return [cx.model.Typed] {decls : List Decl}
    (hdecls : ∀ decl ∈ decls, decl.FlatNames ∧ decl.All (Meets flatNodes) FlatBinding) :
    InStep Output.Returns (declsOutput cx decls) (declsOutput cx.returned decls) := by
  induction decls with
  | nil => exact .ok Output.returns_empty
  | cons decl rest ih =>
    obtain ⟨hdecl, hrest⟩ := List.forall_mem_cons.mp hdecls
    exact (declOutput_returns hcx hnewline hdecl.1 hdecl.2).bind fun _ _ hfirst =>
      (ih hrest).bind fun _ _ hlast => .ok (hfirst.append hlast)

end Programs

/-! ## Files -/

theorem AllReturn.prints {α : Type} {P : α → Prop} {returned : α → α} {values values' : List α}
    (h : AllReturn P returned values values') (print print' : α → String)
    (hprint : ∀ value, P value → print' (returned value) = Text.returned (print value)) :
    values'.map print' = (values.map print).map Text.returned := by
  rw [h.eq, List.map_map, List.map_map]
  exact List.map_congr_left fun value hvalue => hprint value (h.meets value hvalue)

/-- Sections with carriage returns make up a file with carriage returns. -/
theorem Layout.joined_returned {layout : Layout} (hnewline : layout.newline = "\n")
    (sections : List String) :
    (let whole := layout.returned.blankLine.intercalate
        ((sections.map Text.returned).filter (· ≠ ""))
      if whole = "" then "" else whole ++ layout.returned.newline)
      = Text.returned (let whole := layout.blankLine.intercalate (sections.filter (· ≠ ""))
        if whole = "" then "" else whole ++ layout.newline) := by
  rw [Text.filter_returned, Layout.blankLine_returned hnewline, ← Text.returned_intercalate]
  generalize layout.blankLine.intercalate (sections.filter (· ≠ "")) = whole
  simp only [Text.returned_eq_empty]
  split
  · rfl
  · rw [Text.returned_append, Layout.newline_returned hnewline]

/-- The sections of a file are joined with the same carriage returns. -/
theorem Output.Returns.text {output output' : Output} (h : output.Returns output')
    {layout : Layout} (hnewline : layout.newline = "\n") (order : OutputOrder) :
    (output'.session layout.returned).text order
      = Text.returned ((output.session layout).text order) := by
  have hpreamble : Text.trimEnd ((Buffer.new layout.returned).appendLines output'.preamble).text
      = Text.returned (Text.trimEnd ((Buffer.new layout).appendLines output.preamble).text) := by
    have hlines : (Buffer.new layout.returned).appendLines output.preamble
        = ((Buffer.new layout).appendLines output.preamble).returned :=
      ((Buffer.returns_atDepth hnewline 0).lines h.preamble.2).returned
    rw [h.preamble.1, hlines, ← Text.trimEnd_returned, Buffer.returned]
  have hfunction (record : FunctionRecord) (hfed : record.LineFed) :
      record.returned.print = Text.returned record.print := FunctionRecord.print_returned hfed
  have hclass (record : ClassRecord) (hfed : record.LineFed) :
      record.returned.print layout.returned = Text.returned (record.print layout) :=
    ClassRecord.print_returned hfed hnewline
  have hfunctions := h.functions.prints _ _ hfunction
  have hclasses := h.classes.prints (fun record => record.print layout)
    (fun record => record.print layout.returned) hclass
  have hblank := Layout.blankLine_returned hnewline
  unfold Session.text Output.session gain Session.start
  dsimp only
  rw [List.nil_append, List.nil_append, List.nil_append, List.nil_append, hpreamble, hfunctions,
    hclasses, hblank, ← Text.returned_intercalate, ← Text.returned_intercalate, ← hblank]
  generalize Text.trimEnd ((Buffer.new layout).appendLines output.preamble).text = preamble
  generalize layout.blankLine.intercalate (output.functions.map FunctionRecord.print) = functions
  generalize layout.blankLine.intercalate
    (output.classes.map fun record => record.print layout) = classes
  cases order with
  | functionsFirst => exact Layout.joined_returned hnewline [preamble, functions, classes]
  | classesFirst => exact Layout.joined_returned hnewline [preamble, classes, functions]

end Emit

theorem generateWith_returned {cx : Context} [cx.model.Typed] (hcx : cx.Flat)
    (hnewline : cx.layout.newline = "\n") {program : Program} (hprogram : program.Flat) :
    generateWith cx.returned.options cx.model program
      = (generateWith cx.options cx.model program).map Text.returned := by
  have houtput : InStep Emit.Output.Returns (Emit.programOutput cx program)
      (Emit.programOutput cx.returned program) := Emit.declsOutput_return hcx hnewline hprogram
  rw [generateWith_run, generateWith_run]
  exact InStep.eq_map (houtput.map fun _ _ h => h.text hnewline cx.options.outputOrder)

/-- **Line endings affect nothing but line endings.** With carriage returns asked for, a program
whose names keep to one line fails as it does without them, or its source has a carriage return
before each line feed and is otherwise the same. -/
theorem generate_returned (options : Options) {program : Program} {preludes : List Program}
    (hmangling : Text.Flat options.mangling) (hprogram : program.Flat)
    (hpreludes : ∀ prelude ∈ preludes, prelude.Flat) :
    generate { options with lineEnding := .crlf } program preludes
      = (generate { options with lineEnding := .lf } program preludes).map Text.returned := by
  unfold generate
  cases hmodel : Model.build program preludes with
  | error e => rfl
  | ok model =>
    have hcx : Context.Flat ⟨model, { options with lineEnding := .lf }⟩ :=
      ⟨Model.build_flat hprogram hpreludes hmodel, hmangling⟩
    exact generateWith_returned hcx rfl hprogram

section Letter

open Build

/-- A page that is drawn with a function of native code. Its texts hold line breaks. -/
def letterProgram : Program := program
  [ importNamed "pen" ["draw"],
    classOf "Page"
      [method "text" [] (keyword .string) [ret (some (string "Dear reader,\r\nfarewell"))]],
    function "main" [paramDefault "text" (keyword .string) (string "\n")] void
      [varVar "line" (some (keyword .string)) none, exprStmt (call (ident "draw") [ident "text"])] ]

def penPrelude : Program := program
  [decorated
    (moduleOf "pen" [declaredFunction "draw" [param "text" (keyword .string)] void])
    [decorator "cpp_namespace" [string "pen"]]]

theorem generate_returned_letter :
    (Text.Flat Spelling.mangling ∧ letterProgram.Flat ∧ penPrelude.Flat) ∧
    ∃ text, generate { lineEnding := .lf } letterProgram [penPrelude] = .ok text ∧
      generate { lineEnding := .crlf } letterProgram [penPrelude] = .ok (Text.returned text) ∧
      Text.returned text ≠ text := by
  have hmangling : Text.Flat Spelling.mangling := by decide
  have himport : (importNamed "pen" ["draw"]).FlatNames := by
    constructor
    · intro span text htext
      cases htext
      decide
    · intro clause hclause
      cases hclause
      exact List.forall_mem_singleton.mpr (by decide)
  have hprogram : letterProgram.Flat := by
    refine List.forall_mem_cons.mpr ⟨⟨himport, Decl.all_of_empty rfl rfl⟩,
      List.forall_mem_cons.mpr ⟨⟨⟨?_, ?_, ?_⟩, ?_, ?_, ?_⟩,
        List.forall_mem_singleton.mpr ⟨⟨?_, ?_, ?_⟩, ?_, ?_, ?_⟩⟩⟩
    · intro name hname
      cases hname
      decide
    · exact List.forall_mem_nil _
    · exact List.forall_mem_singleton.mpr ⟨by decide, TypeNode.Flat.option trivial⟩
    · refine List.forall_mem_singleton.mpr ⟨fun value hvalue => ?_, trivial⟩
      cases hvalue
      trivial
    · exact List.forall_mem_nil _
    · exact List.forall_mem_nil _
    · intro name hname
      cases hname
      decide
    · exact List.forall_mem_nil _
    · exact TypeNode.Flat.option trivial
    · refine List.forall_mem_singleton.mpr ⟨List.forall_mem_singleton.mpr
        ⟨flatBinding_ident (by decide) (TypeNode.Flat.option trivial), fun init hinit => ?_⟩, ?_,
        trivial⟩
      · cases hinit
      · have hdraw : Text.Flat "draw" := by decide
        have htext : Text.Flat "text" := by decide
        exact ⟨hdraw, trivial, htext, trivial⟩
    · exact List.forall_mem_singleton.mpr
        (flatBinding_ident (by decide) (TypeNode.Flat.option trivial))
    · refine List.forall_mem_singleton.mpr fun value hvalue => ?_
      cases hvalue
      trivial
  have hprelude : penPrelude.Flat := by
    refine List.forall_mem_singleton.mpr ⟨⟨by decide, ?_, ?_⟩, Decl.all_of_empty rfl rfl⟩
    · refine List.forall_mem_singleton.mpr fun span text htext => ?_
      cases List.mem_singleton.mp htext
      decide
    · refine List.forall_mem_singleton.mpr ⟨fun name hname => ?_, List.forall_mem_nil _,
        TypeNode.Flat.option trivial⟩
      cases hname
      decide
  have hequal := generate_returned {} hmangling hprogram 
    (List.forall_mem_singleton.mpr hprelude)
  have hwritten : ((generate { lineEnding := .lf } letterProgram [penPrelude]).toOption.map
      fun text => decide (Text.returned text ≠ text)) = some true := by
    decide +kernel
  cases hrun : generate { lineEnding := .lf } letterProgram [penPrelude] with
  | error e =>
    rw [hrun] at hwritten
    cases hwritten
  | ok text =>
    rw [hrun] at hwritten hequal
    exact ⟨⟨hmangling, hprogram, hprelude⟩, text, rfl, hequal,
      of_decide_eq_true (Option.some.inj hwritten)⟩

end Letter

end NativeLowering
