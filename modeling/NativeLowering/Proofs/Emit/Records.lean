import NativeLowering.Generate
import NativeLowering.Proofs.Emit.Draft

/-!
# What writing a program adds to a session

Every function, method, constructor and destructor of a program ends up as a record, and a file is
its includes and its records. `programOutput` computes these from the program, again with no
session in sight, and `decls_gives` says that a successful run leaves exactly that.

What a record is made of can be read off `functionRecord`: the parameters are entered, the selected
passes run over the body at the bindings of the parameters (`loweredBody`), and the draft of the
result is the body of the record.
-/

set_option autoImplicit false

namespace NativeLowering
namespace Emit

/-! ## Functions -/

def paramRecord (cx : Context) (locals : Locals) (param : Param) :
    Lowered (ParamRecord × Locals) := do
  let name ← paramName param
  let node ← paramType param name
  let type ← cx.typePiece node
  let default ← defaultText cx locals param.default
  return ({ type, name, default }, locals.declare name (cx.model.typeFromNode node))

/-- The records of parameters, and the bindings that they make. -/
def paramRecords (cx : Context) : Locals → List Param → Lowered (List ParamRecord × Locals)
  | locals, [] => .ok ([], locals)
  | locals, first :: rest => do
    let (record, locals) ← paramRecord cx locals first
    let (records, locals) ← paramRecords cx locals rest
    return (record :: records, locals)

/-- A body after the selected passes, at the bindings that stand around it. -/
def loweredBody (cx : Context) (locals : Locals) (body : List Stmt) : Lowered (List Stmt) :=
  cx.options.passes.run cx.model cx.options.destructorPolicy locals body

/-- The record of a function with its parameters and the draft of its body. -/
def recordOf (cx : Context) (shape : FunctionShape) (params : List ParamRecord) (draft : Draft) :
    FunctionRecord :=
  { FunctionRecord.new cx.layout shape.returnType shape.qualifier shape.name with
    params, hoisted := (Buffer.atDepth cx.layout 1).appendLines draft.hoisted
    body := (Buffer.atDepth cx.layout 1).write draft.text }

/-- The record of a function whose expressions are spelled in a given way. -/
def functionRecordWith (cx : Context) (spell : Spell) (shape : FunctionShape) :
    Lowered FunctionRecord := do
  let (params, locals) ← paramRecords cx (.start shape.thisClass) shape.params
  let body ← loweredBody cx locals shape.body
  let draft ← Draft.stmts cx spell 1 locals body
  return recordOf cx shape params draft

def functionRecord (cx : Context) (shape : FunctionShape) : Lowered FunctionRecord :=
  functionRecordWith cx (exprText cx) shape

def functionShape (cx : Context) (decl : FunctionDecl) (span : Span) : Lowered FunctionShape := do
  let (declared, node, body) ← functionParts decl span
  let name ← functionName cx declared span
  let returnType ← cx.typePiece node
  return { returnType := some returnType, qualifier := none, name, params := decl.params, body
           thisClass := none, visibility := none }

/-- What the definition of a method starts with. -/
def methodHeadText (cx : Context) (names : ClassNames) (decl : MethodDecl) (span : Span) :
    Lowered (Option String × String) :=
  if decl.name = Spelling.destructor then
    match decl.params with
    | _ :: _ => failAt span .destructorWithParams
    | [] => .ok (none, Naming.destructor names.written)
  else
    match decl.returnType with
    | none => failAt span (.methodWithoutReturnType decl.name)
    | some node => (cx.typePiece node).map fun type => (some type, decl.name)

def methodShape (cx : Context) (names : ClassNames) (decl : MethodDecl) (span : Span) :
    Lowered FunctionShape :=
  match decl.body with
  | none => failAt span (.methodWithoutBody decl.name)
  | some body => do
    let (returnType, name) ← methodHeadText cx names decl span
    return { returnType, qualifier := some (Naming.memberQualifier names.written), name
             params := decl.params, body, thisClass := some names.declared
             visibility := some decl.visibility }

def constructorShape (cx : Context) (names : ClassNames) (decl : ConstructorDecl) (span : Span) :
    Lowered FunctionShape := do
  requireAllocation cx names.declared span
  match decl.body with
  | none => failAt span (.constructorWithoutBody names.declared)
  | some body =>
    return { returnType := none, qualifier := some (Naming.memberQualifier names.written)
             name := names.written, params := decl.params, body
             thisClass := some names.declared, visibility := some decl.visibility }

def receiverShape (cx : Context) (names : ClassNames) (decl : MethodDecl) (span : Span) :
    Lowered FunctionShape :=
  match decl.returnType, decl.body with
  | some node, some body => do
    let returnType ← cx.typePiece node
    let body ← Receiver.bindReceiver cx.model (.start none) body
    return { returnType := some returnType, qualifier := none
             name := Naming.receiverFunction names.written decl.name
             params := receiverParam names.declared span :: decl.params, body
             thisClass := none, visibility := none }
  | _, _ => failAt span (.incompleteMethod decl.name)

/-! ## Classes and programs -/

/-- What the members of a class add to its record. -/
structure Members where
  fields : List FieldRecord
  methods : List MethodRecord

def methodRecord (cx : Context) (visibility : Visibility) (shape : Lowered FunctionShape) :
    Lowered Members := do
  let shape ← shape
  let function ← functionRecord cx shape
  return { fields := [], methods := [{ visibility, function }] }

def memberRecords (cx : Context) (names : ClassNames) : ClassMember → Lowered Members
  | .property span decl =>
    match decl.type with
    | none => failAt span (.untypedProperty decl.name)
    | some node => do
      let type ← cx.typePiece node
      return { fields := [{ visibility := decl.visibility, type, name := decl.name }], methods := [] }
  | .method span decl => methodRecord cx decl.visibility (methodShape cx names decl span)
  | .constructor span decl => methodRecord cx decl.visibility (constructorShape cx names decl span)

def membersRecords (cx : Context) (names : ClassNames) : List ClassMember → Lowered Members
  | [] => .ok ⟨[], []⟩
  | member :: rest => do
    let first ← memberRecords cx names member
    let rest ← membersRecords cx names rest
    return ⟨first.fields ++ rest.fields, first.methods ++ rest.methods⟩

/-- The receiver functions of the methods among class members. -/
def receiverRecords (cx : Context) (names : ClassNames) :
    List ClassMember → Lowered (List FunctionRecord)
  | [] => .ok []
  | .method span decl :: rest =>
    if decl.name = Spelling.destructor then receiverRecords cx names rest
    else do
      let shape ← receiverShape cx names decl span
      let first ← functionRecord cx shape
      let rest ← receiverRecords cx names rest
      return first :: rest
  | _ :: rest => receiverRecords cx names rest

/-- What declarations add to a file. -/
structure Output where
  /-- The lines at the top of the file. -/
  preamble : List String
  functions : List FunctionRecord
  classes : List ClassRecord

namespace Output

def empty : Output := ⟨[], [], []⟩

def append (first second : Output) : Output :=
  ⟨first.preamble ++ second.preamble, first.functions ++ second.functions,
    first.classes ++ second.classes⟩

end Output

/-- The names that the members of a class are written with. -/
def classNames (cx : Context) (declared : String) (item : Item) (info : ClassInfo) : ClassNames :=
  { declared, written := info.traits.writtenName cx.mangling item.name }

def classRecord (names : ClassNames) (info : ClassInfo) (members : Members) : ClassRecord :=
  { name := names.written, ownership := info.traits.ownership
    fields := members.fields, methods := members.methods }

def classOutput (cx : Context) (decl : ClassDecl) (span : Span) : Lowered Output :=
  match decl.name with
  | none => failAt span .unnamedClass
  | some declared =>
    match cx.model.class? declared with
    | none => failAt span (.classNotInTable declared)
    | some (item, info) => do
      let names := classNames cx declared item info
      let members ← membersRecords cx names decl.members
      let functions ←
        if cx.options.passes.contains .receiver then receiverRecords cx names decl.members
        else .ok []
      return ⟨[], functions, [classRecord names info members]⟩

def declOutput (cx : Context) : Decl → Lowered Output
  | .importDecl _ decl => do
    let specifier ← decl.specifierText
    return ⟨("#include <" ++ specifier ++ ">") :: usingLines cx specifier decl.clause, [], []⟩
  | .classDecl span decl => if decl.declared then .ok .empty else classOutput cx decl span
  | .functionDecl span decl =>
    if decl.declared then .ok .empty
    else do
      let shape ← functionShape cx decl span
      let record ← functionRecord cx shape
      return ⟨[], [record], []⟩
  | .moduleDecl span _ declared name _ =>
    if declared then .ok .empty else failAt span (.moduleWithBody name)
  | .interfaceDecl .. | .typeAlias .. => .ok .empty

def declsOutput (cx : Context) : List Decl → Lowered Output
  | [] => .ok .empty
  | first :: rest => do
    let first ← declOutput cx first
    let rest ← declsOutput cx rest
    return first.append rest

/-- What writing a program adds to a file. -/
def programOutput (cx : Context) (program : Program) : Lowered Output :=
  declsOutput cx program.decls

theorem functionRecordWith_eq_ok {cx : Context} {spell : Spell} {shape : FunctionShape}
    {record : FunctionRecord} :
    functionRecordWith cx spell shape = .ok record ↔
      ∃ params locals lowered draft,
        paramRecords cx (.start shape.thisClass) shape.params = .ok (params, locals) ∧
        loweredBody cx locals shape.body = .ok lowered ∧
        Draft.stmts cx spell 1 locals lowered = .ok draft ∧
        record = recordOf cx shape params draft := by
  simp only [functionRecordWith, Lowered.bind_eq_ok, Lowered.pure_eq_ok, Prod.exists]
  constructor
  · rintro ⟨params, locals, hparams, lowered, hlowered, draft, hdraft, rfl⟩
    exact ⟨params, locals, lowered, draft, hparams, hlowered, hdraft, rfl⟩
  · rintro ⟨params, locals, lowered, draft, hparams, hlowered, hdraft, rfl⟩
    exact ⟨params, locals, hparams, lowered, hlowered, draft, hdraft, rfl⟩

/-! ## What the steps do -/

section Writing

variable {cx : Context} {session after : Session}

/-- The head of a method leaves the session as it was. -/
theorem run_methodHead (names : ClassNames) (decl : MethodDecl) (span : Span) (session : Session) :
    (methodHead cx names decl span).run session
      = (methodHeadText (cx.laidOut session.layout) names decl span, session) := by
  unfold methodHead methodHeadText
  split
  · cases decl.params <;> rfl
  · cases decl.returnType with
    | none => rfl
    | some node =>
      dsimp only
      rw [run_bind, run_typeString]
      cases (cx.laidOut session.layout).typePiece node <;> rfl

theorem param_gives {current : OpenFunction} {entered : Param}
    (hlayout : session.layout = cx.layout) (hopen : session.openFunction = some current)
    (h : Gives (param cx entered) session () after) :
    ∃ record locals, paramRecord cx current.locals entered = .ok (record, locals) ∧
      after = { session with
        openFunction := some { current with
          locals
          record := { current.record with params := current.record.params ++ [record] } } } := by
  simp only [param, gives_bind, gives_lift, gives_typeString, gives_onLocals, gives_onRecord] at h
  obtain ⟨name, _, ⟨hname, rfl⟩, node, _, ⟨hnode, rfl⟩, type, _, ⟨htype, rfl⟩, default, _, hgives,
    _, _, ⟨found, hfound, rfl⟩, last, hlast, rfl⟩ := h
  obtain ⟨hdefault, rfl⟩ := (gives_computed (run_defaultString hopen entered.default)).mp hgives
  obtain rfl : found = current := Option.some.inj (hfound.symm.trans hopen)
  obtain rfl := Option.some.inj hlast
  rw [hlayout, Context.laidOut_self] at htype hdefault
  refine ⟨{ type, name, default }, found.locals.declare name (cx.model.typeFromNode node), ?_, rfl⟩
  simp only [paramRecord, hname, hnode, htype, hdefault, bind, Except.bind, pure, Except.pure]

theorem params_gives : ∀ {entered : List Param} {session after : Session} {current : OpenFunction},
    session.layout = cx.layout → session.openFunction = some current →
    Gives (params cx entered) session () after →
    ∃ records locals, paramRecords cx current.locals entered = .ok (records, locals) ∧
      after = { session with
        openFunction := some { current with
          locals
          record := { current.record with params := current.record.params ++ records } } }
  | [], session, after, current, _, hopen, h => by
    obtain ⟨-, rfl⟩ := gives_pure.mp h
    refine ⟨[], current.locals, rfl, ?_⟩
    simp [← hopen]
  | first :: rest, session, after, current, hlayout, hopen, h => by
    obtain ⟨_, between, hfirst, hrest⟩ := gives_bind.mp h
    obtain ⟨record, locals, hrecord, rfl⟩ := param_gives hlayout hopen hfirst
    obtain ⟨records, locals', hrecords, rfl⟩ := params_gives (by exact hlayout) rfl hrest
    refine ⟨record :: records, locals', ?_, ?_⟩
    · simp only [paramRecords, hrecord, hrecords, bind, Except.bind, pure, Except.pure]
    · simp

/-- Where functions and classes are written, no statement is open. -/
structure Idle (cx : Context) (session : Session) : Prop where
  layout : session.layout = cx.layout
  stages : session.stages = []

theorem functionBody_gives {current : OpenFunction} {body : List Stmt} {span : Span}
    (hidle : Idle cx session) (hopen : session.openFunction = some current)
    (h : Gives (functionBody cx body span) session () after) :
    ∃ lowered draft, loweredBody cx current.locals body = .ok lowered ∧
      Draft.stmts cx (exprText cx) 1 current.locals lowered = .ok draft ∧
      after = { session with
        openFunction := some { current with
          locals := draft.locals
          record := { current.record with
            hoisted := current.record.hoisted.appendLines draft.hoisted
            body := (Buffer.atDepth cx.layout 1).write draft.text } } } := by
  simp only [functionBody, gives_bind, gives_lift, gives_theLocals, gives_onRecord] at h
  obtain ⟨_, _, ⟨found, hfound, rfl, rfl⟩, lowered, _, ⟨hlowered, rfl⟩, ⟨_, written⟩, between,
    hscope, last, hlast, rfl⟩ := h
  obtain rfl : found = current := Option.some.inj (hfound.symm.trans hopen)
  obtain ⟨inner, next, outer, hstmts, hnext, rfl, rfl⟩ := gives_inScope.mp hscope
  obtain ⟨draft, hdraft, rfl, -⟩ := (stmts_writes 0 lowered).adds _ _ found
    (by exact ⟨hidle.layout, rfl, by simp [hidle.stages]⟩) (by exact hopen) hstmts
  simp only [Session.add, List.cons.injEq] at hnext
  obtain ⟨rfl, rfl⟩ := hnext
  obtain rfl := Option.some.inj hlast
  refine ⟨lowered, draft, hlowered, hdraft, ?_⟩
  simp [Session.add, OpenFunction.add, hidle.stages]

/-- A function, method, constructor or destructor is written as its record. -/
theorem functionLike_gives {shape : FunctionShape} {span : Span} (hidle : Idle cx session)
    (h : Gives (functionLike cx shape span) session () after) :
    ∃ record, functionRecord cx shape = .ok record ∧
      Placed session record shape.visibility after := by
  simp only [functionLike, gives_bind, gives_beginFunction, gives_endFunction] at h
  obtain ⟨_, _, ⟨hnone, rfl⟩, _, _, hparams, _, _, hbody, finished, hfinished, hplaced⟩ := h
  obtain ⟨records, locals, hrecords, rfl⟩ := params_gives (by exact hidle.layout) rfl hparams
  obtain ⟨lowered, draft, hlowered, hdraft, rfl⟩ := functionBody_gives
    (by exact ⟨hidle.layout, hidle.stages⟩) rfl hbody
  obtain rfl := Option.some.inj hfinished
  refine ⟨_, ?_, hplaced⟩
  exact functionRecordWith_eq_ok.mpr ⟨_, _, _, _, hrecords, hlowered, hdraft, rfl⟩

theorem member_gives {shape : FunctionShape} {shown : Visibility} {owner : ClassRecord}
    {span : Span} (hidle : Idle cx session) (hclass : session.openClass = some owner)
    (hshown : shape.visibility = some shown)
    (h : Gives (functionLike cx shape span) session () after) :
    ∃ function, functionRecord cx shape = .ok function ∧
      after = { session with
        openFunction := none
        openClass := some { owner with
          methods := owner.methods ++ [{ visibility := shown, function }] } } := by
  obtain ⟨function, hfunction, hplaced⟩ := functionLike_gives hidle h
  refine ⟨function, hfunction, ?_⟩
  rcases hplaced with ⟨shown', owner', hshown', hclass', rfl⟩ | ⟨hshown', -, -⟩
  · obtain rfl : shown' = shown := Option.some.inj (hshown'.symm.trans hshown)
    obtain rfl : owner' = owner := Option.some.inj (hclass'.symm.trans hclass)
    rfl
  · rw [hshown] at hshown'
    cases hshown'

theorem free_gives {shape : FunctionShape} {span : Span} (hidle : Idle cx session)
    (hclass : session.openClass = none) (h : Gives (functionLike cx shape span) session () after) :
    ∃ record, functionRecord cx shape = .ok record ∧
      after = { session with
        openFunction := none, functions := session.functions ++ [record] } := by
  obtain ⟨record, hrecord, hplaced⟩ := functionLike_gives hidle h
  refine ⟨record, hrecord, ?_⟩
  rcases hplaced with ⟨_, owner, _, howner, -⟩ | ⟨-, -, rfl⟩
  · rw [hclass] at howner
    cases howner
  · rfl

theorem classMember_gives {names : ClassNames} {owner : ClassRecord} {member : ClassMember}
    (hidle : Idle cx session) (hnone : session.openFunction = none)
    (hclass : session.openClass = some owner)
    (h : Gives (classMember cx names member) session () after) :
    ∃ added, memberRecords cx names member = .ok added ∧
      after = { session with
        openClass := some { owner with
          fields := owner.fields ++ added.fields, methods := owner.methods ++ added.methods } } := by
  cases member with
  | property span decl =>
    simp only [classMember, propertyDecl] at h
    split at h
    · exact absurd h gives_throw
    · rename_i node hnode
      simp only [gives_bind, gives_typeString, gives_addField] at h
      obtain ⟨type, _, ⟨htype, rfl⟩, found, hfound, rfl⟩ := h
      rw [hidle.layout, Context.laidOut_self] at htype
      obtain rfl : found = owner := Option.some.inj (hfound.symm.trans hclass)
      refine ⟨⟨[{ visibility := decl.visibility, type, name := decl.name }], []⟩, ?_, ?_⟩
      · simp only [memberRecords, hnode, htype, bind, Except.bind, pure, Except.pure]
      · simp
  | method span decl =>
    simp only [classMember, methodDecl] at h
    split at h
    · exact absurd h gives_throw
    · rename_i body hbody
      simp only [gives_bind] at h
      obtain ⟨⟨returnType, name⟩, _, hgives, h⟩ := h
      obtain ⟨hhead, rfl⟩ := (gives_computed (run_methodHead names decl span session)).mp hgives
      rw [hidle.layout, Context.laidOut_self] at hhead
      obtain ⟨function, hfunction, rfl⟩ := member_gives hidle hclass rfl h
      refine ⟨⟨[], [{ visibility := decl.visibility, function }]⟩, ?_, ?_⟩
      · simp only [memberRecords, methodRecord, methodShape, hbody, hhead, bind, Except.bind, pure,
          Except.pure, hfunction]
      · simp [← hnone]
  | constructor span decl =>
    simp only [classMember, constructorDecl, gives_bind, gives_lift] at h
    obtain ⟨_, _, ⟨hneeds, rfl⟩, h⟩ := h
    split at h
    · exact absurd h gives_throw
    · rename_i body hbody
      obtain ⟨function, hfunction, rfl⟩ := member_gives hidle hclass rfl h
      refine ⟨⟨[], [{ visibility := decl.visibility, function }]⟩, ?_, ?_⟩
      · simp only [memberRecords, methodRecord, constructorShape, hneeds, hbody, bind, Except.bind,
          pure, Except.pure, hfunction]
      · simp [← hnone]

theorem classMembers_gives {names : ClassNames} : ∀ {members : List ClassMember}
    {session after : Session} {owner : ClassRecord}, Idle cx session →
    session.openFunction = none → session.openClass = some owner →
    Gives (classMembers cx names members) session () after →
    ∃ added, membersRecords cx names members = .ok added ∧
      after = { session with
        openClass := some { owner with
          fields := owner.fields ++ added.fields, methods := owner.methods ++ added.methods } }
  | [], session, after, owner, _, _, hclass, h => by
    obtain ⟨-, rfl⟩ := gives_pure.mp h
    refine ⟨⟨[], []⟩, rfl, ?_⟩
    simp [← hclass]
  | member :: rest, session, after, owner, hidle, hnone, hclass, h => by
    obtain ⟨_, between, hfirst, hrest⟩ := gives_bind.mp h
    obtain ⟨first, hadded, rfl⟩ := classMember_gives hidle hnone hclass hfirst
    obtain ⟨others, hothers, rfl⟩ := classMembers_gives
      (by exact ⟨hidle.layout, hidle.stages⟩) (by exact hnone) rfl hrest
    refine ⟨⟨first.fields ++ others.fields, first.methods ++ others.methods⟩, ?_, ?_⟩
    · simp only [membersRecords, hadded, hothers, bind, Except.bind, pure, Except.pure]
    · simp

theorem receiverFunction_gives {names : ClassNames} {decl : MethodDecl} {span : Span}
    (hidle : Idle cx session) (hclass : session.openClass = none)
    (h : Gives (receiverFunction cx names decl span) session () after) :
    ∃ shape record, receiverShape cx names decl span = .ok shape ∧
      functionRecord cx shape = .ok record ∧
      after = { session with
        openFunction := none, functions := session.functions ++ [record] } := by
  unfold receiverFunction at h
  split at h
  · rename_i node body hnode hbody
    simp only [gives_bind, gives_lift, gives_typeString] at h
    obtain ⟨returnType, _, ⟨htype, rfl⟩, bound, _, ⟨hbound, rfl⟩, h⟩ := h
    rw [hidle.layout, Context.laidOut_self] at htype
    obtain ⟨record, hrecord, rfl⟩ := free_gives hidle hclass h
    refine ⟨_, record, ?_, hrecord, rfl⟩
    simp only [receiverShape, hnode, hbody, htype, hbound, bind, Except.bind, pure, Except.pure]
  · exact absurd h gives_throw

theorem receiverFunctions_gives {names : ClassNames} : ∀ {members : List ClassMember}
    {session after : Session}, Idle cx session → session.openFunction = none →
    session.openClass = none → Gives (receiverFunctions cx names members) session () after →
    ∃ records, receiverRecords cx names members = .ok records ∧
      after = { session with functions := session.functions ++ records }
  | [], session, after, _, _, _, h => by
    obtain ⟨-, rfl⟩ := gives_pure.mp h
    exact ⟨[], rfl, by simp⟩
  | .property .. :: rest, session, after, hidle, hnone, hclass, h
  | .constructor .. :: rest, session, after, hidle, hnone, hclass, h => by
    rw [receiverFunctions] at h
    · rw [receiverRecords]
      · exact receiverFunctions_gives hidle hnone hclass h
      · nofun
    · nofun
  | .method span decl :: rest, session, after, hidle, hnone, hclass, h => by
    rw [receiverFunctions] at h
    by_cases hd : decl.name = Spelling.destructor
    · simp only [hd, if_true] at h
      obtain ⟨records, hrecords, rfl⟩ := receiverFunctions_gives hidle hnone hclass h
      exact ⟨records, by simp only [receiverRecords, hd, if_true, hrecords], rfl⟩
    · simp only [hd, if_false, gives_bind] at h
      obtain ⟨_, _, hfirst, hrest⟩ := h
      obtain ⟨shape, record, hshape, hrecord, rfl⟩ := receiverFunction_gives hidle hclass hfirst
      obtain ⟨records, hrecords, rfl⟩ := receiverFunctions_gives
        (by exact ⟨hidle.layout, hidle.stages⟩) rfl (by exact hclass) hrest
      refine ⟨record :: records, ?_, ?_⟩
      · simp only [receiverRecords, hd, if_false, hshape, hrecord, hrecords, bind, Except.bind, pure,
          Except.pure]
      · simp [← hnone]

/-- The session once declarations are written. -/
def gain (session : Session) (output : Output) : Session :=
  { session with
    current := session.current.appendLines output.preamble
    functions := session.functions ++ output.functions
    classes := session.classes ++ output.classes }

theorem gain_empty : gain session .empty = session := by
  simp [gain, Output.empty]

theorem gain_gain (first second : Output) :
    gain (gain session first) second = gain session (first.append second) := by
  simp [gain, Output.append]

theorem appendLines_gives {lines : List String} (h : Gives (appendLines lines) session () after) :
    after = { session with current := session.current.appendLines lines } := by
  induction lines generalizing session with
  | nil =>
    obtain ⟨-, rfl⟩ := gives_pure.mp h
    rfl
  | cons line rest ih =>
    obtain ⟨_, between, hline, hrest⟩ := gives_bind.mp h
    obtain rfl := gives_append.mp hline
    exact ih hrest

/-- What is between declarations: nothing is open. -/
structure Between (cx : Context) (session : Session) : Prop extends Idle cx session where
  function : session.openFunction = none
  classRecord : session.openClass = none

theorem Between.gain (h : Between cx session) (output : Output) :
    Between cx (gain session output) :=
  ⟨⟨h.layout, h.stages⟩, h.function, h.classRecord⟩

theorem classDecl_gives {decl : ClassDecl} {span : Span} (hidle : Between cx session)
    (h : Gives (classDecl cx decl span) session () after) :
    ∃ output, classOutput cx decl span = .ok output ∧ after = gain session output := by
  unfold classDecl at h
  split at h
  · exact absurd h gives_throw
  · rename_i declared hname
    split at h
    · exact absurd h gives_throw
    · rename_i item info hclass
      simp only [gives_bind, gives_beginClass, gives_endClass] at h
      obtain ⟨_, _, ⟨-, -, rfl⟩, _, _, hmembers, _, _, ⟨record, hrecord, rfl⟩, h⟩ := h
      obtain ⟨members, hadded, rfl⟩ := classMembers_gives
        (by exact ⟨hidle.layout, hidle.stages⟩) (by exact hidle.function) rfl hmembers
      obtain rfl := Option.some.inj hrecord
      have hcontains : cx.options.passes.contains .receiver = cx.options.passes.receiver := rfl
      by_cases hr : cx.options.passes.receiver = true
      · simp only [hcontains, hr, if_true] at h
        obtain ⟨records, hrecords, rfl⟩ := receiverFunctions_gives
          (by exact ⟨hidle.layout, hidle.stages⟩) (by exact hidle.function) rfl h
        refine ⟨⟨[], records, [classRecord (classNames cx declared item info) info members]⟩, ?_, ?_⟩
        · simp only [classOutput, hname, hclass, classNames, hadded, hcontains, hr, if_true,
            hrecords, bind, Except.bind, pure, Except.pure]
        · simp [gain, hidle.classRecord, classRecord, classNames]
      · simp only [hcontains, hr] at h
        obtain ⟨-, rfl⟩ := gives_pure.mp h
        refine ⟨⟨[], [], [classRecord (classNames cx declared item info) info members]⟩, ?_, ?_⟩
        · simp only [classOutput, hname, hclass, classNames, hadded, hcontains, hr, bind,
            Except.bind, pure, Except.pure]
          rfl
        · simp [gain, hidle.classRecord, classRecord, classNames]

theorem decl_gives {declaration : Decl} (hidle : Between cx session)
    (h : Gives (decl cx declaration) session () after) :
    ∃ output, declOutput cx declaration = .ok output ∧ after = gain session output := by
  have hskip {declaration : Decl} (h : Gives (pure ()) session () after)
      (hout : declOutput cx declaration = .ok .empty) :
      ∃ output, declOutput cx declaration = .ok output ∧ after = gain session output := by
    obtain ⟨-, rfl⟩ := gives_pure.mp h
    exact ⟨_, hout, gain_empty.symm⟩
  cases declaration with
  | importDecl span decl =>
    simp only [Emit.decl, importDecl, gives_bind, gives_lift, gives_append] at h
    obtain ⟨specifier, _, ⟨hspec, rfl⟩, _, _, rfl, h⟩ := h
    obtain rfl := appendLines_gives h
    refine ⟨⟨("#include <" ++ specifier ++ ">") :: usingLines cx specifier decl.clause, [], []⟩, ?_, ?_⟩
    · simp only [declOutput, hspec, bind, Except.bind, pure, Except.pure]
    · simp [gain, Buffer.appendLines]
  | classDecl span decl =>
    by_cases hd : decl.declared = true
    · simp only [Emit.decl, hd, if_true] at h
      exact hskip h (by simp [declOutput, hd])
    · simp only [Emit.decl, hd] at h
      simp only [declOutput, hd]
      exact classDecl_gives hidle h
  | functionDecl span decl =>
    by_cases hd : decl.declared = true
    · simp only [Emit.decl, hd, if_true] at h
      exact hskip h (by simp [declOutput, hd])
    · simp only [Emit.decl, hd, Bool.false_eq_true, if_false, functionDecl, gives_bind,
        gives_lift, gives_typeString] at h
      obtain ⟨⟨declared, node, body⟩, _, ⟨hparts, rfl⟩, name, _, ⟨hname, rfl⟩, returnType, _,
        ⟨htype, rfl⟩, h⟩ := h
      rw [hidle.layout, Context.laidOut_self] at htype
      obtain ⟨record, hrecord, rfl⟩ := free_gives hidle.toIdle hidle.classRecord h
      refine ⟨⟨[], [record], []⟩, ?_, ?_⟩
      · simp only [declOutput, hd, functionShape, hparts, hname, htype, hrecord, bind, Except.bind,
          pure, Except.pure]
        rfl
      · simp [gain, ← hidle.function]
  | interfaceDecl span decl => exact hskip h rfl
  | typeAlias span name => exact hskip h rfl
  | moduleDecl span decorators declared name body =>
    cases declared with
    | true => exact hskip h rfl
    | false => exact absurd h gives_throw

theorem decls_gives : ∀ {declarations : List Decl} {session after : Session},
    Between cx session → Gives (decls cx declarations) session () after →
    ∃ output, declsOutput cx declarations = .ok output ∧ after = gain session output
  | [], session, after, _, h => by
    obtain ⟨-, rfl⟩ := gives_pure.mp h
    exact ⟨.empty, rfl, gain_empty.symm⟩
  | first :: rest, session, after, hidle, h => by
    obtain ⟨_, between, hfirst, hrest⟩ := gives_bind.mp h
    obtain ⟨output, houtput, rfl⟩ := decl_gives hidle hfirst
    obtain ⟨others, hothers, rfl⟩ := decls_gives (hidle.gain output) hrest
    refine ⟨output.append others, ?_, gain_gain output others⟩
    simp only [declsOutput, houtput, hothers, bind, Except.bind, pure, Except.pure]

end Writing

end Emit

/-- The session that a program's output makes. -/
def Emit.Output.session (output : Emit.Output) (layout : Layout) : Session :=
  Emit.gain (.start layout) output

/-- **A written file is the output of its program**, laid out in the order asked for. -/
theorem generateWith_eq {options : Options} {model : Model} {program : Program} {text : String}
    (h : generateWith options model program = .ok text) :
    ∃ output, Emit.programOutput ⟨model, options⟩ program = .ok output ∧
      text = (output.session options.layout).text options.outputOrder := by
  unfold generateWith at h
  dsimp only at h
  split at h
  · cases h
  · rename_i session hrun
    obtain ⟨output, houtput, rfl⟩ := Emit.decls_gives ⟨⟨rfl, rfl⟩, rfl, rfl⟩
      (show Emit.Gives (Emit.decls ⟨model, options⟩ program.decls) (.start options.layout) () session
        from hrun)
    refine ⟨output, houtput, ?_⟩
    simp only [Session.finish] at h
    split at h
    · cases h
    · split at h
      · cases h
      · exact (Except.ok.inj h).symm

end NativeLowering
