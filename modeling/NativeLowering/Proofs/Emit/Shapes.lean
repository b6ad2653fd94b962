import NativeLowering.Proofs.Emit.Records
import NativeLowering.Proofs.Model.Build
import NativeLowering.Proofs.Syntax.Bodies

/-!
# Which functions a file has

A file has the records of its program's shapes: the free functions, the members of the classes that
are not only declared, and, if receivers are made explicit, one free function per method of those.
`FreeShape` and `MemberShape` say which shapes a declaration has. The free functions of a file are
records of the first (`functions_sound`), the members of its classes records of the second
(`methods_sound`), and all of them are there (`function_written`, `method_written`).
-/

set_option autoImplicit false

namespace NativeLowering
namespace Emit

/-! ## Shapes of declarations -/

/-- The names that a class of the program is written with. -/
def ClassNamed (cx : Context) (decl : ClassDecl) (names : ClassNames) : Prop :=
  ∃ declared item info, decl.name = some declared ∧
    cx.model.class? declared = some (item, info) ∧ names = classNames cx declared item info

/-- The shapes of the free functions that a declaration becomes. -/
def FreeShape (cx : Context) (shape : FunctionShape) : Decl → Prop
  | .functionDecl span decl => decl.declared = false ∧ functionShape cx decl span = .ok shape
  | .classDecl _ decl =>
    decl.declared = false ∧ cx.options.passes.receiver = true ∧
      ∃ names place method, ClassNamed cx decl names ∧ .method place method ∈ decl.members ∧
        method.name ≠ Spelling.destructor ∧ receiverShape cx names method place = .ok shape
  | _ => False

/-- The shape of a class member that has one. -/
def memberShape? (cx : Context) (names : ClassNames) : ClassMember → Option (Lowered FunctionShape)
  | .property .. => none
  | .method span decl => some (methodShape cx names decl span)
  | .constructor span decl => some (constructorShape cx names decl span)

/-- The shapes of the members that a declaration becomes. -/
def MemberShape (cx : Context) (shape : FunctionShape) : Decl → Prop
  | .classDecl _ decl =>
    decl.declared = false ∧ ∃ names member, ClassNamed cx decl names ∧ member ∈ decl.members ∧
      memberShape? cx names member = some (.ok shape)
  | _ => False

/-! ## What a shape is made of -/

section Parts

variable {cx : Context} {shape : FunctionShape}

theorem functionShape_parts {decl : FunctionDecl} {span : Span}
    (h : functionShape cx decl span = .ok shape) :
    ∃ declared, decl.name = some declared ∧ functionName cx declared span = .ok shape.name ∧
      shape.params = decl.params ∧ decl.body = some shape.body := by
  simp only [functionShape, Lowered.bind_eq_ok, Lowered.pure_eq_ok, Prod.exists] at h
  obtain ⟨declared, node, body, hparts, name, hname, returnType, -, rfl⟩ := h
  unfold functionParts at hparts
  split at hparts
  · cases hparts
  · rename_i found hfound
    split at hparts
    · cases hparts
    · split at hparts
      · cases hparts
      · cases hparts
      · rename_i hbody
        cases hparts
        exact ⟨declared, hfound, hname, rfl, hbody⟩

theorem receiverShape_parts {names : ClassNames} {method : MethodDecl} {place : Span}
    (h : receiverShape cx names method place = .ok shape) :
    ∃ body, method.body = some body ∧
      Receiver.bindReceiver cx.model (.start none) body = .ok shape.body ∧
      shape.name = Naming.receiverFunction names.written method.name ∧
      shape.params = receiverParam names.declared place :: method.params ∧
      shape.thisClass = none := by
  unfold receiverShape at h
  split at h
  · rename_i node body _ hbody
    simp only [Lowered.bind_eq_ok, Lowered.pure_eq_ok] at h
    obtain ⟨returnType, -, bound, hbound, rfl⟩ := h
    exact ⟨body, hbody, hbound, rfl, rfl, rfl⟩
  · cases h

theorem methodShape_parts {names : ClassNames} {method : MethodDecl} {place : Span}
    (h : methodShape cx names method place = .ok shape) :
    method.body = some shape.body ∧ shape.params = method.params ∧
      shape.thisClass = some names.declared := by
  unfold methodShape at h
  split at h
  · cases h
  · rename_i body hbody
    obtain ⟨_, -, h⟩ := Lowered.bind_eq_ok.mp h
    cases h
    exact ⟨hbody, rfl, rfl⟩

theorem paramName_eq_ok {param : Param} {name : String} (h : paramName param = .ok name) :
    param.name = .ident name := by
  unfold paramName at h
  split at h
  · cases h
  · split at h
    · rename_i hfound
      cases h
      exact BindingName.eq_ident hfound
    · cases h

theorem paramType_eq_ok {param : Param} {name : String} {node : TypeNode}
    (h : paramType param name = .ok node) : param.type = some node := by
  unfold paramType at h
  split at h
  · rename_i hfound
    cases h
    exact hfound
  · cases h

end Parts

/-! ## Membership -/

section Members

variable {cx : Context} {names : ClassNames}

theorem receiverRecords_sound {record : FunctionRecord} : ∀ {members : List ClassMember}
    {records : List FunctionRecord}, receiverRecords cx names members = .ok records →
    record ∈ records → ∃ place method shape, .method place method ∈ members ∧
      method.name ≠ Spelling.destructor ∧ receiverShape cx names method place = .ok shape ∧
      functionRecord cx shape = .ok record
  | [], _, h, hrecord => by
    cases h
    cases hrecord
  | .property .. :: rest, _, h, hrecord | .constructor .. :: rest, _, h, hrecord => by
    rw [receiverRecords] at h
    · obtain ⟨place, method, shape, hmem, hrest⟩ := receiverRecords_sound h hrecord
      exact ⟨place, method, shape, List.mem_cons_of_mem _ hmem, hrest⟩
    · simp
  | .method place method :: rest, records, h, hrecord => by
    rw [receiverRecords] at h
    by_cases hd : method.name = Spelling.destructor
    · rw [if_pos hd] at h
      obtain ⟨place', method', shape, hmem, hrest⟩ := receiverRecords_sound h hrecord
      exact ⟨place', method', shape, List.mem_cons_of_mem _ hmem, hrest⟩
    · rw [if_neg hd] at h
      simp only [Lowered.bind_eq_ok, Lowered.pure_eq_ok] at h
      obtain ⟨shape, hshape, first, hfirst, others, hothers, rfl⟩ := h
      rcases List.mem_cons.mp hrecord with rfl | hrecord
      · exact ⟨place, method, shape, List.mem_cons_self, hd, hshape, hfirst⟩
      · obtain ⟨place', method', shape', hmem, hrest⟩ := receiverRecords_sound hothers hrecord
        exact ⟨place', method', shape', List.mem_cons_of_mem _ hmem, hrest⟩

/-- Every method but a destructor has a receiver function. -/
theorem receiverRecords_complete {place : Span} {method : MethodDecl}
    (hname : method.name ≠ Spelling.destructor) : ∀ {members : List ClassMember}
    {records : List FunctionRecord}, receiverRecords cx names members = .ok records →
    .method place method ∈ members → ∃ shape record,
      receiverShape cx names method place = .ok shape ∧ functionRecord cx shape = .ok record ∧
      record ∈ records
  | [], _, _, hmem => nomatch hmem
  | .property .. :: rest, _, h, hmem | .constructor .. :: rest, _, h, hmem => by
    rw [receiverRecords] at h
    · refine receiverRecords_complete hname h ?_
      rcases List.mem_cons.mp hmem with heq | hmem
      · cases heq
      · exact hmem
    · simp
  | .method place' method' :: rest, records, h, hmem => by
    rw [receiverRecords] at h
    by_cases hd : method'.name = Spelling.destructor
    · rw [if_pos hd] at h
      rcases List.mem_cons.mp hmem with heq | hmem
      · cases heq
        exact absurd hd hname
      · exact receiverRecords_complete hname h hmem
    · rw [if_neg hd] at h
      simp only [Lowered.bind_eq_ok, Lowered.pure_eq_ok] at h
      obtain ⟨shape, hshape, first, hfirst, others, hothers, rfl⟩ := h
      rcases List.mem_cons.mp hmem with heq | hmem
      · cases heq
        exact ⟨shape, first, hshape, hfirst, List.mem_cons_self⟩
      · obtain ⟨shape', record, hshape', hrecord, hin⟩ :=
          receiverRecords_complete hname hothers hmem
        exact ⟨shape', record, hshape', hrecord, List.mem_cons_of_mem _ hin⟩

theorem memberRecords_methods {member : ClassMember} {added : Members}
    (h : memberRecords cx names member = .ok added) :
    (memberShape? cx names member = none ∧ added.methods = []) ∨
      ∃ shape visibility function, memberShape? cx names member = some (.ok shape) ∧
        functionRecord cx shape = .ok function ∧ added.methods = [⟨visibility, function⟩] := by
  have hmethod {visibility : Visibility} {shape : Lowered FunctionShape}
      (h : methodRecord cx visibility shape = .ok added) :
      ∃ value visibility function, shape = .ok value ∧ functionRecord cx value = .ok function ∧
        added.methods = [⟨visibility, function⟩] := by
    simp only [methodRecord, Lowered.bind_eq_ok, Lowered.pure_eq_ok] at h
    obtain ⟨value, hvalue, function, hfunction, rfl⟩ := h
    exact ⟨value, visibility, function, hvalue, hfunction, rfl⟩
  cases member with
  | property span decl =>
    refine .inl ⟨rfl, ?_⟩
    simp only [memberRecords] at h
    split at h
    · cases h
    · obtain ⟨type, -, h⟩ := Lowered.bind_eq_ok.mp h
      cases h
      rfl
  | method span decl =>
    obtain ⟨shape, visibility, function, hshape, hrest⟩ := hmethod h
    exact .inr ⟨shape, visibility, function, congrArg some hshape, hrest⟩
  | constructor span decl =>
    obtain ⟨shape, visibility, function, hshape, hrest⟩ := hmethod h
    exact .inr ⟨shape, visibility, function, congrArg some hshape, hrest⟩

theorem membersRecords_sound {written : MethodRecord} : ∀ {members : List ClassMember}
    {added : Members}, membersRecords cx names members = .ok added → written ∈ added.methods →
    ∃ member ∈ members, ∃ shape, memberShape? cx names member = some (.ok shape) ∧
      functionRecord cx shape = .ok written.function
  | [], _, h, hwritten => by
    cases h
    cases hwritten
  | member :: rest, added, h, hwritten => by
    simp only [membersRecords, Lowered.bind_eq_ok, Lowered.pure_eq_ok] at h
    obtain ⟨first, hfirst, others, hothers, rfl⟩ := h
    rcases List.mem_append.mp hwritten with hwritten | hwritten
    · rcases memberRecords_methods hfirst with ⟨-, hempty⟩ | ⟨shape, _, _, hshape, hown, heq⟩
      · rw [hempty] at hwritten
        cases hwritten
      · rw [heq] at hwritten
        obtain rfl := List.mem_singleton.mp hwritten
        exact ⟨member, List.mem_cons_self, shape, hshape, hown⟩
    · obtain ⟨other, hother, hrest⟩ := membersRecords_sound hothers hwritten
      exact ⟨other, List.mem_cons_of_mem _ hother, hrest⟩

/-- Every member with a shape is written. -/
theorem membersRecords_complete {member : ClassMember} {result : Lowered FunctionShape}
    (hmember : memberShape? cx names member = some result) : ∀ {members : List ClassMember}
    {added : Members}, membersRecords cx names members = .ok added → member ∈ members →
    ∃ shape, result = .ok shape ∧
      ∃ written ∈ added.methods, functionRecord cx shape = .ok written.function
  | [], _, _, hmem => nomatch hmem
  | other :: rest, added, h, hmem => by
    simp only [membersRecords, Lowered.bind_eq_ok, Lowered.pure_eq_ok] at h
    obtain ⟨first, hfirst, others, hothers, rfl⟩ := h
    rcases List.mem_cons.mp hmem with rfl | hmem
    · rcases memberRecords_methods hfirst with ⟨hnone, -⟩ | ⟨shape, _, _, hshape, hown, heq⟩
      · rw [hmember] at hnone
        cases hnone
      · rw [hmember] at hshape
        cases hshape
        exact ⟨shape, rfl, _, List.mem_append_left _ (by rw [heq]; exact List.mem_cons_self), hown⟩
    · obtain ⟨shape, hshape, written, hin, hrecord⟩ := membersRecords_complete hmember hothers hmem
      exact ⟨shape, hshape, written, List.mem_append_right _ hin, hrecord⟩

end Members

/-! ## Programs -/

section Programs

variable {cx : Context}

theorem declsOutput_sound : ∀ {declarations : List Decl} {output : Output},
    declsOutput cx declarations = .ok output →
    (∀ record ∈ output.functions, ∃ decl ∈ declarations, ∃ part,
      declOutput cx decl = .ok part ∧ record ∈ part.functions) ∧
    ∀ record ∈ output.classes, ∃ decl ∈ declarations, ∃ part,
      declOutput cx decl = .ok part ∧ record ∈ part.classes
  | [], _, h => by
    cases h
    exact ⟨nofun, nofun⟩
  | first :: rest, output, h => by
    simp only [declsOutput, Lowered.bind_eq_ok, Lowered.pure_eq_ok] at h
    obtain ⟨part, hpart, others, hothers, rfl⟩ := h
    obtain ⟨hfunctions, hclasses⟩ := declsOutput_sound hothers
    constructor
    · intro record hrecord
      rcases List.mem_append.mp hrecord with hrecord | hrecord
      · exact ⟨first, List.mem_cons_self, part, hpart, hrecord⟩
      · obtain ⟨decl, hdecl, hrest⟩ := hfunctions record hrecord
        exact ⟨decl, List.mem_cons_of_mem _ hdecl, hrest⟩
    · intro record hrecord
      rcases List.mem_append.mp hrecord with hrecord | hrecord
      · exact ⟨first, List.mem_cons_self, part, hpart, hrecord⟩
      · obtain ⟨decl, hdecl, hrest⟩ := hclasses record hrecord
        exact ⟨decl, List.mem_cons_of_mem _ hdecl, hrest⟩

theorem declsOutput_complete {decl : Decl} : ∀ {declarations : List Decl} {output : Output},
    declsOutput cx declarations = .ok output → decl ∈ declarations →
    ∃ part, declOutput cx decl = .ok part ∧ part.functions ⊆ output.functions ∧
      part.classes ⊆ output.classes
  | [], _, _, hmem => nomatch hmem
  | first :: rest, output, h, hmem => by
    simp only [declsOutput, Lowered.bind_eq_ok, Lowered.pure_eq_ok] at h
    obtain ⟨part, hpart, others, hothers, rfl⟩ := h
    rcases List.mem_cons.mp hmem with rfl | hmem
    · exact ⟨part, hpart, List.subset_append_left _ _, List.subset_append_left _ _⟩
    · obtain ⟨own, hown, hfunctions, hclasses⟩ := declsOutput_complete hothers hmem
      exact ⟨own, hown, List.Subset.trans hfunctions (List.subset_append_right _ _),
        List.Subset.trans hclasses (List.subset_append_right _ _)⟩

/-- What a class becomes. -/
theorem classOutput_eq {decl : ClassDecl} {span : Span} {output : Output}
    (h : classOutput cx decl span = .ok output) :
    ∃ names info members functions, ClassNamed cx decl names ∧
      membersRecords cx names decl.members = .ok members ∧
      (if cx.options.passes.receiver then receiverRecords cx names decl.members else .ok [])
        = .ok functions ∧
      output = ⟨[], functions, [classRecord names info members]⟩ := by
  unfold classOutput at h
  split at h
  · cases h
  · rename_i declared hname
    split at h
    · cases h
    · rename_i item info hclass
      obtain ⟨members, hmembers, h⟩ := Lowered.bind_eq_ok.mp h
      have hnames : ClassNamed cx decl (classNames cx declared item info) :=
        ⟨declared, item, info, hname, hclass, rfl⟩
      have hcontains : cx.options.passes.contains .receiver = cx.options.passes.receiver := rfl
      rw [hcontains] at h
      split at h
      · rename_i hr
        obtain ⟨functions, hfunctions, hout⟩ := Lowered.bind_eq_ok.mp h
        exact ⟨_, info, members, functions, hnames, hmembers, by rw [if_pos hr, hfunctions],
          Lowered.pure_eq_ok.mp hout⟩
      · rename_i hr
        exact ⟨_, info, members, [], hnames, hmembers, if_neg hr, Lowered.pure_eq_ok.mp h⟩

theorem ClassNamed.unique {decl : ClassDecl} {names names' : ClassNames}
    (h : ClassNamed cx decl names) (h' : ClassNamed cx decl names') : names' = names := by
  obtain ⟨declared, item, info, hname, hclass, rfl⟩ := h
  obtain ⟨declared', item', info', hname', hclass', rfl⟩ := h'
  rw [hname] at hname'
  cases hname'
  rw [hclass] at hclass'
  cases hclass'
  rfl

/-- What a declaration becomes: nothing, a function or a class. -/
theorem declOutput_cases {decl : Decl} {part : Output} (h : declOutput cx decl = .ok part) :
    (part.functions = [] ∧ part.classes = []) ∨
    (∃ span own shape record, decl = .functionDecl span own ∧ own.declared = false ∧
      functionShape cx own span = .ok shape ∧ functionRecord cx shape = .ok record ∧
      part = ⟨[], [record], []⟩) ∨
    ∃ span own, decl = .classDecl span own ∧ own.declared = false ∧
      classOutput cx own span = .ok part := by
  cases decl with
  | importDecl span decl =>
    obtain ⟨specifier, -, h⟩ := Lowered.bind_eq_ok.mp h
    cases h
    exact .inl ⟨rfl, rfl⟩
  | interfaceDecl | typeAlias =>
    cases h
    exact .inl ⟨rfl, rfl⟩
  | moduleDecl span decorators declared name body =>
    cases declared with
    | true =>
      cases h
      exact .inl ⟨rfl, rfl⟩
    | false => cases h
  | functionDecl span own =>
    simp only [declOutput] at h
    split at h
    · cases h
      exact .inl ⟨rfl, rfl⟩
    · rename_i hown
      simp only [Lowered.bind_eq_ok, Lowered.pure_eq_ok] at h
      obtain ⟨shape, hshape, record, hrecord, rfl⟩ := h
      exact .inr (.inl ⟨span, own, shape, record, rfl, by simpa using hown, hshape, hrecord, rfl⟩)
  | classDecl span own =>
    simp only [declOutput] at h
    split at h
    · cases h
      exact .inl ⟨rfl, rfl⟩
    · rename_i hown
      exact .inr (.inr ⟨span, own, rfl, by simpa using hown, h⟩)

/-- The free functions of a file come from the free shapes of its program. -/
theorem functions_sound {program : Program} {output : Output}
    (h : programOutput cx program = .ok output) {record : FunctionRecord}
    (hrecord : record ∈ output.functions) :
    ∃ decl ∈ program.decls, ∃ shape, FreeShape cx shape decl ∧
      functionRecord cx shape = .ok record := by
  obtain ⟨decl, hdecl, part, hpart, hrecord⟩ := (declsOutput_sound h).1 record hrecord
  refine ⟨decl, hdecl, ?_⟩
  rcases declOutput_cases hpart with ⟨hempty, -⟩ |
    ⟨span, own, shape, _, rfl, hown, hshape, hfunction, rfl⟩ | ⟨span, own, rfl, hown, hclass⟩
  · rw [hempty] at hrecord
    cases hrecord
  · obtain rfl := List.mem_singleton.mp hrecord
    exact ⟨shape, ⟨hown, hshape⟩, hfunction⟩
  · obtain ⟨names, info, members, functions, hnames, -, hfunctions, rfl⟩ := classOutput_eq hclass
    cases hr : cx.options.passes.receiver with
    | false =>
      rw [hr] at hfunctions
      cases hfunctions
      cases hrecord
    | true =>
      rw [hr, if_pos rfl] at hfunctions
      obtain ⟨place, method, shape, hmem, hne, hshape, hfunction⟩ :=
        receiverRecords_sound hfunctions hrecord
      exact ⟨shape, ⟨hown, hr, names, place, method, hnames, hmem, hne, hshape⟩, hfunction⟩

/-- The members of a file's classes come from the member shapes of its program. -/
theorem methods_sound {program : Program} {output : Output}
    (h : programOutput cx program = .ok output) {owner : ClassRecord}
    (howner : owner ∈ output.classes) {written : MethodRecord} (hwritten : written ∈ owner.methods) :
    ∃ decl ∈ program.decls, ∃ shape, MemberShape cx shape decl ∧
      functionRecord cx shape = .ok written.function := by
  obtain ⟨decl, hdecl, part, hpart, howner⟩ := (declsOutput_sound h).2 owner howner
  refine ⟨decl, hdecl, ?_⟩
  rcases declOutput_cases hpart with ⟨-, hempty⟩ |
    ⟨span, own, shape, _, rfl, hown, hshape, hfunction, rfl⟩ | ⟨span, own, rfl, hown, hclass⟩
  · rw [hempty] at howner
    cases howner
  · cases howner
  · obtain ⟨names, info, members, functions, hnames, hmembers, -, rfl⟩ := classOutput_eq hclass
    obtain rfl := List.mem_singleton.mp howner
    obtain ⟨member, hmem, shape, hshape, hfunction⟩ := membersRecords_sound hmembers hwritten
    exact ⟨shape, ⟨hown, names, member, hnames, hmem, hshape⟩, hfunction⟩

/-- Every free function of the program is written. -/
theorem function_written {program : Program} {output : Output}
    (h : programOutput cx program = .ok output) {span : Span} {decl : FunctionDecl}
    (hdecl : .functionDecl span decl ∈ program.decls) (hown : decl.declared = false) :
    ∃ shape record, functionShape cx decl span = .ok shape ∧ functionRecord cx shape = .ok record ∧
      record ∈ output.functions := by
  obtain ⟨part, hpart, hfunctions, -⟩ := declsOutput_complete h hdecl
  simp only [declOutput, hown, Bool.false_eq_true, if_false, Lowered.bind_eq_ok,
    Lowered.pure_eq_ok] at hpart
  obtain ⟨shape, hshape, record, hrecord, rfl⟩ := hpart
  exact ⟨shape, record, hshape, hrecord, hfunctions List.mem_cons_self⟩

/-- Every method of the program's own classes is written, and so is its receiver function unless
the method is a destructor. -/
theorem method_written {program : Program} {output : Output}
    (h : programOutput cx program = .ok output) {span : Span} {decl : ClassDecl}
    (hdecl : .classDecl span decl ∈ program.decls) (hown : decl.declared = false) {place : Span}
    {method : MethodDecl} (hmethod : .method place method ∈ decl.members) :
    ∃ names, ClassNamed cx decl names ∧
      (∃ shape, methodShape cx names method place = .ok shape ∧
        ∃ owner ∈ output.classes, owner.name = names.written ∧
          ∃ written ∈ owner.methods, functionRecord cx shape = .ok written.function) ∧
      (cx.options.passes.receiver = true → method.name ≠ Spelling.destructor →
        ∃ shape record, receiverShape cx names method place = .ok shape ∧
          functionRecord cx shape = .ok record ∧ record ∈ output.functions) := by
  obtain ⟨part, hpart, hfunctions, hclasses⟩ := declsOutput_complete h hdecl
  simp only [declOutput, hown, Bool.false_eq_true, if_false] at hpart
  obtain ⟨names, info, members, functions, hnames, hmembers, hreceivers, rfl⟩ := classOutput_eq hpart
  refine ⟨names, hnames, ?_, fun hr hne => ?_⟩
  · obtain ⟨shape, hshape, written, hin, hrecord⟩ := membersRecords_complete rfl hmembers hmethod
    exact ⟨shape, hshape, _, hclasses List.mem_cons_self, rfl, written, hin, hrecord⟩
  · rw [hr, if_pos rfl] at hreceivers
    obtain ⟨shape, record, hshape, hrecord, hin⟩ :=
      receiverRecords_complete hne hreceivers hmethod
    exact ⟨shape, record, hshape, hrecord, hfunctions hin⟩

end Programs

/-! ## The receiver's parameter -/

section Receivers

variable {cx : Context} {names : ClassNames} {decl : ClassDecl}

theorem typeText_named {name : String} {item : Item} {info : ClassInfo} (span : Span)
    (hbuiltin : Vocabulary.BuiltinType.ofString? name ≠ some .pointer)
    (h : cx.model.class? name = some (item, info)) :
    typeTextWith cx.model cx.mangling .bare (.reference span [name] [])
      = .ok (info.traits.writtenName cx.mangling item.name) := by
  obtain ⟨hfound, hinfo⟩ := Names.class?_eq_some.mp h
  have hitem : item.info = .classInfo info := by
    unfold Item.class? at hinfo
    split at hinfo
    · rename_i heq
      cases hinfo
      exact heq
    · cases hinfo
  simp only [typeTextWith, hbuiltin, if_false, hfound, itemTypeText, hitem, Naming.qualifiedIn]

/-- The parameter that passes the receiver, as it is written and as it is bound. A class of the
pointer's own name has none. -/
theorem receiverParam_record (hnames : ClassNamed cx decl names) {place : Span} {locals after : Locals}
    {record : ParamRecord}
    (h : paramRecord cx locals (receiverParam names.declared place) = .ok (record, after)) :
    record = ⟨cx.piece (names.written ++ "*"), Spelling.receiver, none⟩ ∧
      Vocabulary.BuiltinType.ofString? names.declared ≠ some .pointer ∧
      after = locals.declare Spelling.receiver
        (cx.model.typeFromOption (receiverParam names.declared place).type) := by
  obtain ⟨declared, item, info, -, hclass, rfl⟩ := hnames
  simp only [paramRecord, paramName, paramType, receiverParam, Bool.false_eq_true, if_false,
    BindingName.ident?, Lowered.bind_eq_ok] at h
  obtain ⟨_, hname, node, hnode, type, htype, _, hdefault, h⟩ := h
  cases hname
  cases hnode
  cases hdefault
  cases h
  have hpointer : Vocabulary.BuiltinType.ofString? Vocabulary.BuiltinType.pointer.spelling
      = some .pointer := rfl
  obtain ⟨text, htext, rfl⟩ := Lowered.map_eq_ok.mp htype
  rw [typeText, typeTextWith, if_pos hpointer] at htext
  obtain ⟨bare, hbare, rfl⟩ := Lowered.map_eq_ok.mp htext
  -- A class of the pointer's own name has no text.
  have hbuiltin : Vocabulary.BuiltinType.ofString? declared ≠ some .pointer := by
    intro heq
    rw [typeTextWith, classNames, if_pos heq] at hbare
    · cases hbare
    · simp
  rw [classNames, typeText_named place hbuiltin hclass] at hbare
  cases hbare
  exact ⟨rfl, hbuiltin, rfl⟩

/-- The parameters of a receiver function: the receiver, and behind it those of the method. -/
theorem receiverParams_records (hnames : ClassNamed cx decl names) {place : Span}
    {params : List Param} {locals after : Locals} {records : List ParamRecord}
    (h : paramRecords cx locals (receiverParam names.declared place :: params)
      = .ok (records, after)) :
    Vocabulary.BuiltinType.ofString? names.declared ≠ some .pointer ∧
    ∃ others, records = ⟨cx.piece (names.written ++ "*"), Spelling.receiver, none⟩ :: others ∧
      paramRecords cx
        (locals.declare Spelling.receiver
          (cx.model.typeFromOption (receiverParam names.declared place).type)) params
          = .ok (others, after) := by
  rw [paramRecords, Lowered.bind_eq_ok] at h
  obtain ⟨⟨first, between⟩, hfirst, h⟩ := h
  obtain ⟨⟨others, _⟩, hothers, h⟩ := Lowered.bind_eq_ok.mp h
  cases h
  obtain ⟨rfl, hbuiltin, rfl⟩ := receiverParam_record hnames hfirst
  exact ⟨hbuiltin, others, rfl, hothers⟩

/-- The receiver function of a method, as its file has it. -/
theorem receiverRecord_head (hnames : ClassNamed cx decl names) {method : MethodDecl} {place : Span}
    {shape : FunctionShape} (hshape : receiverShape cx names method place = .ok shape)
    {record : FunctionRecord} (hrecord : functionRecord cx shape = .ok record) :
    record.name = Naming.receiverFunction names.written method.name ∧
      record.params.head? = some ⟨cx.piece (names.written ++ "*"), Spelling.receiver, none⟩ := by
  obtain ⟨body, -, -, hname, hparams, -⟩ := receiverShape_parts hshape
  obtain ⟨params, locals, lowered, draft, hrecords, -, -, rfl⟩ :=
    functionRecordWith_eq_ok.mp hrecord
  rw [hparams] at hrecords
  obtain ⟨-, others, rfl, -⟩ := receiverParams_records hnames hrecords
  exact ⟨hname, rfl⟩

end Receivers

end Emit
end NativeLowering
