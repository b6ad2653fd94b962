import Mathlib.Data.List.Forall2
import NativeLowering.Proofs.Emit.Hoisting
import NativeLowering.Proofs.Emit.LineEndings
import NativeLowering.Proofs.Layout.ClassBlock
import NativeLowering.Proofs.Layout.Sections
import NativeLowering.Syntax.Build

/-!
# What a class is printed as

The members of a class are written into its record one after the other: a property becomes a field,
a method or a constructor a function (`membersRecords_printed`). What is printed of the record is its
block and the definitions of its functions, so each property has one line, each method and each
constructor one declaration and one definition, and nothing else is there (`class_printed`).
-/

set_option autoImplicit false

namespace NativeLowering

open Lowered (InStep Same)
open NativeLowering.Expr (Meets)

/-- The result of one of two computations in step is the same in both. -/
theorem Lowered.InStep.same_of_ok {α : Type} {P : α → Prop} {computed computed' : Lowered α}
    (h : InStep (Same P) computed computed') {value : α} (hvalue : computed = .ok value) :
    P value := by
  cases h with
  | ok hsame =>
    cases hvalue
    exact hsame.2
  | error e => cases hvalue

/-! ## Members -/

namespace ClassMember

def property? : ClassMember → Option PropertyDecl
  | .property _ decl => some decl
  | .method .. | .constructor .. => none

/-- Whether the member is a method, a constructor or a destructor. -/
def isFunction : ClassMember → Bool
  | .property .. => false
  | .method .. | .constructor .. => true

def visibility : ClassMember → Visibility
  | .property _ decl => decl.visibility
  | .method _ decl => decl.visibility
  | .constructor _ decl => decl.visibility

end ClassMember

/-! ## Declarations and definitions -/

namespace ParamRecord

/-- The parameter without its default value. -/
def plain (param : ParamRecord) : String := param.type ++ " " ++ param.name

/-- What a declaration shows of the default value. -/
def defaultPart (param : ParamRecord) : String :=
  match param.default with
  | some value => " = " ++ value
  | none => ""

theorem print_true (param : ParamRecord) : param.print true = param.plain ++ param.defaultPart := by
  unfold print plain defaultPart
  cases param.default with
  | none => simp
  | some value => simp [String.append_assoc]

theorem print_false (param : ParamRecord) : param.print false = param.plain := by
  unfold print plain
  cases param.default <;> rfl

end ParamRecord

namespace FunctionRecord

/-- What stands before the name of a function: its result, if it has one. -/
def resultPart (record : FunctionRecord) : String :=
  match record.returnType with
  | some type => type ++ " "
  | none => ""

/-- The parameters of a function in parentheses. -/
def paramList (record : FunctionRecord) (print : ParamRecord → String) : String :=
  "(" ++ ", ".intercalate (record.params.map print) ++ ")"

/-- The declaration in the class and the definition behind it show the same function. The name is
qualified in the definition only, and only the declaration shows default values. -/
structure AgreesOn (record : FunctionRecord) (layout : Layout) (qualifier : String) : Prop where
  declaration : record.signature false true =
    record.resultPart ++ record.name ++ record.paramList fun param =>
      param.plain ++ param.defaultPart
  definition : ∃ rest, record.print =
    record.resultPart ++ qualifier ++ record.name ++ record.paramList ParamRecord.plain
      ++ layout.newline ++ "\x7b" ++ layout.newline ++ rest

theorem signature_eq (record : FunctionRecord) (isQualified withDefaults : Bool) :
    record.signature isQualified withDefaults =
      record.resultPart ++ (if isQualified then record.qualifier.getD "" else "") ++ record.name
        ++ record.paramList fun param => param.print withDefaults := by
  simp only [signature, paramList, String.append_assoc]
  rfl

/-- A definition is its signature, with the braces of the body on lines below. -/
theorem print_eq (record : FunctionRecord) : ∃ rest, record.print =
    record.signature true false ++ record.body.layout.newline ++ "\x7b"
      ++ record.body.layout.newline ++ rest := by
  unfold print
  dsimp only
  generalize [Text.trimEnd record.hoisted.text, Text.trimEnd record.body.text].filter (· ≠ "")
    = parts
  have hlast : parts ++ ["\x7d"] ≠ [] := by simp
  refine ⟨record.body.layout.newline.intercalate (parts ++ ["\x7d"]), ?_⟩
  rw [List.append_assoc, List.cons_append, List.cons_append, List.nil_append,
    String.intercalate_cons_cons, String.intercalate_cons_of_ne_nil hlast]
  simp only [String.append_assoc]

theorem agreesOn {record : FunctionRecord} {qualifier : String}
    (h : record.qualifier = some qualifier) : record.AgreesOn record.body.layout qualifier where
  declaration := by
    rw [signature_eq]
    simp [ParamRecord.print_true]
  definition := by
    obtain ⟨rest, hprint⟩ := record.print_eq
    refine ⟨rest, ?_⟩
    have hplain : (fun param : ParamRecord => param.print false) = ParamRecord.plain :=
      funext ParamRecord.print_false
    rw [hprint, signature_eq, if_pos rfl, h, hplain]
    rfl

end FunctionRecord

namespace Emit

/-! ## What a class record is made of -/

section Members

variable {cx : Context} {names : ClassNames}

/-- The field is the property's: its type is the annotation, lowered. -/
structure FieldOf (cx : Context) (decl : PropertyDecl) (field : FieldRecord) : Prop where
  visibility : field.visibility = decl.visibility
  name : field.name = decl.name
  type : ∃ node, decl.type = some node ∧ cx.typePiece node = .ok field.type

/-- The record is the one of a method, constructor or destructor. -/
structure MethodOf (cx : Context) (names : ClassNames) (member : ClassMember)
    (method : MethodRecord) : Prop where
  visibility : method.visibility = member.visibility
  function : ∃ shape, memberShape? cx names member = some (.ok shape) ∧
    functionRecord cx shape = .ok method.function

/-- Each property has its field and each function its record, in declared order. -/
structure Members.Of (cx : Context) (names : ClassNames) (members : List ClassMember)
    (added : Members) : Prop where
  fields : List.Forall₂ (FieldOf cx) (members.filterMap ClassMember.property?) added.fields
  methods : List.Forall₂ (MethodOf cx names) (members.filter ClassMember.isFunction) added.methods

theorem methodRecord_printed {member : ClassMember} {shape : Lowered FunctionShape}
    (hshape : memberShape? cx names member = some shape) {added : Members}
    (h : methodRecord cx member.visibility shape = .ok added) :
    added.fields = [] ∧ List.Forall₂ (MethodOf cx names) [member] added.methods := by
  simp only [methodRecord, Lowered.bind_eq_ok, Lowered.pure_eq_ok] at h
  obtain ⟨value, rfl, function, hfunction, rfl⟩ := h
  exact ⟨rfl, .cons ⟨rfl, value, hshape, hfunction⟩ .nil⟩

theorem memberRecords_printed {member : ClassMember} {added : Members}
    (h : memberRecords cx names member = .ok added) : Members.Of cx names [member] added := by
  cases member with
  | property span decl =>
    simp only [memberRecords] at h
    split at h
    · cases h
    · rename_i node hnode
      obtain ⟨type, htype, h⟩ := Lowered.bind_eq_ok.mp h
      cases h
      exact ⟨.cons ⟨rfl, rfl, node, hnode, htype⟩ .nil, .nil⟩
  | method span decl =>
    have hshape : memberShape? cx names (.method span decl)
        = some (methodShape cx names decl span) := rfl
    obtain ⟨hfields, hmethods⟩ := methodRecord_printed hshape h
    exact ⟨hfields ▸ .nil, hmethods⟩
  | constructor span decl =>
    have hshape : memberShape? cx names (.constructor span decl)
        = some (constructorShape cx names decl span) := rfl
    obtain ⟨hfields, hmethods⟩ := methodRecord_printed hshape h
    exact ⟨hfields ▸ .nil, hmethods⟩

theorem membersRecords_printed : ∀ {members : List ClassMember} {added : Members},
    membersRecords cx names members = .ok added → Members.Of cx names members added
  | [], _, h => by
    cases h
    exact ⟨.nil, .nil⟩
  | member :: rest, _, h => by
    simp only [membersRecords, Lowered.bind_eq_ok, Lowered.pure_eq_ok] at h
    obtain ⟨first, hfirst, others, hothers, rfl⟩ := h
    have hfirst := memberRecords_printed hfirst
    have hothers := membersRecords_printed hothers
    constructor
    · rw [← List.singleton_append, List.filterMap_append]
      exact List.rel_append hfirst.fields hothers.fields
    · rw [← List.singleton_append, List.filter_append]
      exact List.rel_append hfirst.methods hothers.methods

theorem memberShape_qualifier {member : ClassMember} {shape : FunctionShape}
    (h : memberShape? cx names member = some (.ok shape)) :
    shape.qualifier = some (Naming.memberQualifier names.written) := by
  cases member with
  | property => cases h
  | method span decl =>
    have hshape : methodShape cx names decl span = .ok shape := Option.some.inj h
    unfold methodShape at hshape
    split at hshape
    · cases hshape
    · obtain ⟨_, -, hshape⟩ := Lowered.bind_eq_ok.mp hshape
      cases hshape
      rfl
  | constructor span decl =>
    have hshape : constructorShape cx names decl span = .ok shape := Option.some.inj h
    obtain ⟨_, -, hshape⟩ := Lowered.bind_eq_ok.mp hshape
    split at hshape
    · cases hshape
    · cases hshape
      rfl

theorem MethodOf.agreesOn {member : ClassMember} {method : MethodRecord}
    (h : MethodOf cx names member method) :
    method.function.AgreesOn cx.layout (Naming.memberQualifier names.written) := by
  obtain ⟨shape, hshape, hfunction⟩ := h.function
  obtain ⟨params, locals, lowered, draft, -, -, -, hrecord⟩ := functionRecordWith_eq_ok.mp hfunction
  rw [hrecord]
  have hqualifier : (recordOf cx shape params draft).qualifier =
      some (Naming.memberQualifier names.written) := memberShape_qualifier hshape
  exact FunctionRecord.agreesOn hqualifier

end Members

/-! ## Flat classes -/

section Flat

variable {cx : Context} (hcx : cx.Flat)
include hcx

theorem ClassNamed.flat {decl : ClassDecl} {names : ClassNames} (h : ClassNamed cx decl names) :
    names.Flat := by
  obtain ⟨declared, item, info, -, hclass, rfl⟩ := h
  obtain ⟨hdeclared, hitem, hinfo⟩ := hcx.model.class? hclass
  exact ⟨hdeclared, hinfo.1.writtenName hcx.mangling hitem.name⟩

theorem FieldOf.flat {decl : PropertyDecl} {field : FieldRecord} (h : FieldOf cx decl field)
    (hname : Text.Flat decl.name) (htype : TypeNode.FlatOption decl.type) : field.Flat := by
  obtain ⟨node, hnode, hlowered⟩ := h.type
  have htext := typePiece_same hcx (htype node hnode)
  rw [hlowered] at htext
  refine ⟨htext.same_of_ok rfl, ?_⟩
  rw [h.name]
  exact hname

theorem functionRecord_flat [cx.model.Typed] {shape : FunctionShape} (hshape : shape.Flat)
    {record : FunctionRecord} (h : functionRecord cx shape = .ok record) : record.Flat := by
  obtain ⟨params, locals, lowered, draft, hparams, -, -, rfl⟩ := functionRecordWith_eq_ok.mp h
  have hstart : (Locals.start shape.thisClass).TypesMeet Ty.Flat := .start hshape.thisClass
  have hrecords := paramRecords_same hcx hshape.params hshape.defaults hstart
  exact ⟨hshape.returnType, hshape.qualifier, hshape.name, (hrecords.same_of_ok hparams).1⟩

variable {span : Span} {decl : ClassDecl} {names : ClassNames} (hnames : names.Flat)
  (hall : (Decl.classDecl span decl).All (Meets flatNodes) FlatBinding)
include hnames hall

theorem memberShape_flat {member : ClassMember} (hmember : member ∈ decl.members)
    (hflat : member.Flat) {shape : FunctionShape}
    (h : memberShape? cx names member = some (.ok shape)) : shape.Flat := by
  cases member with
  | property => cases h
  | method place method =>
    exact (methodShape_same hcx hnames hall hmember hflat.1 hflat.2).same_of_ok (Option.some.inj h)
  | constructor place constructor =>
    exact (constructorShape_same hnames hall hmember).same_of_ok (Option.some.inj h)

/-- The fields and the functions of a class whose names are flat are flat. -/
theorem Members.Of.flat [cx.model.Typed] {added : Members}
    (h : Members.Of cx names decl.members added) (hmembers : ∀ member ∈ decl.members, member.Flat) :
    (∀ field ∈ added.fields, field.Flat) ∧ ∀ method ∈ added.methods, method.function.Flat := by
  constructor
  · intro field hfield
    obtain ⟨property, hproperty, hof⟩ := exists_of_forall₂ h.fields.flip hfield
    obtain ⟨member, hmember, hfound⟩ := List.mem_filterMap.mp hproperty
    cases member with
    | property place own =>
      obtain rfl := Option.some.inj hfound
      have hflat := hmembers _ hmember
      exact hof.flat hcx hflat.1 hflat.2
    | method => cases hfound
    | constructor => cases hfound
  · intro method hmethod
    obtain ⟨member, hmember, hof⟩ := exists_of_forall₂ h.methods.flip hmethod
    have hmember := (List.mem_filter.mp hmember).1
    obtain ⟨shape, hshape, hfunction⟩ := hof.function
    exact functionRecord_flat hcx
      (memberShape_flat hcx hnames hall hmember (hmembers member hmember) hshape) hfunction

end Flat

/-! ## Written classes -/

/-- What is printed of a class. -/
structure Printed (cx : Context) (span : Span) (decl : ClassDecl) (names : ClassNames)
    (record : ClassRecord) : Prop where
  name : record.name = names.written
  /-- The fields are the properties, with lowered types. -/
  fields : List.Forall₂ (FieldOf cx) (decl.members.filterMap ClassMember.property?) record.fields
  /-- The functions are the methods and constructors. -/
  methods : List.Forall₂ (MethodOf cx names) (decl.members.filter ClassMember.isFunction)
    record.methods
  fieldGroups : StablePartition FieldRecord.visibility record.fields
    (Visibility.groups FieldRecord.visibility record.fields)
  methodGroups : StablePartition MethodRecord.visibility record.methods
    (Visibility.groups MethodRecord.visibility record.methods)
  /-- Where no name breaks a line, the block has the lines of its groups. -/
  text : record.Flat → record.print cx.layout = cx.layout.blankLine.intercalate
    (cx.layout.joined record.blockLines :: record.methods.map fun method => method.function.print)
  flat : cx.model.Typed → cx.Flat → (Decl.classDecl span decl).FlatNames →
    (Decl.classDecl span decl).All (Meets flatNodes) FlatBinding → record.Flat
  agree : ∀ method ∈ record.methods,
    method.function.AgreesOn cx.layout (Naming.memberQualifier names.written)

variable {cx : Context} {session after : Session}

/-- **Classes are printed without loss, repetition or reordering.** -/
theorem class_printed {span : Span} {decl : ClassDecl} (hidle : Between cx session)
    (hown : decl.declared = false)
    (hrun : Gives (Emit.decl cx (.classDecl span decl)) session () after) :
    ∃ names record, ClassNamed cx decl names ∧ after.classes = session.classes ++ [record] ∧
      Printed cx span decl names record ∧
      ∀ order, (record.print cx.layout).toList <:+: (after.text order).toList := by
  obtain ⟨output, houtput, rfl⟩ := decl_gives hidle hrun
  simp only [declOutput, hown, Bool.false_eq_true, if_false] at houtput
  obtain ⟨names, info, members, functions, hnames, hmembers, -, rfl⟩ := classOutput_eq houtput
  have hof := membersRecords_printed hmembers
  refine ⟨names, classRecord names info members, hnames, rfl, ?_, fun order => ?_⟩
  · refine ⟨rfl, hof.fields, hof.methods, Visibility.groups_stable _ _,
      Visibility.groups_stable _ _, fun hflat => ClassRecord.print_lines hflat cx.layout,
      fun _ hcx hflat hall => ?_, fun method hmethod => ?_⟩
    · have hwritten := hnames.flat hcx
      obtain ⟨hfields, hmethods⟩ := hof.flat hcx hwritten hall hflat.2.2
      exact ⟨hwritten.written, hfields, hmethods⟩
    · obtain ⟨member, -, hof⟩ := exists_of_forall₂ hof.methods.flip hmethod
      exact hof.agreesOn
  · rw [← hidle.layout]
    refine @Session.class_isInfix (gain session _) order _ ?_
    simp [gain]

end Emit

/-! ## Mixed visibilities -/

section Mixed

open Build
open Emit (ClassNamed Gives Printed class_printed gives_of_toOption)

/-- Fields and functions of every visibility, in no order, with a default value that has a line
break. -/
def mixedClass : ClassDecl :=
  { decorators := [], declared := false, name := some "Mixed"
    members :=
      [fieldWith .privateMember "count" (keyword .number),
       constructor [paramDefault "label" (keyword .string) (string "a\nb")] [],
       fieldWith .publicMember "label" (keyword .string),
       methodWith .protectedMember "scale" [paramDefault "by" (keyword .number) (number "2")] void [],
       fieldWith .privateMember "total" (keyword .number),
       methodWith .publicMember "reset" [] void []] }

def mixed : Program := program [.classDecl {} mixedClass]

/-- What constructors rely on. -/
def allocation : Program :=
  program [declaredFunction "tscc_allocator_alloc" [] void, declaredFunction "sizeof" [] void]

theorem mixed_flat : mixed.Flat := by
  refine List.forall_mem_singleton.mpr ⟨⟨?_, List.forall_mem_nil _, ?_⟩, ?_, ?_, ?_⟩
  · intro name hname
    cases hname
    decide
  · simp only [mixedClass, fieldWith, methodWith, constructor, List.forall_mem_cons]
    exact ⟨⟨by decide, .option trivial⟩, trivial, ⟨by decide, .option trivial⟩,
      ⟨by decide, .option trivial⟩, ⟨by decide, .option trivial⟩, ⟨by decide, .option trivial⟩,
      List.forall_mem_nil _⟩
  · exact List.forall_mem_cons.mpr ⟨trivial, List.forall_mem_cons.mpr ⟨trivial,
      List.forall_mem_singleton.mpr trivial⟩⟩
  · exact List.forall_mem_cons.mpr
      ⟨flatBinding_ident (by decide) (TypeNode.Flat.option trivial), List.forall_mem_singleton.mpr
        (flatBinding_ident (by decide) (TypeNode.Flat.option trivial))⟩
  · refine List.forall_mem_cons.mpr ⟨?_, List.forall_mem_singleton.mpr ?_⟩
    · intro value hvalue
      cases hvalue
      trivial
    · intro value hvalue
      cases hvalue
      exact (by decide : Text.Flat "2")

theorem allocation_flat : allocation.Flat := by
  refine List.forall_mem_cons.mpr ⟨⟨⟨?_, List.forall_mem_nil _, .option trivial⟩, ?_⟩,
    List.forall_mem_singleton.mpr ⟨⟨?_, List.forall_mem_nil _, .option trivial⟩, ?_⟩⟩
  · intro name hname
    cases hname
    decide
  · exact Decl.all_of_empty rfl rfl
  · intro name hname
    cases hname
    decide
  · exact Decl.all_of_empty rfl rfl

/-- The lines of the block, by their groups. -/
def mixedLines : List Line :=
  [⟨0, "class tscc_Mixed"⟩, ⟨0, "\x7b"⟩,
    ⟨0, "public:"⟩, ⟨1, "const char* label;"⟩,
    ⟨0, "private:"⟩, ⟨1, "double count;"⟩, ⟨1, "double total;"⟩,
    ⟨0, "public:"⟩, ⟨1, "tscc_Mixed(const char* label = \"a\\nb\");"⟩, ⟨1, "void reset();"⟩,
    ⟨0, "protected:"⟩, ⟨1, "void scale(double by = 2);"⟩, ⟨0, "\x7d;"⟩]

/-- The names of the mixed class are flat, so its block has the lines of its groups. -/
theorem class_printed_mixed : ∃ model after names record,
    Model.build mixed [allocation] = .ok model ∧
    Gives (Emit.decl ⟨model, {}⟩ (.classDecl {} mixedClass)) (.start {}) () after ∧
    ClassNamed ⟨model, {}⟩ mixedClass names ∧ after.classes = [record] ∧
    Printed ⟨model, {}⟩ {} mixedClass names record ∧
    record.Flat ∧ record.blockLines = mixedLines ∧
    record.print {} = (Layout.blankLine {}).intercalate
      (Layout.joined {} mixedLines :: record.methods.map fun method => method.function.print) ∧
    ∀ order, (record.print {}).toList <:+: (after.text order).toList := by
  obtain ⟨model, after, hbuild, hrun⟩ := gives_of_toOption
    (show (Model.build mixed [allocation]).toOption.map (fun model : TypedModel =>
        ((Emit.decl ⟨model, {}⟩ (.classDecl {} mixedClass)).run (.start {})).1.toOption)
      = some (some ()) by decide +kernel)
  obtain ⟨names, record, hnames, hclasses, hprinted, hfile⟩ :=
    @class_printed ⟨model, {}⟩ _ _ _ _ ⟨⟨rfl, rfl⟩, rfl, rfl⟩ rfl hrun
  have hmangling : Text.Flat Spelling.mangling := by decide
  have hcx : Context.Flat ⟨model, {}⟩ :=
    ⟨Model.build_flat mixed_flat (List.forall_mem_singleton.mpr allocation_flat) hbuild, hmangling⟩
  obtain ⟨hmixed, hbodies⟩ := mixed_flat _ (List.mem_singleton_self _)
  have hflat : record.Flat := hprinted.flat model.typed hcx hmixed hbodies
  have hwritten : (Model.build mixed [allocation]).toOption.map (fun model : TypedModel =>
        ((Emit.decl ⟨model, {}⟩ (.classDecl {} mixedClass)).run (.start {})).2.classes.map
          ClassRecord.blockLines)
      = some [mixedLines] := by decide +kernel
  have hlines : record.blockLines = mixedLines := by
    rw [hbuild] at hwritten
    have hblocks := Option.some.inj hwritten
    dsimp only at hblocks
    rw [hrun, hclasses] at hblocks
    exact (List.cons.inj hblocks).1
  refine ⟨model, after, names, record, hbuild, hrun, hnames, hclasses, hprinted, hflat, hlines, ?_,
    hfile⟩
  rw [← hlines]
  exact hprinted.text hflat

example : (generate {} mixed [allocation]).toOption = some
    ("class tscc_Mixed\n\x7b\npublic:\n    const char* label;\n" ++
      "private:\n    double count;\n    double total;\n" ++
      "public:\n    tscc_Mixed(const char* label = \"a\\nb\");\n    void reset();\n" ++
      "protected:\n    void scale(double by = 2);\n\x7d;\n\n" ++
      "tscc_Mixed::tscc_Mixed(const char* label)\n\x7b\n\x7d\n\n" ++
      "void tscc_Mixed::scale(double by)\n\x7b\n\x7d\n\n" ++
      "void tscc_Mixed::reset()\n\x7b\n\x7d\n") := by
  decide +kernel

end Mixed

end NativeLowering
