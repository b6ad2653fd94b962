import NativeLowering.Proofs.Emit.Concatenation
import NativeLowering.Proofs.Model.Known

/-!
# When written names collide

Two generators make the names at the top level of a file. A class or a function is written under its
own name, a receiver function under the name of the class, an underscore and the name of the method,
all behind the same mangling. The model keeps the own names apart (`build_ownNames_nodup`). Nothing
keeps the names of receiver functions apart from them or from each other, and `Counter_reset` may be
either. So the names of a file are distinct exactly if the names of its receiver functions keep
clear (`writtenNames_nodup_iff`), and always if receivers are not made explicit.
-/

set_option autoImplicit false

namespace NativeLowering

/-! ## The names that declarations come with -/

/-- The name of a class or function that is not only declared. -/
def Decl.ownName? : Decl → Option String
  | .classDecl _ decl => if decl.declared then none else decl.name
  | .functionDecl _ decl => if decl.declared then none else decl.name
  | .importDecl .. | .interfaceDecl .. | .typeAlias .. | .moduleDecl .. => none

/-- The names of the receiver functions of a class that is not only declared. -/
def Decl.receiverNames : Decl → List String
  | .classDecl _ decl =>
    if decl.declared then []
    else decl.name.toList.flatMap fun owner =>
      (Emit.receiverNames decl.members).map (Naming.receiverFunction owner)
  | _ => []

/-- The methods that a class declares have names of their own. -/
def Decl.MethodsDistinct : Decl → Prop
  | .classDecl _ decl => ((methodsOf decl.members).map MethodInfo.name).Nodup
  | _ => True

/-- The declaration is not bound to a native name. -/
def Decl.Unbound (decl : Decl) : Prop := Traits.args? decl.decorators .nativeBinding = none

namespace Program

/-- The own names of a program's classes and functions. -/
def ownNames (program : Program) : List String := program.decls.filterMap Decl.ownName?

/-- No receiver function has the name of a class or function, or of another class's receiver
function. -/
structure ReceiversApart (program : Program) : Prop where
  fromOwn : ∀ decl ∈ program.decls, ∀ name ∈ decl.receiverNames, name ∉ program.ownNames
  fromOthers : program.decls.Pairwise fun first second =>
    first.receiverNames.Disjoint second.receiverNames

end Program

/-! ## Both generators are injective -/

theorem mangle_injective (mangling : String) : Function.Injective (mangle mangling) := by
  intro first second h
  have hlists := congrArg String.toList h
  simp only [mangle, String.toList_append, List.append_cancel_left_eq] at hlists
  exact String.toList_injective hlists

theorem receiverFunction_injective (owner : String) :
    Function.Injective (Naming.receiverFunction owner) := mangle_injective (owner ++ "_")

/-- The name of a receiver function is mangled as the name of its class is. -/
theorem receiverFunction_mangle (mangling owner method : String) :
    Naming.receiverFunction (mangle mangling owner) method
      = mangle mangling (Naming.receiverFunction owner method) := by
  simp only [Naming.receiverFunction, mangle, String.append_assoc]

/-- The names of a class's receiver functions are distinct if those of its methods are. -/
theorem Decl.receiverNames_nodup {decl : Decl} (h : decl.MethodsDistinct) :
    decl.receiverNames.Nodup := by
  cases decl with
  | classDecl span decl =>
    have hmethods : (Emit.receiverNames decl.members).Sublist
        ((methodsOf decl.members).map MethodInfo.name) := by
      unfold Emit.receiverNames methodsOf
      induction decl.members with
      | nil => exact .slnil
      | cons member rest ih =>
        cases member with
        | method place method =>
          by_cases hd : method.name = Spelling.destructor
          · simpa [hd] using ih.cons Spelling.destructor
          · simpa [hd] using ih
        | _ => exact ih
    have hnames (owner : String) :=
      (List.Nodup.sublist hmethods h).map (receiverFunction_injective owner)
    simp only [Decl.receiverNames]
    cases decl.declared with
    | true => exact List.nodup_nil
    | false =>
      cases decl.name with
      | none => exact List.nodup_nil
      | some owner => simpa using hnames owner
  | _ => exact List.nodup_nil

/-! ## What an unbound declaration is written under -/

theorem Traits.ofDecorators_nativeName {decorators : List Decorator} {declared : String}
    {traits : Traits} (h : ofDecorators decorators declared = .ok traits)
    (hunbound : args? decorators .nativeBinding = none) : traits.nativeName = none := by
  simp only [ofDecorators, nativeNameOf, hunbound, Lowered.bind_eq_ok, Lowered.pure_eq_ok] at h
  obtain ⟨-, -, name, hname, -, -, rfl⟩ := h
  cases hname
  rfl

theorem Traits.writtenName_unbound {traits : Traits} (h : traits.nativeName = none)
    (mangling declared : String) : traits.writtenName mangling declared = mangle mangling declared := by
  simp [writtenName, h]

theorem classItem_written {decl : ClassDecl} {span : Span} {item : Item}
    (h : classItem decl span = .ok item) (hunbound : (Decl.classDecl span decl).Unbound)
    {info : ClassInfo} (hinfo : item.class? = some info) (mangling : String) :
    info.traits.writtenName mangling item.name = mangle mangling item.name := by
  unfold classItem at h
  split at h
  · cases h
  · obtain ⟨traits, htraits, h⟩ := Lowered.bind_eq_ok.mp h
    cases h
    cases hinfo
    exact Traits.writtenName_unbound (Traits.ofDecorators_nativeName htraits hunbound) _ _

theorem functionItem_written {decl : FunctionDecl} {span : Span} {item : Item}
    (h : functionItem decl span = .ok item) (hunbound : (Decl.functionDecl span decl).Unbound)
    (mangling : String) : item.writtenName mangling = mangle mangling item.name := by
  unfold functionItem at h
  split at h
  · cases h
  · obtain ⟨traits, htraits, h⟩ := Lowered.bind_eq_ok.mp h
    cases h
    exact Traits.writtenName_unbound (Traits.ofDecorators_nativeName htraits hunbound) _ _

theorem functionItem_isDeclared {decl : FunctionDecl} {span : Span} {item : Item}
    (h : functionItem decl span = .ok item) : item.isDeclaredFunction = decl.declared := by
  unfold functionItem at h
  split at h
  · cases h
  · obtain ⟨traits, -, h⟩ := Lowered.bind_eq_ok.mp h
    cases h
    rfl

/-! ## Own names in a model -/

namespace Model

theorem mem_sources {program : Program} {preludes : List Program} {decl : Decl}
    (h : decl ∈ program.decls) : decl ∈ sources program preludes := by
  simp only [sources, List.mem_flatMap, List.mem_append, List.mem_singleton]
  exact ⟨program, .inr rfl, h⟩

end Model

namespace Tables

/-- A declaration that is written brings in its name, and not as one that may be repeated. -/
theorem declare_ownName {decl : Decl} {own : Tables} {name : String}
    (hown : declare {} decl = .ok own) (hname : decl.ownName? = some name) :
    ∃ symbol, own.resolve? name = some symbol ∧ ¬ symbol.IsDeclaredFunction := by
  cases declare_eq_ok.mp hown with
  | @classDecl _ _ item _ _ hitem hvalues htypes =>
    obtain ⟨-, rfl⟩ := enter_eq_ok.mp hvalues
    obtain ⟨-, hname⟩ := Option.ite_none_left_eq_some.mp hname
    obtain rfl : item.name = name := Option.some.inj ((classItem_name hitem).symm.trans hname)
    refine ⟨.item item, List.lookup_cons_self, ?_⟩
    simp [Symbol.IsDeclaredFunction, classItem_not_function hitem]
  | overload hitem hoverload =>
    obtain ⟨-, symbol, hsymbol, -⟩ := Names.isOverload_iff.mp hoverload
    cases hsymbol
  | @functionDecl _ _ item _ hitem hfirst hvalues =>
    obtain ⟨-, rfl⟩ := enter_eq_ok.mp hvalues
    obtain ⟨hdeclared, hname⟩ := Option.ite_none_left_eq_some.mp hname
    obtain rfl : item.name = name := Option.some.inj ((functionItem_name hitem).symm.trans hname)
    refine ⟨.item item, List.lookup_cons_self, ?_⟩
    simpa [Symbol.IsDeclaredFunction, functionItem_isDeclared hitem] using hdeclared
  | importDecl | interfaceDecl | typeAlias | moduleDecl => cases hname

/-- Declarations that are written have names of their own. -/
theorem Brings.ownNames_nodup {decls : List Decl} {owns : List Tables}
    (hbrings : Brings declare decls owns)
    (hcompatible : owns.Pairwise (Compatible Symbol.IsDeclaredFunction)) :
    (decls.filterMap Decl.ownName?).Nodup := by
  induction hbrings with
  | nil => exact List.nodup_nil
  | @cons decl own decls owns hown hbrings ih =>
    obtain ⟨hfirst, hcompatible⟩ := List.pairwise_cons.mp hcompatible
    cases hname : decl.ownName? with
    | none => simpa [hname] using ih hcompatible
    | some name =>
      rw [List.filterMap_cons, hname]
      refine List.nodup_cons.mpr ⟨?_, ih hcompatible⟩
      intro hin
      obtain ⟨other, hother, hsame⟩ := List.mem_filterMap.mp hin
      obtain ⟨before, behind, rfl⟩ := List.append_of_mem hother
      obtain ⟨early, part, late, rfl, -, hpart⟩ := Brings.split hbrings
      obtain ⟨symbol, hsymbol, hnot⟩ := declare_ownName hown hname
      obtain ⟨symbol', hsymbol', -⟩ := declare_ownName hpart hsame
      exact hnot ((hfirst part (by simp)).value name symbol symbol' hsymbol hsymbol').1

end Tables

namespace Model

section Sources

variable {program : Program} {preludes : List Program} {model : TypedModel}
  (h : build program preludes = .ok model)
include h

/-- A model keeps the own names of classes and functions apart. -/
theorem build_ownNames_nodup : program.ownNames.Nodup := by
  obtain ⟨tables, htables, rfl⟩ := build_eq_ok.mp h
  obtain ⟨owns, imports, hparts, -⟩ := Tables.build_parts htables
  have hall := Tables.Brings.ownNames_nodup hparts.declared hparts.compatible
  refine hall.sublist ?_
  rw [sources, List.flatMap_append, List.flatMap_singleton, List.filterMap_append]
  exact List.sublist_append_right _ _

/-- A function that is written stands for itself. -/
theorem build_ownFunction {span : Span} {decl : FunctionDecl}
    (hdecl : .functionDecl span decl ∈ program.decls) (hown : decl.declared = false) :
    ∃ item, functionItem decl span = .ok item ∧ model.resolve? item.name = some (.item item) := by
  have hsource : .functionDecl span decl ∈ sources program preludes := mem_sources hdecl
  obtain ⟨before, behind, hdecls⟩ := List.append_of_mem hsource
  obtain ⟨tables, htables, rfl⟩ := build_eq_ok.mp h
  obtain ⟨owns, imports, hparts, hknown⟩ := Tables.build_parts htables
  obtain ⟨item, hitem, -, hvalue, -⟩ := hparts.keeps hknown hdecls rfl
  have hkind : item.kind = .functionKind := functionItem_kind hitem
  obtain ⟨found, hfound, -, rfl | ⟨hdeclared, -⟩⟩ := hvalue (by rw [hkind]; rfl)
  · exact ⟨_, hitem, hfound⟩
  · rw [functionItem_isDeclared hitem, hown] at hdeclared
    cases hdeclared

end Sources

end Model

/-! ## The names in a file -/

namespace Emit

/-- The names of the free functions and the classes in a file. -/
def Output.names (output : Output) : List String :=
  output.functions.map FunctionRecord.name ++ output.classes.map ClassRecord.name

theorem Output.names_append (first second : Output) :
    (first.append second).names.Perm (first.names ++ second.names) := by
  simp only [names, append, List.map_append, List.append_assoc]
  refine .append_left _ ?_
  simp only [← List.append_assoc]
  exact .append_right _ List.perm_append_comm

/-- The names that a declaration is written under, without the mangling. -/
def sourceNames (receivers : Bool) (decl : Decl) : List String :=
  decl.ownName?.toList ++ if receivers then decl.receiverNames else []

/-- The functions that follow a class are written under the names of its methods. -/
theorem classFunctions_names {cx : Context} (span : Span) {decl : ClassDecl} {names : ClassNames}
    {functions : List FunctionRecord} (hown : ¬ decl.declared = true)
    (hname : decl.name = some names.declared)
    (hwritten : names.written = mangle cx.mangling names.declared)
    (h : (if cx.options.passes.receiver then receiverRecords cx names decl.members else .ok [])
      = .ok functions) :
    functions.map FunctionRecord.name =
      (if cx.options.passes.receiver then (Decl.classDecl span decl).receiverNames else []).map
        (mangle cx.mangling) := by
  cases hr : cx.options.passes.receiver with
  | false =>
    rw [hr] at h
    cases h
    rfl
  | true =>
    rw [hr, if_pos rfl] at h
    have hmangled : mangle cx.mangling ∘ Naming.receiverFunction names.declared
        = Naming.receiverFunction (mangle cx.mangling names.declared) :=
      funext fun method => (receiverFunction_mangle _ _ method).symm
    rw [receiverRecords_names h, hwritten]
    simp [Decl.receiverNames, hown, hname, hmangled]

section Declarations

variable {program : Program} {preludes : List Program} {model : TypedModel} {cx : Context}
  {output : Output} (hmodel : Model.build program preludes = .ok model) (hcx : cx.model = model)
include hmodel hcx

/-- A class of the program is written under its own name. -/
theorem classNamed_written {span : Span} {decl : ClassDecl} {names : ClassNames}
    (hdecl : .classDecl span decl ∈ program.decls) (hunbound : (Decl.classDecl span decl).Unbound)
    (h : ClassNamed cx decl names) :
    decl.name = some names.declared ∧ names.written = mangle cx.mangling names.declared := by
  obtain ⟨declared, item, info, hname, hclass, rfl⟩ := h
  obtain ⟨built, hbuilt, hfound⟩ := Model.build_class hmodel hdecl
  rw [hcx] at hclass
  obtain ⟨hitem, hinfo⟩ := Names.class?_eq_some.mp hclass
  obtain rfl : declared = built.name := Option.some.inj (hname.symm.trans (classItem_name hbuilt))
  obtain rfl : item = built := Symbol.item.inj (Option.some.inj (hitem.symm.trans hfound))
  exact ⟨hname, classItem_written hbuilt hunbound hinfo cx.mangling⟩

/-- A function of the program is written under its own name. -/
theorem functionName_written {span : Span} {decl : FunctionDecl} {declared name : String}
    (hdecl : .functionDecl span decl ∈ program.decls) (hown : decl.declared = false)
    (hunbound : (Decl.functionDecl span decl).Unbound) (hname : decl.name = some declared)
    (h : functionName cx declared span = .ok name) : name = mangle cx.mangling declared := by
  obtain ⟨item, hitem, hfound⟩ := Model.build_ownFunction hmodel hdecl hown
  obtain rfl : declared = item.name :=
    Option.some.inj (hname.symm.trans (functionItem_name hitem))
  have hkind : (Symbol.item item).kind = .functionKind := functionItem_kind hitem
  simp only [functionName, hcx, hfound, hkind] at h
  cases h
  exact functionItem_written hitem hunbound cx.mangling

/-- What a declaration of the program adds is written under the names that it comes with. -/
theorem declOutput_names {decl : Decl} (hdecl : decl ∈ program.decls) (hunbound : decl.Unbound)
    (h : declOutput cx decl = .ok output) :
    output.names.Perm
      ((sourceNames cx.options.passes.receiver decl).map (mangle cx.mangling)) := by
  cases decl with
  | classDecl span decl =>
    simp only [declOutput] at h
    split at h
    · rename_i hdeclared
      cases h
      simp [sourceNames, Decl.ownName?, Decl.receiverNames, hdeclared, Output.names, Output.empty]
    · rename_i hown
      obtain ⟨names, info, members, functions, hnames, -, hfunctions, rfl⟩ := classOutput_eq h
      obtain ⟨hname, hwritten⟩ := classNamed_written hmodel hcx hdecl hunbound hnames
      have hreceivers := classFunctions_names span hown hname hwritten hfunctions
      have hclass : [classRecord names info members].map ClassRecord.name =
          (Decl.classDecl span decl).ownName?.toList.map (mangle cx.mangling) := by
        simp [classRecord, Decl.ownName?, hown, hname, hwritten]
      -- The receiver functions of a class are collected in front of it and named behind it.
      rw [Output.names, sourceNames, List.map_append, hreceivers, hclass]
      exact List.perm_append_comm
  | functionDecl span decl =>
    simp only [declOutput] at h
    split at h
    · rename_i hdeclared
      cases h
      simp [sourceNames, Decl.ownName?, Decl.receiverNames, hdeclared, Output.names, Output.empty]
    · rename_i hown
      obtain ⟨shape, hshape, h⟩ := Lowered.bind_eq_ok.mp h
      obtain ⟨record, hrecord, h⟩ := Lowered.bind_eq_ok.mp h
      obtain rfl := Lowered.pure_eq_ok.mp h
      obtain ⟨declared, hname, hshapeName, -, -⟩ := functionShape_parts hshape
      have hwritten : record.name = mangle cx.mangling declared :=
        (functionRecord_name hrecord).trans
          (functionName_written hmodel hcx hdecl (by simpa using hown) hunbound hname hshapeName)
      simp [sourceNames, Decl.ownName?, Decl.receiverNames, hown, hname, Output.names, hwritten]
  | importDecl span decl =>
    obtain ⟨specifier, -, h⟩ := Lowered.bind_eq_ok.mp h
    obtain rfl := Lowered.pure_eq_ok.mp h
    simp [sourceNames, Decl.ownName?, Decl.receiverNames, Output.names]
  | moduleDecl span decorators declared name body =>
    cases declared with
    | false => cases h
    | true =>
      cases h
      simp [sourceNames, Decl.ownName?, Decl.receiverNames, Output.names, Output.empty]
  | interfaceDecl | typeAlias =>
    cases h
    simp [sourceNames, Decl.ownName?, Decl.receiverNames, Output.names, Output.empty]

theorem declsOutput_names : ∀ {decls : List Decl} {output : Output},
    (∀ decl ∈ decls, decl ∈ program.decls) → (∀ decl ∈ decls, decl.Unbound) →
    declsOutput cx decls = .ok output →
    output.names.Perm
      ((decls.flatMap (sourceNames cx.options.passes.receiver)).map (mangle cx.mangling))
  | [], output, _, _, h => by
    cases h
    exact .refl _
  | decl :: rest, output, hmem, hunbound, h => by
    obtain ⟨first, hfirst, h⟩ := Lowered.bind_eq_ok.mp h
    obtain ⟨others, hothers, h⟩ := Lowered.bind_eq_ok.mp h
    obtain rfl := Lowered.pure_eq_ok.mp h
    have hone := declOutput_names hmodel hcx (hmem decl (by simp)) (hunbound decl (by simp)) hfirst
    have hrest := declsOutput_names (fun other ho => hmem other (by simp [ho]))
      (fun other ho => hunbound other (by simp [ho])) hothers
    rw [List.flatMap_cons, List.map_append]
    exact (Output.names_append first others).trans (hone.append hrest)

end Declarations

/-- The names that declarations come with are distinct exactly if those of receiver functions keep
clear, given that the own names are distinct and those of each class's receiver functions too. -/
theorem sourceNames_nodup_iff {program : Program} (receivers : Bool)
    (hown : program.ownNames.Nodup) (heach : ∀ decl ∈ program.decls, decl.receiverNames.Nodup) :
    (program.decls.flatMap (sourceNames receivers)).Nodup ↔
      (receivers = true → program.ReceiversApart) := by
  have hsplit : (program.decls.flatMap (sourceNames receivers)).Perm
      (program.ownNames ++ program.decls.flatMap fun decl =>
        if receivers then decl.receiverNames else []) := by
    rw [Program.ownNames, List.filterMap_eq_flatMap_toList]
    exact (List.flatMap_append_perm _ _ _).symm
  rw [hsplit.nodup_iff]
  cases receivers with
  | false => simpa [List.flatMap_eq_nil_iff.mpr] using hown
  | true =>
    simp only [if_true, forall_const, List.nodup_append', List.nodup_flatMap]
    constructor
    · rintro ⟨-, ⟨-, hothers⟩, hfrom⟩
      refine ⟨fun decl hdecl name hname hin => ?_, hothers⟩
      exact hfrom hin (List.mem_flatMap.mpr ⟨decl, hdecl, hname⟩)
    · rintro ⟨hfrom, hothers⟩
      refine ⟨hown, ⟨heach, hothers⟩, fun name hin hname => ?_⟩
      obtain ⟨decl, hdecl, hname⟩ := List.mem_flatMap.mp hname
      exact hfrom decl hdecl name hname hin

/-- **The names in a file are distinct exactly if those of its receiver functions keep clear.** Take
a program that is written, none of whose declarations is bound to a native name and none of whose
classes has two methods of a name. Without receiver functions the names are always distinct. -/
theorem writtenNames_nodup_iff {options : Options} {program : Program} {preludes : List Program}
    {text : String} (h : generate options program preludes = .ok text)
    (hunbound : ∀ decl ∈ program.decls, decl.Unbound)
    (hmethods : ∀ decl ∈ program.decls, decl.MethodsDistinct) :
    ∃ model output, Model.build program preludes = .ok model ∧
      programOutput ⟨model, options⟩ program = .ok output ∧
      text = (output.session options.layout).text options.outputOrder ∧
      (output.names.Nodup ↔ (options.passes.receiver = true → program.ReceiversApart)) := by
  obtain ⟨model, hmodel, hwritten⟩ := Lowered.bind_eq_ok.mp h
  obtain ⟨output, houtput, rfl⟩ := generateWith_eq hwritten
  refine ⟨model, output, hmodel, houtput, rfl, ?_⟩
  have hnames : output.names.Perm _ :=
    declsOutput_names hmodel rfl (fun _ hdecl => hdecl) hunbound houtput
  rw [hnames.nodup_iff, List.nodup_map_iff (mangle_injective _)]
  exact sourceNames_nodup_iff _ (Model.build_ownNames_nodup hmodel)
    fun decl hdecl => Decl.receiverNames_nodup (hmethods decl hdecl)

/-! ## A counter that is reset -/

open Build
open Receiver (explicitReceivers)

/-- A counter with a method `reset`, and a function of the given name. -/
def counterBeside (name : String) : Program :=
  Build.program [classOf "Counter" [method "reset" [] void []], function name [] void []]

theorem counterBeside_plain (name : String) :
    (∀ decl ∈ (counterBeside name).decls, decl.Unbound) ∧
      ∀ decl ∈ (counterBeside name).decls, decl.MethodsDistinct := by
  constructor
  · intro decl hdecl
    simp only [counterBeside, Build.program, List.mem_cons, List.not_mem_nil, or_false] at hdecl
    rcases hdecl with rfl | rfl <;> rfl
  · intro decl hdecl
    simp only [counterBeside, Build.program, List.mem_cons, List.not_mem_nil, or_false] at hdecl
    rcases hdecl with rfl | rfl
    · exact List.nodup_singleton _
    · trivial

/-- Beside `main` the receiver function of the counter keeps clear. -/
theorem writtenNames_nodup_iff_main : ∃ model output,
    Model.build (counterBeside "main") [] = .ok model ∧
      programOutput ⟨model, explicitReceivers⟩ (counterBeside "main") = .ok output ∧
      output.names.Nodup := by
  have hsome : (generate explicitReceivers (counterBeside "main") []).toOption.isSome = true := by
    decide +kernel
  obtain ⟨text, htext⟩ := Option.isSome_iff_exists.mp hsome
  obtain ⟨hunbound, hmethods⟩ := counterBeside_plain "main"
  obtain ⟨model, output, hmodel, houtput, -, hiff⟩ :=
    writtenNames_nodup_iff (Lowered.toOption_eq_some.mp htext) hunbound hmethods
  refine ⟨model, output, hmodel, houtput, hiff.mpr fun _ => ⟨?_, ?_⟩⟩
  · decide +kernel
  · exact List.pairwise_pair.mpr (List.disjoint_nil_right _)

/-- Beside `Counter_reset` it does not: the file has two functions of one name. -/
theorem counterReset_collides : ∃ model output,
    (∀ decl ∈ (counterBeside "Counter_reset").decls, decl.Unbound ∧ decl.MethodsDistinct) ∧
      (generate explicitReceivers (counterBeside "Counter_reset") []).toOption.isSome = true ∧
      Model.build (counterBeside "Counter_reset") [] = .ok model ∧
      programOutput ⟨model, explicitReceivers⟩ (counterBeside "Counter_reset") = .ok output ∧
      ¬ output.names.Nodup := by
  have hnames : ((Model.build (counterBeside "Counter_reset") []).toOption.bind
      fun model : TypedModel =>
      (programOutput ⟨model, explicitReceivers⟩ (counterBeside "Counter_reset")).toOption.map
        Output.names) = some ["tscc_Counter_reset", "tscc_Counter_reset", "tscc_Counter"] := by
    decide +kernel
  obtain ⟨model, hmodel, hnames⟩ := Option.bind_eq_some_iff.mp hnames
  obtain ⟨output, houtput, hnames⟩ := Option.map_eq_some_iff.mp hnames
  obtain ⟨hunbound, hmethods⟩ := counterBeside_plain "Counter_reset"
  refine ⟨model, output, fun decl hdecl => ⟨hunbound decl hdecl, hmethods decl hdecl⟩,
    by decide +kernel, Lowered.toOption_eq_some.mp hmodel, Lowered.toOption_eq_some.mp houtput, ?_⟩
  rw [hnames]
  decide

end Emit
end NativeLowering
