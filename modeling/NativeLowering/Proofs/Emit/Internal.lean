import NativeLowering.Proofs.Emit.Backed
import NativeLowering.Syntax.Build

/-!
# Internal faults

Some faults say that the model lacks a class, a function or a module that the program uses as if it
were there, or that a receiver call has no receiver. A caller who supplies a model can run into
them. With the model that is built from the program itself, none of them is ever met, as long as
nobody writes receiver calls by hand.

Building the model raises none. Writing the program raises none because the built model backs it
(`backed_build`): the types of its expressions are known, whatever bindings a body comes to.
-/

set_option autoImplicit false

namespace NativeLowering

open Lowered
open NativeLowering.Expr (Meets AllMeet)
open Stmt (AllList)

attribute [local simp] Fault.Ordinary Fault.category Fault.expected_iff Fault.isInternal

/-! ## Building -/

section Building

variable {P : Fault → Prop} (hP : ∀ cause : Fault, cause.Expected → P cause)
include hP

theorem enter_blames {α : Type} (table : List (String × α)) (name : String) (value : α)
    (span : Span) : (enter table name value span).Blames P := by
  unfold enter
  split <;> simp [hP]

theorem traits_blames (decorators : List Decorator) (declared : String) :
    (Traits.ofDecorators decorators declared).Blames P := by
  have hknown : (Traits.checkKnown decorators).Blames P := by
    induction decorators with
    | nil => exact blames_ok _
    | cons decorator rest ih =>
      rw [Traits.checkKnown]
      split
      · exact ih
      · simp [hP]
  have harg (name : Vocabulary.DecoratorName) (args : List Expr) :
      (Traits.literalArg name args).Blames P := by
    unfold Traits.literalArg
    split <;> simp [hP]
  have hname : (Traits.nativeNameOf decorators declared).Blames P := by
    unfold Traits.nativeNameOf
    split
    · exact blames_ok _
    · exact blames_map.mpr (harg _ _)
  have hspace : (Traits.nativeSpaceOf decorators).Blames P := by
    unfold Traits.nativeSpaceOf
    split
    · exact blames_ok _
    · exact harg _ _
  exact hknown.bind fun _ => hname.bind fun _ => hspace.bind fun _ => blames_pure _

theorem classItem_blames (decl : ClassDecl) (span : Span) : (classItem decl span).Blames P := by
  unfold classItem
  split
  · simp [hP]
  · exact (traits_blames hP _ _).bind fun _ => blames_pure _

theorem functionItem_blames (decl : FunctionDecl) (span : Span) :
    (functionItem decl span).Blames P := by
  unfold functionItem
  split
  · simp [hP]
  · exact (traits_blames hP _ _).bind fun _ => blames_pure _

theorem memberItem_blames (decl : Decl) : (memberItem decl).Blames P := by
  cases decl with
  | classDecl span decl => exact classItem_blames hP decl span
  | functionDecl span decl => exact functionItem_blames hP decl span
  | interfaceDecl | typeAlias => exact blames_ok _
  | importDecl | moduleDecl => simp [memberItem, hP]

omit hP in
theorem foldlM_blames {σ α : Type} {step : σ → α → Lowered σ} {items : List α}
    (hstep : ∀ state item, (step state item).Blames P) (state : σ) :
    (items.foldlM step state).Blames P := by
  induction items generalizing state with
  | nil => exact blames_pure _
  | cons item rest ih =>
    rw [List.foldlM_cons]
    exact (hstep state item).bind ih

theorem ambientModule_blames (span : Span) (decorators : List Decorator) (specifier : String)
    (body : List Decl) : (ambientModule span decorators specifier body).Blames P := by
  have hexport (members : List (String × Item)) (decl : Decl) :
      (exportDecl specifier members decl).Blames P := by
    refine (memberItem_blames hP decl).bind fun item => ?_
    split
    · exact blames_pure _
    · split <;> simp [hP]
  exact (traits_blames hP _ _).bind fun _ => (foldlM_blames hexport _).bind fun _ => blames_pure _

theorem declare_blames (table : SymbolTable) (decl : Decl) : (table.declare decl).Blames P := by
  cases decl with
  | importDecl span decl => exact blames_ok _
  | classDecl span decl =>
    exact (classItem_blames hP decl span).bind fun _ => (enter_blames hP _ _ _ _).bind fun _ =>
      (enter_blames hP _ _ _ _).bind fun _ => blames_pure _
  | functionDecl span decl =>
    refine (functionItem_blames hP decl span).bind fun item => ?_
    split
    · exact blames_pure _
    · exact (enter_blames hP _ _ _ _).bind fun _ => blames_pure _
  | interfaceDecl span decl => exact (enter_blames hP _ _ _ _).bind fun _ => blames_pure _
  | typeAlias span name => exact (enter_blames hP _ _ _ _).bind fun _ => blames_pure _
  | moduleDecl span decorators declared specifier body =>
    rw [SymbolTable.declare]
    split
    · simp [hP]
    · exact (ambientModule_blames hP _ _ _ _).bind fun _ => blames_pure _

theorem bindItem_blames (source : SymbolId) (specifier : String) (span : Span) (table : SymbolTable)
    (item : ImportItem) : (SymbolTable.bindItem source specifier span table item).Blames P := by
  unfold SymbolTable.bindItem
  split
  · simp [hP]
  · split
    · refine (enter_blames hP _ _ _ _).bind fun _ => ?_
      split
      · exact (enter_blames hP _ _ _ _).bind fun _ => blames_pure _
      · exact blames_pure _
    · refine (blames_ok _).bind fun _ => ?_
      split
      · exact (enter_blames hP _ _ _ _).bind fun _ => blames_pure _
      · exact blames_pure _

theorem bindImport_blames (table : SymbolTable) (decl : Decl) :
    (table.bindImport decl).Blames P := by
  cases decl with
  | importDecl span decl =>
    have hspecifier : decl.specifierText.Blames P := by
      unfold ImportDecl.specifierText
      split <;> simp [hP]
    refine hspecifier.bind fun specifier => ?_
    split
    · exact blames_pure _
    · unfold SymbolTable.bindClause
      split
      · exact blames_ok _
      · exact (enter_blames hP _ _ _ _).bind fun _ => blames_pure _
      · exact foldlM_blames (bindItem_blames hP _ _ _) _
  | _ => exact blames_ok _

/-- Building a model fails with expected faults only. -/
theorem build_blames (program : Program) (preludes : List Program) :
    (Model.build program preludes).Blames P :=
  blames_map.mpr <|
    (foldlM_blames (declare_blames hP) _).bind fun _ => foldlM_blames (bindImport_blames hP) _

end Building

/-! ## Writing -/

/-- No receiver calls, and nothing else that is ruled out. -/
def noReceiverCalls : NodeCondition where
  name _ := True
  literal _ := True
  types _ := True
  comma _ := True
  receiver _ _ _ := False

theorem noReceiverCalls_receivedBy (model : Model) {value : Expr}
    (h : value.Meets noReceiverCalls) : value.Meets (receivedBy model) :=
  Expr.Meets.imp
    ⟨fun _ _ => trivial, fun _ _ => trivial, fun _ _ => trivial, fun _ _ => trivial,
      fun _ _ _ => False.elim⟩ value h

/-- A program without receiver calls, neither in bodies nor in default values. -/
def Program.HasNoReceiverCalls (program : Program) : Prop :=
  ∀ decl ∈ program.decls, decl.All (Meets noReceiverCalls) fun _ _ => True

/-- The model that is built from a program without receiver calls backs it. -/
theorem backed_build {P : Fault → Prop} {program : Program} {preludes : List Program}
    {model : TypedModel} (hmodel : Model.build program preludes = .ok model)
    (hprogram : program.HasNoReceiverCalls) :
    Backed P (Locals.Reached model program) model program where
  closed := Locals.closed_reached model program
  answers _ hlocals :=
    .inr ⟨model.typed, Model.build_linked hmodel, hlocals.known (Model.build_linked hmodel) fun _ =>
      Model.build_owns hmodel⟩
  free := .free
  member _ howns := .member howns
  parts decl hdecl := by
    have hparts := hprogram decl hdecl
    refine .inr ⟨fun body hbody => ?_, fun _ _ => trivial, fun param hparam value hvalue => ?_⟩
    · exact (hparts.bodies body hbody).imp (fun _ => noReceiverCalls_receivedBy model)
        fun _ _ _ => trivial
    · exact noReceiverCalls_receivedBy model (hparts.defaults param hparam value hvalue)
  functions _ _ _ hdecl hname := .inr (Model.build_function hmodel hdecl hname)

/-- **Internal faults are never met.** Take a program without receiver calls, with any preludes and
any options. If it cannot be lowered, the fault is none that says that the model lacks what it was
built to have. This is because the built model knows the classes and modules of all types of
annotations and expressions, at all bindings that passes and writing come to. -/
theorem generate_no_internal_fault (options : Options) (program : Program)
    (preludes : List Program) (hprogram : program.HasNoReceiverCalls) :
    (∀ e, generate options program preludes = .error e →
      ∃ span cause, e = .fault span cause ∧ cause.isInternal = false) ∧
    ∀ model, Model.build program preludes = .ok model →
      (∀ node, (model.typeFromNode node).KnownTo model) ∧
      ∀ locals, locals.Reached model program →
        ∀ value, (model.typeOf locals value).KnownTo model := by
  have hexternal (cause : Fault) (hexpected : cause.Expected) : cause.isInternal = false :=
    hexpected.external
  constructor
  · -- Both halves of the run fail with expected faults only.
    have hrun : (generate options program preludes).Blames fun cause =>
        cause.isInternal = false := by
      have hbuild : (Model.build program preludes).Ends (fun cause => cause.isInternal = false)
          fun model => Model.build program preludes = .ok model :=
        ⟨build_blames hexternal program preludes, fun _ hmodel => hmodel⟩
      refine (hbuild.bind (R := fun _ => True) fun model hmodel => ?_).blames
      exact ((backed_build hmodel hprogram).blames hexternal options).ends
    exact hrun
  · intro model hmodel
    have hlinked := Model.build_linked hmodel
    refine ⟨fun node => Model.typeFromNode_known node, fun locals hlocals value => ?_⟩
    exact Model.Answers.typeOf_known
      ⟨model.typed, hlinked, hlocals.known hlinked fun _ => Model.build_owns hmodel⟩ value

section Drawing

open Build

/-- A window, and a function that draws with a module of native code and then asks the window for
what it does not have. -/
def drawingProgram : Program := program
  [ importWhole "gfx" "gfx",
    classOf "Window" [field "width" (keyword .number), method "show" [] void [exprStmt thisRef]],
    function "main" [paramDefault "title" (keyword .string) (string "untitled")] void
      [ letVar "window" (some (type "Window")) (some (new "Window" [])),
        exprStmt (methodCall (ident "gfx") "draw" []),
        exprStmt (methodCall (ident "window") "hide" []) ] ]

def gfxPrelude : Program := program [moduleOf "gfx" [declaredFunction "draw" [] void]]

/-- What the window lacks is the program's own fault. Where it stands, the window and the module are
known. -/
theorem generate_no_internal_fault_drawing :
    drawingProgram.HasNoReceiverCalls ∧
    (∃ span cause, generate {} drawingProgram [gfxPrelude] = .error (.fault span cause) ∧
      cause.isInternal = false) ∧
    ∃ model locals, Model.build drawingProgram [gfxPrelude] = .ok model ∧
      locals.Reached model drawingProgram ∧
      model.typeOf locals (ident "window") = .classTy "Window" ∧
      (model.class? "Window").isSome = true ∧
      model.typeOf locals (ident "gfx") = .moduleTy "gfx" ∧
      (model.module? "gfx").isSome = true := by
  have hprogram : drawingProgram.HasNoReceiverCalls := by
    intro decl hdecl
    simp only [drawingProgram, program, List.mem_cons, List.not_mem_nil, or_false] at hdecl
    rcases hdecl with rfl | rfl | rfl
    · exact Decl.all_of_empty rfl rfl
    · refine ⟨fun body hbody => ?_, fun param hparam => ?_, fun param hparam => ?_⟩
      · obtain rfl := List.mem_singleton.mp hbody
        exact ⟨trivial, trivial⟩
      · exact absurd hparam List.not_mem_nil
      · exact absurd hparam List.not_mem_nil
    · refine ⟨fun body hbody => ?_, fun _ _ => trivial, fun param hparam value hvalue => ?_⟩
      · obtain rfl := List.mem_singleton.mp hbody
        refine ⟨fun decl hdecl => ⟨trivial, fun value hvalue => ?_⟩, ?_, ?_, trivial⟩
        · obtain rfl := List.mem_singleton.mp hdecl
          cases hvalue
          exact ⟨trivial, trivial⟩
        · exact ⟨⟨trivial, trivial⟩, trivial, trivial⟩
        · exact ⟨⟨trivial, trivial⟩, trivial, trivial⟩
      · obtain rfl := List.mem_singleton.mp hparam
        cases hvalue
        trivial
  obtain ⟨hfaults, hknown⟩ := generate_no_internal_fault {} drawingProgram [gfxPrelude] hprogram
  refine ⟨hprogram, ?_, ?_⟩
  · have hfails : (generate {} drawingProgram [gfxPrelude]).toOption.isNone = true := by
      decide +kernel
    cases hrun : generate {} drawingProgram [gfxPrelude] with
    | ok text =>
      rw [hrun] at hfails
      cases hfails
    | error e =>
      obtain ⟨span, cause, rfl, hexternal⟩ := hfaults e hrun
      exact ⟨span, cause, rfl, hexternal⟩
  · obtain ⟨model, hmodel⟩ : ∃ model, Model.build drawingProgram [gfxPrelude] = .ok model :=
      ⟨_, rfl⟩
    obtain ⟨-, hvalues⟩ := hknown model hmodel
    have hlocals : Locals.Reached model drawingProgram
        ((Locals.start none).declare "window" (model.typeFromNode (type "Window"))) :=
      Locals.Reached.free.annotated "window" (type "Window")
    have hwindow : model.typeOf ((Locals.start none).declare "window"
        (model.typeFromNode (type "Window"))) (ident "window") = .classTy "Window" := by
      cases hmodel
      rfl
    have hgfx : model.typeOf ((Locals.start none).declare "window"
        (model.typeFromNode (type "Window"))) (ident "gfx") = .moduleTy "gfx" := by
      cases hmodel
      rfl
    have hclass := hvalues _ hlocals (ident "window")
    have hmodule := hvalues _ hlocals (ident "gfx")
    rw [hwindow] at hclass
    rw [hgfx] at hmodule
    exact ⟨model, _, hmodel, hlocals, hwindow, hclass, hgfx, hmodule⟩

end Drawing

end NativeLowering
