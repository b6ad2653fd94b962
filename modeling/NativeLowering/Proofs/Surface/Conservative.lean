import NativeLowering.Proofs.Surface.Build
import NativeLowering.Proofs.Surface.Writing
import NativeLowering.Syntax.Build

/-!
# Extending the surface is conservative

A prelude can be added to a program that can be written, at any place among its preludes, and the
program is written as before (`generate_extended`). The prelude has to have a model of its own, it
has no imports, and neither the program nor the other preludes mention a name that it declares.

Two names count as mentioned that do not stand in the sources. One is that of the receiver parameter,
if receivers are made explicit and the bare instance is called: a call is typed by its name even if
that is bound to a variable, so a new function of that name is noticed. The other is the empty name,
if an annotation has no name at all, since such a type is read back as one with the empty name. Both
make a difference (`unmentioned_noticed`).
-/

set_option autoImplicit false

namespace NativeLowering

open Addition
open Stmt (AllList)

/-! ## Programs that spare an addition -/

namespace Addition

variable (added : Addition) (thisCalled : Prop)

def SparesParam (param : Param) : Prop :=
  added.SparesOption param.type ∧
    ∀ value, param.default = some value → added.SparesExpr thisCalled value

/-- The code of a function, if it has any, and its parameters are spared. -/
def SparesFunction (params : List Param) (body : Option (List Stmt)) : Prop :=
  (∀ param ∈ params, added.SparesParam thisCalled param) ∧
    ∀ stmts, body = some stmts → AllList (added.SparesExpr thisCalled) added.SparesBinding stmts

def SparesMemberCode : ClassMember → Prop
  | .property .. => True
  | .method _ decl => added.SparesFunction thisCalled decl.params decl.body
  | .constructor _ decl => added.SparesFunction thisCalled decl.params decl.body

/-- The code of a declaration is spared, and the components of a class's name are, since the type
of an instance can be written in the code. -/
def SparesCode : Decl → Prop
  | .classDecl _ decl =>
    (∀ name, decl.name = some name → added.SparesParts name) ∧
      ∀ member ∈ decl.members, added.SparesMemberCode thisCalled member
  | .functionDecl _ decl => added.SparesFunction thisCalled decl.params decl.body
  | .importDecl .. | .interfaceDecl .. | .typeAlias .. | .moduleDecl .. => True

/-- What a program tells a model is spared, and so is its code. -/
def SparesProgram (program : Program) : Prop :=
  ∀ decl ∈ program.decls, added.SparesDecl decl ∧ added.SparesCode thisCalled decl

/-- Of a prelude nothing is written, so only what it tells a model counts. -/
def SparesPrelude (prelude : Program) : Prop := ∀ decl ∈ prelude.decls, added.SparesDecl decl

end Addition

namespace Locals.Same

variable {added : Addition}

theorem start {thisClass : Option String}
    (h : ∀ owner, thisClass = some owner → added.Spares owner ∧ added.SparesParts owner) :
    Locals.Same added (.start thisClass) (.start thisClass) :=
  ⟨rfl, h, .cons .nil .nil⟩

end Locals.Same

/-! ## Functions -/

namespace Emit

variable {added : Addition} {model model' : Model} {thisCalled : Prop} {options : Options}

section Functions

theorem receiverParam_spares {owner : String}
    (howner : added.Spares owner ∧ added.SparesParts owner) (span : Span) :
    added.SparesParam thisCalled (receiverParam owner span) := by
  refine ⟨?_, ?_⟩
  · rintro node ⟨⟩
    refine ⟨.inl ⟨_, rfl, rfl⟩, ⟨.inr ⟨?_, ?_⟩, trivial⟩, trivial⟩
    · intro segment hsegment
      obtain rfl := List.mem_singleton.mp hsegment
      exact howner.1
    · exact howner.2
  · intro value hvalue
    cases hvalue

variable (h : added.Extended model model')
include h

theorem functionName_below (declared : String) (span : Span) :
    Below (functionName ⟨model, options⟩ declared span)
      (functionName ⟨model', options⟩ declared span) := by
  unfold functionName
  cases hknown : model.resolve? declared with
  | none => exact .fail _ _ _
  | some symbol =>
    rw [h.resolve? hknown]
    exact .refl _

theorem methodHead_keeps (names : ClassNames) {decl : MethodDecl}
    (hreturn : added.SparesOption decl.returnType) (span : Span) :
    Keeps Closed Any (methodHead ⟨model, options⟩ names decl span)
      (methodHead ⟨model', options⟩ names decl span) := by
  unfold methodHead
  split
  · split
    · exact Keeps.throw _
    · exact Keeps.pure trivial
  · split
    · exact Keeps.throw _
    · rename_i node hnode
      exact (typeString_keeps h (hreturn node hnode)).bind fun type _ => Keeps.pure trivial

theorem requireAllocation_below (owner : String) (span : Span) :
    Below (requireAllocation ⟨model, options⟩ owner span)
      (requireAllocation ⟨model', options⟩ owner span) := by
  unfold requireAllocation
  cases hallocate : model.builtin? .allocate with
  | none => exact .fail _ _ _
  | some allocate =>
    cases hsize : model.builtin? .sizeOf with
    | none => exact .fail _ _ _
    | some size =>
      dsimp only
      rw [h.builtin? hallocate, h.builtin? hsize]
      exact .refl _

theorem usingLines_same {specifier : String} (hspecifier : added.Spares specifier)
    (clause : Option ImportClause) :
    usingLines ⟨model', options⟩ specifier clause
      = usingLines ⟨model, options⟩ specifier clause := by
  unfold usingLines
  dsimp only
  rw [h.module specifier hspecifier]
  rfl

variable [model.Typed] [model'.Typed]

theorem defaultString_keeps {default : Option Expr}
    (hdefault : ∀ value, default = some value → added.SparesExpr thisCalled value) :
    Keeps (Quiet added) Any (defaultString ⟨model, options⟩ default)
      (defaultString ⟨model', options⟩ default) := by
  rintro session text after ⟨current, hopen, hsame⟩ hgives
  obtain ⟨htext, rfl⟩ := (gives_computed (run_defaultString hopen default)).mp hgives
  refine ⟨(gives_computed (run_defaultString hopen default)).mpr ⟨?_, rfl⟩, ⟨current, hopen, hsame⟩,
    trivial⟩
  cases default with
  | none => exact htext
  | some value => exact (h.exprText_below hsame value (hdefault value rfl)).map some text htext

theorem param_keeps {entered : Param} (hentered : added.SparesParam thisCalled entered) :
    Keeps (Quiet added) Any (param ⟨model, options⟩ entered) (param ⟨model', options⟩ entered) := by
  obtain ⟨htype, hdefault⟩ := hentered
  refine Keeps.bind (Keeps.lift (R := Any) fun name hname => ⟨hname, trivial⟩) fun name _ => ?_
  have hnode : Keeps (Quiet added) added.SparesType (liftM (paramType entered name))
      (liftM (paramType entered name)) := by
    refine Keeps.lift fun node hnode => ⟨hnode, htype node ?_⟩
    unfold paramType at hnode
    split at hnode
    · rename_i found hfound
      cases hnode
      exact hfound
    · cases hnode
  refine hnode.bind fun node hspares => ?_
  refine (typeString_keeps h hspares).bind fun type _ => ?_
  refine (defaultString_keeps h hdefault).bind fun default _ => ?_
  exact (declare_keeps h hspares name entered.span).seq (Keeps.onRecord _ _)

theorem params_keeps {entered : List Param}
    (hentered : ∀ param ∈ entered, added.SparesParam thisCalled param) :
    Keeps (Quiet added) Any (params ⟨model, options⟩ entered) (params ⟨model', options⟩ entered) := by
  induction entered with
  | nil => exact Keeps.pure trivial
  | cons first rest ih =>
    refine (param_keeps h (hentered first (by simp))).seq ?_
    exact ih fun other hmem => hentered other (by simp [hmem])

theorem functionBody_keeps {body : List Stmt}
    (hbody : AllList (added.SparesExpr thisCalled) added.SparesBinding body) (span : Span) :
    Keeps (Quiet added) Any (functionBody ⟨model, options⟩ body span)
      (functionBody ⟨model', options⟩ body span) := by
  refine (Keeps.theLocals span).bind fun locals hlocals => ?_
  refine Keeps.bind (Keeps.lift fun lowered hrun => h.passes_same hlocals hbody hrun)
    fun lowered hlowered => ?_
  refine ((stmts_keeps h hlowered).inScope _).bind fun written _ => ?_
  exact Keeps.onRecord _ _

theorem functionLike_keeps {shape : FunctionShape}
    (hthis : ∀ owner, shape.thisClass = some owner → added.Spares owner ∧ added.SparesParts owner)
    (hparams : ∀ param ∈ shape.params, added.SparesParam thisCalled param)
    (hbody : AllList (added.SparesExpr thisCalled) added.SparesBinding shape.body) (span : Span) :
    Keeps Closed Any (functionLike ⟨model, options⟩ shape span)
      (functionLike ⟨model', options⟩ shape span) := by
  have hwritten : Keeps (Quiet added) Any
      (do params ⟨model, options⟩ shape.params; functionBody ⟨model, options⟩ shape.body span)
      (do params ⟨model', options⟩ shape.params; functionBody ⟨model', options⟩ shape.body span) :=
    (params_keeps h hparams).seq (functionBody_keeps h hbody span)
  have hall := Keeps.function (.new options.layout shape.returnType shape.qualifier shape.name)
    (.start hthis) shape.visibility span hwritten
  simp only [bind_assoc] at hall
  exact hall

omit h in
theorem functionParts_eq_ok {decl : FunctionDecl} {span : Span} {name : String} {node : TypeNode}
    {body : List Stmt} (hparts : functionParts decl span = .ok (name, node, body)) :
    decl.returnType = some node ∧ decl.body = some body := by
  unfold functionParts at hparts
  split at hparts
  · cases hparts
  · split at hparts
    · cases hparts
    · split at hparts
      · cases hparts
      · cases hparts
      · rename_i found written hfound hwritten
        cases hparts
        exact ⟨hfound, hwritten⟩

theorem functionDecl_keeps {decl : FunctionDecl} (hreturn : added.SparesOption decl.returnType)
    (hcode : added.SparesFunction thisCalled decl.params decl.body) (span : Span) :
    Keeps Closed Any (functionDecl ⟨model, options⟩ decl span)
      (functionDecl ⟨model', options⟩ decl span) := by
  have hparts : Keeps Closed
      (fun parts : String × TypeNode × List Stmt => added.SparesType parts.2.1 ∧
        AllList (added.SparesExpr thisCalled) added.SparesBinding parts.2.2)
      (liftM (functionParts decl span)) (liftM (functionParts decl span)) := by
    refine Keeps.lift fun parts hparts => ⟨hparts, ?_⟩
    obtain ⟨name, node, body⟩ := parts
    obtain ⟨hnode, hbody⟩ := functionParts_eq_ok hparts
    exact ⟨hreturn node hnode, hcode.2 body hbody⟩
  refine hparts.bind fun parts hspares => ?_
  obtain ⟨declared, node, body⟩ := parts
  refine Keeps.bind (Keeps.lift (R := Any) fun name hname =>
    ⟨functionName_below h declared span name hname, trivial⟩) fun name _ => ?_
  refine (typeString_keeps h hspares.1).bind fun returnType _ => ?_
  exact functionLike_keeps h (by simp) hcode.1 hspares.2 span

/-! ## Classes -/

theorem classMember_keeps {names : ClassNames}
    (hnames : added.Spares names.declared ∧ added.SparesParts names.declared) {member : ClassMember}
    (hmember : added.SparesMember member) (hcode : added.SparesMemberCode thisCalled member) :
    Keeps Closed Any (classMember ⟨model, options⟩ names member)
      (classMember ⟨model', options⟩ names member) := by
  have hthis : ∀ owner, some names.declared = some owner →
      added.Spares owner ∧ added.SparesParts owner := by
    rintro owner ⟨⟩
    exact hnames
  cases member with
  | property span decl =>
    simp only [classMember, propertyDecl]
    split
    · exact Keeps.throw _
    · rename_i node hnode
      exact (typeString_keeps h (hmember node hnode)).bind fun type _ => Keeps.addField _ _
  | method span decl =>
    simp only [classMember, methodDecl]
    split
    · exact Keeps.throw _
    · rename_i body hbody
      refine (methodHead_keeps h names hmember span).bind fun head _ => ?_
      exact functionLike_keeps h hthis hcode.1 (hcode.2 body hbody) span
  | constructor span decl =>
    simp only [classMember, constructorDecl]
    refine Keeps.bind (Keeps.lift (R := Any) fun done hdone =>
      ⟨requireAllocation_below h names.declared span done hdone, trivial⟩) fun _ _ => ?_
    split
    · exact Keeps.throw _
    · rename_i body hbody
      exact functionLike_keeps h hthis hcode.1 (hcode.2 body hbody) span

theorem classMembers_keeps {names : ClassNames}
    (hnames : added.Spares names.declared ∧ added.SparesParts names.declared)
    {members : List ClassMember} (hmembers : ∀ member ∈ members, added.SparesMember member)
    (hcode : ∀ member ∈ members, added.SparesMemberCode thisCalled member) :
    Keeps Closed Any (classMembers ⟨model, options⟩ names members)
      (classMembers ⟨model', options⟩ names members) := by
  induction members with
  | nil => exact Keeps.pure trivial
  | cons member rest ih =>
    refine (classMember_keeps h hnames (hmembers member (by simp)) (hcode member (by simp))).seq ?_
    exact ih (fun other hmem => hmembers other (by simp [hmem]))
      fun other hmem => hcode other (by simp [hmem])

/-! ### Receiver functions -/

theorem receiverFunction_keeps (hself : thisCalled → Spelling.receiver ∉ added.functions)
    {names : ClassNames} (hnames : added.Spares names.declared ∧ added.SparesParts names.declared)
    {decl : MethodDecl} (hreturn : added.SparesOption decl.returnType)
    (hcode : added.SparesFunction thisCalled decl.params decl.body) (span : Span) :
    Keeps Closed Any (receiverFunction ⟨model, options⟩ names decl span)
      (receiverFunction ⟨model', options⟩ names decl span) := by
  unfold receiverFunction
  split
  · rename_i node body hnode hbody
    refine (typeString_keeps h (hreturn node hnode)).bind fun returnType _ => ?_
    have hstart : Locals.Same added (.start none) (.start none) := .start (by simp)
    refine Keeps.bind (Keeps.lift fun bound hbound =>
      h.bindReceiver_same hself hstart (hcode.2 body hbody) hbound) fun bound hspares => ?_
    refine functionLike_keeps h (by simp) ?_ hspares span
    intro param hmem
    rcases List.mem_cons.mp hmem with rfl | hmem
    · exact receiverParam_spares hnames span
    · exact hcode.1 param hmem
  · exact Keeps.throw _

theorem receiverFunctions_keeps (hself : thisCalled → Spelling.receiver ∉ added.functions)
    {names : ClassNames} (hnames : added.Spares names.declared ∧ added.SparesParts names.declared)
    {members : List ClassMember} (hmembers : ∀ member ∈ members, added.SparesMember member)
    (hcode : ∀ member ∈ members, added.SparesMemberCode thisCalled member) :
    Keeps Closed Any (receiverFunctions ⟨model, options⟩ names members)
      (receiverFunctions ⟨model', options⟩ names members) := by
  induction members with
  | nil => exact Keeps.pure trivial
  | cons member rest ih =>
    have hrest := ih (fun other hmem => hmembers other (by simp [hmem]))
      fun other hmem => hcode other (by simp [hmem])
    cases member with
    | method span decl =>
      have hreturn : added.SparesOption decl.returnType := hmembers (.method span decl) (by simp)
      have hmethod : added.SparesFunction thisCalled decl.params decl.body :=
        hcode (.method span decl) (by simp)
      by_cases hdestructor : decl.name = Spelling.destructor
      · simp only [receiverFunctions, hdestructor, if_true]
        exact hrest
      · simp only [receiverFunctions, hdestructor, if_false]
        exact (receiverFunction_keeps h hself hnames hreturn hmethod span).seq hrest
    | property | constructor => exact hrest

theorem classDecl_keeps
    (hself : options.passes.receiver = true → thisCalled → Spelling.receiver ∉ added.functions)
    {span : Span} {decl : ClassDecl} (hdecl : added.SparesDecl (.classDecl span decl))
    (hcode : added.SparesCode thisCalled (.classDecl span decl)) :
    Keeps Closed Any (classDecl ⟨model, options⟩ decl span)
      (classDecl ⟨model', options⟩ decl span) := by
  unfold classDecl
  cases hname : decl.name with
  | none => exact Keeps.throw _
  | some declared =>
    have hnames : added.Spares declared ∧ added.SparesParts declared :=
      ⟨hdecl.1 declared hname, hcode.1 declared hname⟩
    dsimp only
    cases hclass : model.class? declared with
    | none => exact Keeps.throw _
    | some found =>
      rw [h.class? hclass]
      refine (Keeps.beginClass _ _).seq ?_
      refine (classMembers_keeps h hnames hdecl.2 hcode.2).seq ((Keeps.endClass span).seq ?_)
      split
      · rename_i hreceiver
        exact receiverFunctions_keeps h (hself hreceiver) hnames hdecl.2 hcode.2
      · exact Keeps.pure trivial

/-! ## Programs -/

theorem decl_keeps
    (hself : options.passes.receiver = true → thisCalled → Spelling.receiver ∉ added.functions)
    {declaration : Decl} (hdecl : added.SparesDecl declaration)
    (hcode : added.SparesCode thisCalled declaration) :
    Keeps Closed Any (decl ⟨model, options⟩ declaration) (decl ⟨model', options⟩ declaration) := by
  cases declaration with
  | importDecl span own =>
    refine Keeps.bind (Keeps.lift fun specifier htext => ⟨htext, hdecl.1 specifier htext⟩)
      fun specifier hspecifier => ?_
    rw [usingLines_same h hspecifier]
    exact (Keeps.append _ _).seq (Keeps.appendLines _)
  | classDecl span own =>
    simp only [decl]
    split
    · exact Keeps.pure trivial
    · exact classDecl_keeps h hself hdecl hcode
  | functionDecl span own =>
    simp only [decl]
    split
    · exact Keeps.pure trivial
    · exact functionDecl_keeps h hdecl.2 hcode span
  | moduleDecl span decorators declared name body =>
    simp only [decl]
    split
    · exact Keeps.pure trivial
    · exact Keeps.throw _
  | interfaceDecl | typeAlias => exact Keeps.pure trivial

theorem decls_keeps
    (hself : options.passes.receiver = true → thisCalled → Spelling.receiver ∉ added.functions)
    {declarations : List Decl}
    (hspares : ∀ declaration ∈ declarations,
      added.SparesDecl declaration ∧ added.SparesCode thisCalled declaration) :
    Keeps Closed Any (decls ⟨model, options⟩ declarations)
      (decls ⟨model', options⟩ declarations) := by
  induction declarations with
  | nil => exact Keeps.pure trivial
  | cons first rest ih =>
    obtain ⟨hdecl, hcode⟩ := hspares first (by simp)
    refine (decl_keeps h hself hdecl hcode).seq ?_
    exact ih fun other hmem => hspares other (by simp [hmem])

end Functions

end Emit

/-- A program is written the same with the addition. -/
theorem generateWith_extended {added : Addition} {model model' : Model} [model.Typed]
    [model'.Typed] {thisCalled : Prop} {options : Options} (h : added.Extended model model')
    (hself : options.passes.receiver = true → thisCalled → Spelling.receiver ∉ added.functions)
    {program : Program} (hprogram : added.SparesProgram thisCalled program) :
    Below (generateWith options model program) (generateWith options model' program) := by
  intro text hrun
  unfold generateWith at hrun ⊢
  dsimp only at hrun ⊢
  split at hrun
  · cases hrun
  · rename_i session hwritten
    have hclosed : Emit.Closed (Session.start options.layout).openFunction := rfl
    obtain ⟨hwritten', -, -⟩ := Emit.decls_keeps h hself hprogram _ _ _ hclosed hwritten
    have hwritten' : (Emit.program ⟨model', options⟩ program).run (.start options.layout)
        = (.ok (), session) := hwritten'
    rw [hwritten']
    exact hrun

/-- What an added prelude has to leave alone: the names that the program and the other preludes
mention, and the receiver parameter where it may be called. -/
structure Addable (options : Options) (program : Program) (preludes : List Program)
    (extra : Program) : Prop where
  imports : ∀ span decl, Decl.importDecl span decl ∉ extra.decls
  builds : ∃ alone, Model.build extra [] = .ok alone
  program : (Addition.ofDecls extra.decls).SparesProgram
    (options.passes.receiver = true → Spelling.receiver ∉ (Addition.ofDecls extra.decls).functions)
    program
  preludes : ∀ prelude ∈ preludes, (Addition.ofDecls extra.decls).SparesPrelude prelude

/-- **Extending the surface is conservative.** -/
theorem generate_extended (options : Options) (program extra : Program)
    (before behind : List Program) (hextra : Addable options program (before ++ behind) extra)
    (text : String) (h : generate options program (before ++ behind) = .ok text) :
    generate options program (before ++ extra :: behind) = .ok text := by
  obtain ⟨himports, ⟨alone, halone⟩, hprogram, hpreludes⟩ := hextra
  obtain ⟨model, hmodel, hwritten⟩ := Lowered.bind_eq_ok.mp h
  have hspares : ∀ decl ∈ Model.sources program (before ++ behind),
      (Addition.ofDecls extra.decls).SparesDecl decl := by
    intro decl hmem
    obtain ⟨source, hsource, hdecl⟩ := List.mem_flatMap.mp hmem
    rcases List.mem_append.mp hsource with hsource | hsource
    · exact hpreludes source hsource decl hdecl
    · obtain rfl := List.mem_singleton.mp hsource
      exact (hprogram decl hdecl).1
  obtain ⟨model', hmodel', hextended⟩ := build_extended hmodel halone himports hspares
  refine Lowered.bind_eq_ok.mpr ⟨model', hmodel', ?_⟩
  exact generateWith_extended hextended (fun hreceiver hcalled => hcalled hreceiver) hprogram text
    hwritten

/-! ## A surface and what is added to it -/

/-- Passes on the address of a number that is made for it. -/
def passMade : Program :=
  Build.program [Build.function "main" [] Build.void
    [Build.exprStmt (Build.call (Build.ident "consume")
      [Build.call (Build.ident "addressof") [Build.call (Build.ident "make") []]])]]

/-- The functions that it calls, if what is made is of the given type. -/
def makers (made : TypeNode) : Program :=
  Build.program
    [Build.declaredFunction "addressof" [Build.param "value" (Build.keyword .number)]
      (Build.keyword .number),
     Build.declaredFunction "make" [] made,
     Build.declaredFunction "consume" [Build.param "place" (Build.keyword .number)] Build.void]

/-- One declaration of every kind. -/
def windows : Program :=
  Build.program
    [Build.declared (Build.classOf "Window" [Build.field "title" (Build.keyword .string)]),
     Build.declaredFunction "open" [] (Build.type "Window"),
     Build.interface "Drawable" [Build.signature "draw" [] Build.void],
     Build.typeAlias "Handle",
     Build.moduleOf "gfx" [Build.typeAlias "Color"]]

theorem generate_extended_windows :
    generate {} passMade [windows, makers (Build.keyword .number)] = .ok
      ("void tscc_main()\n\x7b\n    double _tscc_temp_1;\n" ++
        "    tscc_consume((_tscc_temp_1 = tscc_make(), &_tscc_temp_1));\n\x7d\n") := by
  refine generate_extended {} passMade windows [] [makers (Build.keyword .number)] ?_ _ ?_
  · refine ⟨?_, ⟨_, rfl⟩, ?_, ?_⟩
    · simp [windows, Build.program, Build.declared, Build.classOf, Build.declaredFunction,
        Build.interface, Build.typeAlias, Build.moduleOf]
    · simp [passMade, Build.program, Build.function, Build.void, Build.keyword, Build.exprStmt,
        Build.call, Build.ident, Decl.name?, Stmt.AllList, Stmt.All, SparesProgram, SparesDecl,
        SparesSignature, SparesCode, SparesFunction, SparesOption, SparesType, SparesTypes,
        SparesExpr, SparesExprs, SparesCallee]
      decide
    · simp [makers, Build.program, Build.declaredFunction, Build.void, Build.keyword, Decl.name?,
        SparesPrelude, SparesDecl, SparesSignature, SparesOption, SparesType]
      decide
  · refine Lowered.toOption_eq_some.mp ?_
    decide +kernel

/-- A window that calls the bare instance and hands the result to a method as its receiver. -/
def selfCaller : Program :=
  Build.program [Build.classOf "Window" [Build.method "redraw" [] Build.void
    [Build.exprStmt (.receiverCall {} "Window" "redraw" [Build.call Build.thisRef []])]]]

/-- A function with the name of the receiver parameter. -/
def selfFunction : Program :=
  Build.program [Build.declaredFunction "self" [] (Build.type "Window")]

/-- A class with the empty name. -/
def unnamed : Program := Build.program [Build.declared (Build.classOf "" [])]

/-- Names that stand nowhere in the sources are noticed all the same. A call of the receiver
parameter gets the type that a new function of its name returns, and is then taken for a handle. And
the type of a temporary, read back from an annotation without a name, is found to be a class with the
empty name. -/
theorem unmentioned_noticed :
    ((Addition.ofDecls selfFunction.decls).SparesProgram True selfCaller ∧
      (generate { passes := .all } selfCaller []).toOption = some
        ("void tscc_Window_redraw(tscc_Window* self)\n\x7b\n" ++
          "    tscc_Window_redraw(self());\n\x7d\n\n" ++
          "class tscc_Window\n\x7b\npublic:\n    void redraw();\n\x7d;\n\n" ++
          "void tscc_Window::redraw()\n\x7b\n    tscc_Window_redraw(this());\n\x7d\n") ∧
      (generate { passes := .all } selfCaller [selfFunction]).toOption = some
        ("void tscc_Window_redraw(tscc_Window* self)\n\x7b\n" ++
          "    tscc_Window_redraw(self().get());\n\x7d\n\n" ++
          "class tscc_Window\n\x7b\npublic:\n    void redraw();\n\x7d;\n\n" ++
          "void tscc_Window::redraw()\n\x7b\n    tscc_Window_redraw(this());\n\x7d\n")) ∧
    ((generate {} passMade [makers (.reference {} [] [])]).toOption = some
        ("void tscc_main()\n\x7b\n    _tscc_temp_1;\n" ++
          "    tscc_consume((_tscc_temp_1 = tscc_make(), &_tscc_temp_1));\n\x7d\n") ∧
      (generate {} passMade [makers (.reference {} [] []), unnamed]).toOption = some
        ("void tscc_main()\n\x7b\n    std::shared_ptr<tscc_> _tscc_temp_1;\n" ++
          "    tscc_consume((_tscc_temp_1 = tscc_make(), &_tscc_temp_1));\n\x7d\n")) := by
  refine ⟨⟨?_, ?_, ?_⟩, ?_, ?_⟩
  · simp [selfCaller, Build.program, Build.classOf, Build.method, Build.methodWith, Build.void,
      Build.keyword, Build.exprStmt, Build.call, Build.thisRef, Decl.name?, Stmt.AllList, Stmt.All,
      SparesProgram, SparesDecl, SparesSignature, SparesMember, SparesCode, SparesMemberCode,
      SparesFunction, SparesOption, SparesType, SparesTypes, SparesExpr, SparesExprs, SparesCallee]
    decide
  · decide +kernel
  · decide +kernel
  · decide +kernel
  · decide +kernel

end NativeLowering
