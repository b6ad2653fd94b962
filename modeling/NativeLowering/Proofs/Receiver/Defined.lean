import NativeLowering.Proofs.Emit.Shapes
import NativeLowering.Proofs.Model.Build
import NativeLowering.Proofs.Receiver.Passes

/-!
# Which receiver calls have a definition

Receiver calls are made from the model, which knows every class, and their definitions are written
for the program's own classes only. So a call on an instance of an own class always has its
definition, and a call on any other has one exactly if the program happens to write a function of
that name and parameter (`receiverCall_defined_iff`).
-/

set_option autoImplicit false

namespace NativeLowering

open Stmt (AllList mapList)

/-! ## The receiver calls of a body -/

namespace Expr

mutual

/-- Every receiver call in the expression is to a class and a method that meet the condition. -/
def CallsAll (K : String → String → Prop) : Expr → Prop
  | .ident .. | .thisRef _ | .literal .. => True
  | .property _ object _ => object.CallsAll K
  | .call _ callee _ args => callee.CallsAll K ∧ CallsAllOf K args
  | .new _ _ args => CallsAllOf K args
  | .binary _ _ left right => left.CallsAll K ∧ right.CallsAll K
  | .unary _ _ operand => operand.CallsAll K
  | .paren _ inner => inner.CallsAll K
  | .comma _ items => CallsAllOf K items
  | .receiverCall _ owner method args => K owner method ∧ CallsAllOf K args

def CallsAllOf (K : String → String → Prop) : List Expr → Prop
  | [] => True
  | item :: rest => item.CallsAll K ∧ CallsAllOf K rest

end

mutual

theorem CallsAll.imp {K K' : String → String → Prop}
    (h : ∀ owner method, K owner method → K' owner method) : ∀ value : Expr, value.CallsAll K →
    value.CallsAll K'
  | .ident .., _ | .thisRef _, _ | .literal .., _ => trivial
  | .property _ object _, hv => CallsAll.imp h object hv
  | .call _ callee _ args, hv => ⟨CallsAll.imp h callee hv.1, CallsAllOf.imp h args hv.2⟩
  | .new _ _ args, hv => CallsAllOf.imp h args hv
  | .binary _ _ left right, hv => ⟨CallsAll.imp h left hv.1, CallsAll.imp h right hv.2⟩
  | .unary _ _ operand, hv => CallsAll.imp h operand hv
  | .paren _ inner, hv => CallsAll.imp h inner hv
  | .comma _ items, hv => CallsAllOf.imp h items hv
  | .receiverCall _ _ _ args, hv => ⟨h _ _ hv.1, CallsAllOf.imp h args hv.2⟩

theorem CallsAllOf.imp {K K' : String → String → Prop}
    (h : ∀ owner method, K owner method → K' owner method) : ∀ items : List Expr,
    CallsAllOf K items → CallsAllOf K' items
  | [], _ => trivial
  | item :: rest, hv => ⟨CallsAll.imp h item hv.1, CallsAllOf.imp h rest hv.2⟩

end

/-- Without receiver calls. -/
abbrev Plain : Expr → Prop := CallsAll fun _ _ => False

end Expr

namespace Receiver

open NativeLowering.Expr (CallsAll CallsAllOf)
open Walk (Alike)

variable {model : Model} {locals : Locals} {K K' : String → String → Prop}

mutual

theorem callsAll_bound : ∀ value : Expr, value.CallsAll K → (bound value).CallsAll K
  | .ident .., _ | .thisRef _, _ | .literal .., _ => trivial
  | .property _ object _, h => callsAll_bound object h
  | .call _ callee _ args, h => ⟨callsAll_bound callee h.1, callsAllOf_bound args h.2⟩
  | .new _ _ args, h => callsAllOf_bound args h
  | .binary _ _ left right, h => ⟨callsAll_bound left h.1, callsAll_bound right h.2⟩
  | .unary _ _ operand, h => callsAll_bound operand h
  | .paren _ inner, h => callsAll_bound inner h
  | .comma _ items, h => callsAllOf_bound items h
  | .receiverCall _ _ _ args, h => ⟨h.1, callsAllOf_bound args h.2⟩

theorem callsAllOf_bound : ∀ items : List Expr, CallsAllOf K items → CallsAllOf K (boundAll items)
  | [], _ => trivial
  | item :: rest, h => ⟨callsAll_bound item h.1, callsAllOf_bound rest h.2⟩

end

/-! ## Visits and receiver calls -/

/-- A visit that keeps the condition on receiver calls, in what it returns and in what it asks
for. -/
def KeepsCalls (K : String → String → Prop) (visit : Expr → Walk.ExprM Expr) : Prop :=
  ∀ value, value.CallsAll K → Alike id (CallsAll K) (fun _ _ => True)
    (fun result result' => result' = result ∧ result.CallsAll K) (visit value) (visit value)

mutual

/-- If a visit keeps the condition so does the walk, and it may start from a stronger one. -/
theorem expr_calls {visit : Expr → Walk.ExprM Expr} (hK : ∀ owner method, K owner method →
    K' owner method) (hvisit : KeepsCalls K' visit) : ∀ value : Expr, value.CallsAll K →
    Alike id (CallsAll K') (fun _ _ => True) (fun result result' => result' = result ∧
      result.CallsAll K') (Walk.expr visit value) (Walk.expr visit value)
  | .ident .., _ => hvisit _ trivial
  | .thisRef _, _ => hvisit _ trivial
  | .literal .., _ => hvisit _ trivial
  | .property _ object _, h => by
    refine (expr_calls hK hvisit object h).bind ?_
    rintro object _ ⟨rfl, hobject⟩
    exact hvisit _ hobject
  | .call _ callee _ args, h => by
    refine (expr_calls hK hvisit callee h.1).bind ?_
    rintro callee _ ⟨rfl, hcallee⟩
    refine (exprs_calls hK hvisit args h.2).bind ?_
    rintro args _ ⟨rfl, hargs⟩
    exact hvisit _ ⟨hcallee, hargs⟩
  | .new _ _ args, h => by
    refine (exprs_calls hK hvisit args h).bind ?_
    rintro args _ ⟨rfl, hargs⟩
    exact hvisit _ hargs
  | .binary _ _ left right, h => by
    refine (expr_calls hK hvisit left h.1).bind ?_
    rintro left _ ⟨rfl, hleft⟩
    refine (expr_calls hK hvisit right h.2).bind ?_
    rintro right _ ⟨rfl, hright⟩
    exact hvisit _ ⟨hleft, hright⟩
  | .unary _ _ operand, h => by
    refine (expr_calls hK hvisit operand h).bind ?_
    rintro operand _ ⟨rfl, hoperand⟩
    exact hvisit _ hoperand
  | .paren _ inner, h => by
    refine (expr_calls hK hvisit inner h).bind ?_
    rintro inner _ ⟨rfl, hinner⟩
    exact hvisit _ hinner
  | .comma _ items, h => by
    refine (exprs_calls hK hvisit items h).bind ?_
    rintro items _ ⟨rfl, hitems⟩
    exact hvisit _ hitems
  | .receiverCall _ _ _ args, h => by
    refine (exprs_calls hK hvisit args h.2).bind ?_
    rintro args _ ⟨rfl, hargs⟩
    exact hvisit _ ⟨hK _ _ h.1, hargs⟩

theorem exprs_calls {visit : Expr → Walk.ExprM Expr} (hK : ∀ owner method, K owner method →
    K' owner method) (hvisit : KeepsCalls K' visit) : ∀ items : List Expr, CallsAllOf K items →
    Alike id (CallsAll K') (fun _ _ => True) (fun results results' => results' = results ∧
      CallsAllOf K' results) (Walk.exprs visit items) (Walk.exprs visit items)
  | [], _ => Alike.pure ⟨rfl, trivial⟩
  | item :: rest, h => by
    refine (expr_calls hK hvisit item h.1).bind ?_
    rintro item _ ⟨rfl, hitem⟩
    refine (exprs_calls hK hvisit rest h.2).bind ?_
    rintro rest _ ⟨rfl, hrest⟩
    exact Alike.pure ⟨rfl, hitem, hrest⟩

end

/-- What a receiver call is made for: a method that its class declares, and not the destructor. -/
def Targets (model : Model) (owner method : String) : Prop :=
  model.declaresMethod owner method = true ∧ method ≠ Spelling.destructor

theorem owningClass_declares {method owner : String} {span : Span} : ∀ {type : Ty},
    owningClass model method span type = .ok (some owner) → model.declaresMethod owner method = true
  | .classTy name, h => by
    rw [owningClass] at h
    split at h
    · rename_i found hfound
      cases h
      simp [Names.declaresMethod, hfound]
    · cases h
  | .pointer inner, h => by
    rw [owningClass] at h
    exact owningClass_declares h
  | .interfaceTy name, h => by
    rw [owningClass] at h
    split at h
    · split at h
      · cases h
      · cases h
    · cases h
  | .named _, h | .primitive _, h | .moduleTy _, h | .function, h | .unknown, h => by cases h

theorem argument_calls {owner : String} {object result : Expr} {type : Ty}
    (hobject : object.CallsAll K) (h : argument model owner object type = .ok result) :
    result.CallsAll K := by
  rcases argument_cases h with rfl | ⟨name, rfl⟩
  · exact hobject
  · exact ⟨trivial, hobject, trivial⟩

/-- Every receiver call that is made has its target. -/
theorem inject_keeps : KeepsCalls (Targets model) (injecting model locals) := by
  intro value h
  refine Alike.lift fun result hrun => ⟨result, hrun, rfl, ?_⟩
  unfold injectCall at hrun
  split at hrun
  · rename_i span place object name typeArgs args
    obtain ⟨hcallee, hargs⟩ := h
    have hobject : object.CallsAll (Targets model) := hcallee
    split at hrun
    · cases hrun
      exact ⟨hobject, hargs⟩
    · rename_i hname
      obtain ⟨target, htarget, hrest⟩ := Lowered.bind_eq_ok.mp hrun
      cases target with
      | none =>
        cases hrest
        exact ⟨hobject, hargs⟩
      | some owner =>
        obtain ⟨receiver, hreceiver, hresult⟩ := Lowered.bind_eq_ok.mp hrest
        cases hresult
        exact ⟨⟨owningClass_declares htarget, hname⟩, argument_calls hobject hreceiver, hargs⟩
  · cases hrun
    exact h

theorem materialize_keeps : KeepsCalls K (Address.materializeCall model locals) := by
  intro value h
  unfold Address.materializeCall
  split
  · rename_i span callee typeArgs operand
    obtain ⟨hcallee, hoperand, -⟩ := h
    split
    · split
      · intro pending after result hrun
        cases hrun
      · intro pending after result hrun
        simp only [Lowered.run_bind, Lowered.run_get, Lowered.run_set, Lowered.run_pure] at hrun
        obtain ⟨_, _, ⟨rfl, rfl⟩, _, _, rfl, rfl, rfl⟩ := hrun
        refine ⟨_, [Address.declaration operand.span (Spelling.temporary _) _], ⟨rfl, ?_⟩, ?_, rfl,
          fun earlier => rfl⟩
        · exact ⟨⟨trivial, hoperand⟩, ⟨hcallee, trivial, trivial⟩, trivial⟩
        · refine ⟨?_, trivial⟩
          intro decl hdecl
          obtain rfl := List.mem_singleton.mp hdecl
          exact ⟨trivial, nofun⟩
    · exact Alike.pure ⟨rfl, hcallee, hoperand, trivial⟩
  · exact Alike.pure ⟨rfl, h⟩

theorem visitTransport_calls {visit : Walk.Visit} (hK : ∀ owner method, K owner method →
    K' owner method) (hvisit : ∀ locals, KeepsCalls K' (visit locals)) :
    Walk.VisitTransport id Eq (CallsAll K) (CallsAll K') (fun _ _ => True) (fun _ => True)
      (fun _ => True) visit visit := by
  refine .of_alike fun locals locals' value hlocals h => ?_
  cases hlocals
  refine (expr_calls hK (hvisit locals) value h).imp fun result result' hresult => ?_
  exact ⟨hresult.1, hresult.2, fun _ => trivial⟩

/-- A body without receiver calls has only calls with a target after the passes. -/
theorem passes_calls {passes : PassSet} (policy : DestructorPolicy)
    (hreceiver : passes.receiver = true) {body lowered : List Stmt}
    (hbody : AllList Expr.Plain (fun _ _ => True) body)
    (h : passes.run model policy locals body = .ok lowered) :
    AllList (CallsAll (Targets model)) (fun _ _ => True) lowered := by
  refine (passes_transport (E := fun _ _ => True) policy (by simp [hreceiver]) (.refl model _ _)
    (.refl model _ _) ?_
    (visitTransport_calls (fun _ _ hK => hK.elim) fun _ => inject_keeps)
    (visitTransport_calls (fun _ _ hK => hK) fun _ => materialize_keeps) rfl hbody h).1
  intro span name type _
  exact ⟨⟨trivial, trivial⟩, Stmt.mapExprs_id _⟩

/-- Putting the receiver parameter in place makes no receiver calls. -/
theorem bindReceiver_plain {body result : List Stmt}
    (hbody : AllList Expr.Plain (fun _ _ => True) body)
    (h : bindReceiver model locals body = .ok result) :
    AllList Expr.Plain (fun _ _ => True) result := by
  refine (Walk.walk_transport (E := fun _ _ => True) (.refl model _ _) (.unary fun locals value bound
    next last before hv hrun => ?_) rfl hbody h).1
  rw [expr_binding locals, Lowered.run_pure] at hrun
  obtain ⟨rfl, hpending⟩ := hrun
  cases hpending
  exact ⟨callsAll_bound value hv, trivial⟩

end Receiver

/-! ## The bodies of a program -/

def ClassMember.body? : ClassMember → Option (List Stmt)
  | .property .. => none
  | .method _ decl => decl.body
  | .constructor _ decl => decl.body

def Decl.bodies : Decl → List (List Stmt)
  | .classDecl _ decl => decl.members.filterMap ClassMember.body?
  | .functionDecl _ decl => decl.body.toList
  | _ => []

/-- A program whose bodies have no receiver calls. -/
def Program.Plain (program : Program) : Prop :=
  ∀ decl ∈ program.decls, ∀ body ∈ decl.bodies, AllList Expr.Plain (fun _ _ => True) body

/-- A class of the program that is not only declared. -/
def Program.Owns (program : Program) (owner : String) : Prop :=
  ∃ span decl, .classDecl span decl ∈ program.decls ∧ decl.declared = false ∧
    decl.name = some owner

namespace Emit

variable {cx : Context}

theorem memberShape_body {names : ClassNames} {member : ClassMember} {shape : FunctionShape}
    (h : memberShape? cx names member = some (.ok shape)) : member.body? = some shape.body := by
  cases member with
  | property => cases h
  | method span decl =>
    exact (methodShape_parts (Option.some.inj h)).1
  | constructor span decl =>
    have hshape : constructorShape cx names decl span = .ok shape := Option.some.inj h
    obtain ⟨_, -, hshape⟩ := Lowered.bind_eq_ok.mp hshape
    split at hshape
    · cases hshape
    · rename_i body hbody
      cases hshape
      exact hbody

/-- What is written of a program without receiver calls starts without any. -/
theorem shape_plain {program : Program} (hplain : program.Plain) {decl : Decl}
    (hdecl : decl ∈ program.decls) {shape : FunctionShape}
    (hshape : FreeShape cx shape decl ∨ MemberShape cx shape decl) :
    AllList Expr.Plain (fun _ _ => True) shape.body := by
  have hbodies := hplain decl hdecl
  have hmember {own : ClassDecl} {member : ClassMember} {body : List Stmt}
      (hin : member ∈ own.members) (hbody : member.body? = some body) (span : Span) :
      body ∈ (Decl.classDecl span own).bodies := List.mem_filterMap.mpr ⟨member, hin, hbody⟩
  cases decl with
  | classDecl span own =>
    rcases hshape with ⟨-, -, names, place, method, -, hin, -, hshape⟩ |
      ⟨-, names, member, -, hin, hshape⟩
    · obtain ⟨body, hbody, hbound, -⟩ := receiverShape_parts hshape
      exact Receiver.bindReceiver_plain (hbodies body (hmember hin hbody span)) hbound
    · exact hbodies _ (hmember hin (memberShape_body hshape) span)
  | functionDecl span own =>
    rcases hshape with ⟨-, hshape⟩ | hshape
    · obtain ⟨_, -, -, -, hbody⟩ := functionShape_parts hshape
      exact hbodies _ (by simp [Decl.bodies, hbody])
    · exact hshape.elim
  | importDecl | interfaceDecl | typeAlias | moduleDecl =>
    rcases hshape with hshape | hshape <;> exact hshape.elim

/-! ## Definitions -/

/-- A file defines a free function of a name that takes the receiver first, with a given type. -/
def Output.Defines (output : Output) (name type : String) : Prop :=
  ∃ function ∈ output.functions, function.name = name ∧ ∃ param,
    function.params.head? = some param ∧ param.type = type ∧ param.name = Spelling.receiver

/-- What a program has to contain for such a definition: a method of one of its own classes, or a
function written that way by hand. -/
def Provided (cx : Context) (program : Program) (name type : String) : Prop :=
  (∃ span decl names place method, .classDecl span decl ∈ program.decls ∧ decl.declared = false ∧
    ClassNamed cx decl names ∧ .method place method ∈ decl.members ∧
    method.name ≠ Spelling.destructor ∧
    Naming.receiverFunction names.written method.name = name ∧
    cx.piece (names.written ++ "*") = type) ∨
  ∃ span decl declared param rest node, .functionDecl span decl ∈ program.decls ∧
    decl.declared = false ∧ decl.name = some declared ∧ functionName cx declared span = .ok name ∧
    decl.params = param :: rest ∧ param.name = .ident Spelling.receiver ∧ param.type = some node ∧
    cx.typePiece node = .ok type

theorem paramRecords_head {locals after : Locals} {params : List Param} {first : ParamRecord}
    {records : List ParamRecord} (h : paramRecords cx locals params = .ok (records, after))
    (hfirst : records.head? = some first) :
    ∃ param rest node, params = param :: rest ∧ param.name = .ident first.name ∧
      param.type = some node ∧ cx.typePiece node = .ok first.type := by
  cases params with
  | nil =>
    cases h
    cases hfirst
  | cons param rest =>
    simp only [paramRecords, paramRecord, Lowered.bind_eq_ok, Lowered.pure_eq_ok, Prod.exists,
      Prod.mk.injEq] at h
    obtain ⟨record, _, ⟨name, hname, node, hnode, type, htype, _, -, rfl, -⟩, _, _, -, rfl, -⟩ := h
    cases hfirst
    exact ⟨param, rest, node, rfl, paramName_eq_ok hname, paramType_eq_ok hnode, htype⟩

theorem paramRecords_nonempty {locals after : Locals} {param : Param} {rest : List Param}
    {records : List ParamRecord}
    (h : paramRecords cx locals (param :: rest) = .ok (records, after)) :
    ∃ first, records.head? = some first := by
  rw [paramRecords, Lowered.bind_eq_ok] at h
  obtain ⟨⟨first, between⟩, -, h⟩ := h
  obtain ⟨⟨others, _⟩, -, h⟩ := Lowered.bind_eq_ok.mp h
  cases h
  exact ⟨first, rfl⟩

theorem defines_iff_provided {program : Program} {output : Output}
    (hreceiver : cx.options.passes.receiver = true) (houtput : programOutput cx program = .ok output)
    (name type : String) : output.Defines name type ↔ Provided cx program name type := by
  constructor
  · rintro ⟨function, hin, rfl, param, hhead, rfl, hself⟩
    obtain ⟨decl, hdecl, shape, hshape, hrecord⟩ := functions_sound houtput hin
    cases decl with
    | classDecl span own =>
      obtain ⟨hown, -, names, place, method, hnames, hmethod, hne, hshape⟩ := hshape
      obtain ⟨hname, hparam⟩ := receiverRecord_head hnames hshape hrecord
      rw [hparam] at hhead
      cases hhead
      exact .inl ⟨span, own, names, place, method, hdecl, hown, hnames, hmethod, hne, hname.symm,
        rfl⟩
    | functionDecl span own =>
      obtain ⟨hown, hshape⟩ := hshape
      obtain ⟨declared, hdeclared, hname, hparams, -⟩ := functionShape_parts hshape
      obtain ⟨params, locals, lowered, draft, hrecords, -, -, rfl⟩ :=
        functionRecordWith_eq_ok.mp hrecord
      obtain ⟨first, rest, node, hfirst, hident, hnode, htype⟩ := paramRecords_head hrecords hhead
      rw [hself] at hident
      exact .inr ⟨span, own, declared, first, rest, node, hdecl, hown, hdeclared, hname,
        hparams.symm.trans hfirst, hident, hnode, htype⟩
    | importDecl | interfaceDecl | typeAlias | moduleDecl => exact hshape.elim
  · rintro (⟨span, decl, names, place, method, hdecl, hown, hnames, hmethod, hne, rfl, rfl⟩ |
      ⟨span, decl, declared, param, rest, node, hdecl, hown, hdeclared, hname, hparams, hident, hnode,
        htype⟩)
    · obtain ⟨names', hnames', -, hfree⟩ := method_written houtput hdecl hown hmethod
      obtain rfl := hnames.unique hnames'
      obtain ⟨shape, record, hshape, hrecord, hin⟩ := hfree hreceiver hne
      obtain ⟨hname, hparam⟩ := receiverRecord_head hnames hshape hrecord
      exact ⟨record, hin, hname, _, hparam, rfl, rfl⟩
    · obtain ⟨shape, record, hshape, hrecord, hin⟩ := function_written houtput hdecl hown
      obtain ⟨declared', hdeclared', hname', hparams', -⟩ := functionShape_parts hshape
      rw [hdeclared] at hdeclared'
      cases hdeclared'
      rw [hname] at hname'
      cases hname'
      obtain ⟨params, locals, lowered, draft, hrecords, -, -, rfl⟩ :=
        functionRecordWith_eq_ok.mp hrecord
      rw [hparams', hparams] at hrecords
      obtain ⟨first, hhead⟩ := paramRecords_nonempty hrecords
      obtain ⟨_, _, node', hfirst, hident', hnode', htype'⟩ := paramRecords_head hrecords hhead
      cases hfirst
      rw [hident] at hident'
      rw [hnode] at hnode'
      cases hnode'
      rw [htype] at htype'
      cases htype'
      exact ⟨_, hin, rfl, first, hhead, rfl, (BindingName.ident.inj hident').symm⟩

end Emit

/-! ## Own classes -/

theorem classItem_parts {decl : ClassDecl} {span : Span} {item : Item} {owner : String}
    (hname : decl.name = some owner) (h : classItem decl span = .ok item) :
    item.name = owner ∧ ∃ info, item.info = .classInfo info ∧
      info.methods = methodsOf decl.members := by
  simp only [classItem, hname, Lowered.bind_eq_ok, Lowered.pure_eq_ok] at h
  obtain ⟨traits, -, rfl⟩ := h
  exact ⟨rfl, _, rfl, rfl⟩

theorem mem_of_findMethod? (members : List ClassMember) {name : String}
    (h : (findMethod? (methodsOf members) name).isSome = true) :
    ∃ place method, .method place method ∈ members ∧ method.name = name := by
  obtain ⟨found, hfound⟩ := Option.isSome_iff_exists.mp h
  have hname : found.name = name := by simpa using List.find?_some hfound
  obtain ⟨member, hmember, hinfo⟩ := List.mem_filterMap.mp (List.mem_of_find?_eq_some hfound)
  cases member with
  | method place method =>
    cases hinfo
    exact ⟨place, method, hmember, hname⟩
  | property | constructor => cases hinfo

theorem Item.writtenName_class {item : Item} {info : ClassInfo} (h : item.class? = some info)
    (mangling : String) : item.writtenName mangling = info.traits.writtenName mangling item.name := by
  unfold Item.class? at h
  split at h
  · rename_i found hfound
    cases h
    simp only [Item.writtenName, hfound]
  · cases h

namespace Receiver

open Emit

/-- The name of the function that a call on a class's instance goes to. -/
def calleeName (cx : Context) (item : Item) (method : String) : String :=
  Naming.receiverFunction (item.writtenName cx.mangling) method

/-- The type of its first parameter. -/
def calleeType (cx : Context) (item : Item) : String :=
  cx.piece (item.writtenName cx.mangling ++ "*")

/-- The methods of a program's own classes are provided. -/
theorem own_provided {options : Options} {program : Program} {preludes : List Program}
    {model : TypedModel} (hmodel : Model.build program preludes = .ok model) {owner method : String}
    (howns : program.Owns owner) (htarget : Targets model owner method) {item : Item}
    {info : ClassInfo} (hclass : model.class? owner = some (item, info)) :
    Provided ⟨model, options⟩ program (calleeName ⟨model, options⟩ item method)
      (calleeType ⟨model, options⟩ item) := by
  obtain ⟨span, decl, hdecl, hown, hname⟩ := howns
  obtain ⟨built, hbuilt, hresolve⟩ := Model.build_class hmodel hdecl
  obtain ⟨rfl, found, hfound, hmethods⟩ := classItem_parts hname hbuilt
  obtain ⟨hitem, hinfo⟩ := Names.class?_eq_some.mp hclass
  rw [hresolve] at hitem
  cases hitem
  have hsame : info = found := by
    simp only [Item.class?, hfound, Option.some.injEq] at hinfo
    exact hinfo.symm
  subst hsame
  obtain ⟨hdeclares, hne⟩ := htarget
  obtain ⟨place, declaration, hin, rfl⟩ := mem_of_findMethod? decl.members (by
    simpa [Names.declaresMethod, Names.classInfo?, hclass, ClassInfo.method?, hmethods]
      using hdeclares)
  have hwritten := Item.writtenName_class hinfo (Context.mangling ⟨model, options⟩)
  refine .inl ⟨span, decl, classNames ⟨model, options⟩ item.name item info, place, declaration,
    hdecl, hown, ⟨item.name, item, info, hname, hclass, rfl⟩, hin, hne, ?_, ?_⟩
  · rw [calleeName, hwritten, classNames]
  · rw [calleeType, hwritten, classNames]

/-- What is known of a receiver call of a file: its class declares the method, which is no
destructor. The file has the definition exactly if the program provides it, and the program does
for its own classes. -/
def Defined (cx : Context) (program : Program) (output : Output) (owner method : String) : Prop :=
  Targets cx.model owner method ∧ ∃ item info, cx.model.class? owner = some (item, info) ∧
    (output.Defines (calleeName cx item method) (calleeType cx item) ↔
      Provided cx program (calleeName cx item method) (calleeType cx item)) ∧
    (program.Owns owner → output.Defines (calleeName cx item method) (calleeType cx item))

theorem Targets.class? {model : Model} {owner method : String} (h : Targets model owner method) :
    ∃ item info, model.class? owner = some (item, info) := by
  obtain ⟨hdeclares, -⟩ := h
  cases hclass : model.class? owner with
  | none => simp [Names.declaresMethod, Names.classInfo?, hclass] at hdeclares
  | some found => exact ⟨found.1, found.2, rfl⟩

/-- The records of a file: its free functions and the members of its classes. -/
def Writes (output : Output) (record : FunctionRecord) : Prop :=
  record ∈ output.functions ∨
    ∃ owner ∈ output.classes, ∃ written ∈ owner.methods, written.function = record

/-- **A receiver call has its definition exactly if the program provides it**, and it does for its
own classes. Take a program without receiver calls, with receivers made explicit. If it is written,
then every record of the file has a body all of whose receiver calls are so. -/
theorem receiverCall_defined_iff {options : Options} {program : Program} {preludes : List Program}
    {model : TypedModel} {text : String} (hmodel : Model.build program preludes = .ok model)
    (hreceiver : options.passes.receiver = true)
    (htext : generate options program preludes = .ok text) (hplain : program.Plain) :
    ∃ output, programOutput ⟨model, options⟩ program = .ok output ∧
      text = (output.session options.layout).text options.outputOrder ∧
      ∀ record, Writes output record → ∃ decl ∈ program.decls, ∃ shape params locals lowered draft,
        (FreeShape ⟨model, options⟩ shape decl ∨ MemberShape ⟨model, options⟩ shape decl) ∧
        paramRecords ⟨model, options⟩ (.start shape.thisClass) shape.params
          = .ok (params, locals) ∧
        loweredBody ⟨model, options⟩ locals shape.body = .ok lowered ∧
        Draft.stmts ⟨model, options⟩ (exprText ⟨model, options⟩) 1 locals lowered = .ok draft ∧
        record = recordOf ⟨model, options⟩ shape params draft ∧
        AllList (Expr.CallsAll (Defined ⟨model, options⟩ program output)) (fun _ _ => True)
          lowered := by
  obtain ⟨built, hbuilt, hwritten⟩ := Lowered.bind_eq_ok.mp htext
  rw [hmodel] at hbuilt
  cases hbuilt
  obtain ⟨output, houtput, rfl⟩ := generateWith_eq hwritten
  refine ⟨output, houtput, rfl, fun record hrecord => ?_⟩
  obtain ⟨decl, hdecl, shape, hshape, hfunction⟩ : ∃ decl ∈ program.decls, ∃ shape,
      (FreeShape ⟨model, options⟩ shape decl ∨ MemberShape ⟨model, options⟩ shape decl) ∧
      functionRecord ⟨model, options⟩ shape = .ok record := by
    rcases hrecord with hin | ⟨owner, howner, written, hin, rfl⟩
    · obtain ⟨decl, hdecl, shape, hshape, hfunction⟩ := functions_sound houtput hin
      exact ⟨decl, hdecl, shape, .inl hshape, hfunction⟩
    · obtain ⟨decl, hdecl, shape, hshape, hfunction⟩ := methods_sound houtput howner hin
      exact ⟨decl, hdecl, shape, .inr hshape, hfunction⟩
  obtain ⟨params, locals, lowered, draft, hparams, hlowered, hdraft, rfl⟩ :=
    functionRecordWith_eq_ok.mp hfunction
  refine ⟨decl, hdecl, shape, params, locals, lowered, draft, hshape, hparams, hlowered, hdraft, rfl,
    ?_⟩
  have hcalls := passes_calls options.destructorPolicy hreceiver (shape_plain hplain hdecl hshape)
    hlowered
  refine Stmt.allList_iff.mpr fun stmt hstmt => (Stmt.allList_iff.mp hcalls stmt hstmt).imp
    (fun value => Expr.CallsAll.imp (fun owner method htarget => ?_) value) fun _ _ h => h
  obtain ⟨item, info, hclass⟩ := htarget.class?
  have hiff := defines_iff_provided hreceiver houtput (calleeName ⟨model, options⟩ item method)
    (calleeType ⟨model, options⟩ item)
  exact ⟨htarget, item, info, hclass, hiff, fun howns =>
    hiff.mpr (own_provided hmodel howns htarget hclass)⟩

/-! ## A window -/

/-- A window that can be closed, and a program that closes one. -/
def windowProgram (declared : Bool) : Program :=
  ⟨[.classDecl {}
      { decorators := [], declared, name := some "Window"
        members := [.method {}
          { decorators := [], visibility := .publicMember, name := "close", params := []
            returnType := some (.keyword {} .void), body := if declared then none else some [] }] },
    .functionDecl {}
      { decorators := [], declared := false, name := some "main", typeParams := []
        params := [{ span := {}, name := .ident "w", type := some (.reference {} ["Window"] [])
                     default := none, rest := false }]
        returnType := some (.keyword {} .void)
        body := some [.expr {} (.call {} (.property {} (.ident {} "w") "close") none [])] }]⟩

/-- The program's own window: every receiver call of the file is as it should be. -/
theorem receiverCall_defined_iff_window : ∃ model output,
    Model.build (windowProgram false) [] = .ok model ∧
    programOutput ⟨model, explicitReceivers⟩ (windowProgram false) = .ok output ∧
    ∀ record, Writes output record → ∃ shape params locals lowered draft,
      loweredBody ⟨model, explicitReceivers⟩ locals shape.body = .ok lowered ∧
      record = recordOf ⟨model, explicitReceivers⟩ shape params draft ∧
      AllList (Expr.CallsAll (Defined ⟨model, explicitReceivers⟩ (windowProgram false) output))
        (fun _ _ => True) lowered := by
  have hwritten : (generate explicitReceivers (windowProgram false) []).toOption.isSome = true := by
    decide +kernel
  have hplain : (windowProgram false).Plain := by
    intro decl hdecl body hbody
    simp only [windowProgram, List.mem_cons, List.not_mem_nil, or_false] at hdecl
    rcases hdecl with rfl | rfl
    · obtain rfl : body = [] := by simpa [Decl.bodies, ClassMember.body?] using hbody
      trivial
    · obtain rfl : body = _ := List.mem_singleton.mp hbody
      exact ⟨⟨trivial, trivial⟩, trivial⟩
  cases htext : generate explicitReceivers (windowProgram false) [] with
  | error e =>
    rw [htext] at hwritten
    cases hwritten
  | ok text =>
    obtain ⟨model, hmodel, -⟩ := Lowered.bind_eq_ok.mp htext
    obtain ⟨output, houtput, -, hrecords⟩ := receiverCall_defined_iff hmodel rfl htext hplain
    refine ⟨model, output, hmodel, houtput, fun record hrecord => ?_⟩
    obtain ⟨-, -, shape, params, locals, lowered, draft, -, -, hlowered, -, hrec, hcalls⟩ :=
      hrecords record hrecord
    exact ⟨shape, params, locals, lowered, draft, hlowered, hrec, hcalls⟩

/-- A window that native code provides is closed by a function that nobody defines: it is called in
the one function of the file. -/
theorem declaredWindow_undefined :
    (generate explicitReceivers (windowProgram true) []).toOption = some
      "void tscc_main(std::shared_ptr<tscc_Window> w)\n\x7b\n    tscc_Window_close(w.get());\n\x7d\n"
    ∧ ((Model.build (windowProgram true) []).toOption.bind fun model : TypedModel =>
      (programOutput ⟨model, explicitReceivers⟩ (windowProgram true)).toOption.map fun output =>
        (output.functions.map FunctionRecord.name, output.classes.length))
      = some (["tscc_main"], 0) := by
  constructor <;> decide +kernel

end Receiver

end NativeLowering
