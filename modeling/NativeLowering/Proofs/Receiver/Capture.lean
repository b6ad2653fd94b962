import NativeLowering.Proofs.Emit.Records
import NativeLowering.Proofs.Receiver.Injection
import NativeLowering.Proofs.Scoping.Agreement

/-!
# What the receiver parameter captures

The receiver function of a method has the method's body with a parameter in the place of the
current instance. The parameter always has the same name, and it is bound around the bindings of the
method: in the function each of these is in scope as before, and the parameter outside of them all
(`bindReceiver_found`).

So a binding of the method that has the parameter's name takes the mentions of the current instance
that it encloses, and the parameter takes the mentions of a global of its name.
`receiverFunction_captures_iff` says that nothing else goes wrong.
-/

set_option autoImplicit false

namespace NativeLowering

/-! ## Where a name leads -/

/-- The variable that a name means, by how many bindings in scope come before its own; a name
without one means a global. -/
def Bindings.target? (visible : Bindings) (name : String) : Option Nat :=
  visible.findIdx? fun binding => binding.1 = name

namespace Bindings

variable {visible : Bindings} {name : String}

theorem target?_eq_none : visible.target? name = none ↔ name ∉ visible.map Prod.fst := by
  rw [target?, List.findIdx?_eq_none_iff, List.mem_map]
  constructor
  · rintro h ⟨binding, hbinding, rfl⟩
    simpa using h binding hbinding
  · intro h binding hbinding
    simpa using fun heq => h ⟨binding, hbinding, heq⟩

theorem target?_append (visible outer : Bindings) (name : String) :
    target? (visible ++ outer) name
      = (visible.target? name).or ((target? outer name).map (· + visible.length)) :=
  List.findIdx?_append

/-- It is the variable whose binding a lookup finds. -/
theorem lookup_eq (visible : Bindings) (name : String) :
    visible.lookup name
      = ((visible.target? name).bind fun index => visible[index]?).map Prod.snd := by
  induction visible with
  | nil => rfl
  | cons binding rest ih =>
    rw [target?, List.findIdx?_cons, List.lookup_cons]
    by_cases hname : binding.1 = name
    · simp [hname]
    · have hother : (name == binding.1) = false := by simpa using Ne.symm hname
      rw [target?] at ih
      simp [hother, ih, hname, Option.bind_map]

theorem target?_lt {index : Nat} (h : visible.target? name = some index) : index < visible.length :=
  (List.findIdx?_eq_some_iff_findIdx_eq.mp h).1

variable {own : String} {type : Ty}

/-- The outermost binding is reached by its name exactly if no other has it. -/
theorem target?_outermost :
    target? (visible ++ [(own, type)]) own = some visible.length ↔ own ∉ visible.map Prod.fst := by
  rw [target?_append, ← target?_eq_none]
  cases htarget : visible.target? own with
  | none => simp [target?]
  | some index =>
    have hlt := target?_lt htarget
    simp only [Option.some_or, Option.some.injEq, reduceCtorEq, iff_false]
    omega

/-- Another outermost binding matters to a name exactly if it is the only one of that name. -/
theorem target?_inner :
    target? (visible ++ [(own, type)]) name = visible.target? name ↔
      (name = own → own ∈ visible.map Prod.fst) := by
  rw [target?_append]
  cases htarget : visible.target? name with
  | none =>
    have hunbound := target?_eq_none.mp htarget
    by_cases hname : own = name
    · subst hname
      simp [target?, hunbound]
    · simp [target?, hname, Ne.symm hname]
  | some index =>
    have hbound : name ∈ visible.map Prod.fst := by
      by_contra hunbound
      rw [target?_eq_none.mpr hunbound] at htarget
      cases htarget
    simp only [Option.some_or, true_iff]
    rintro rfl
    exact hbound

end Bindings

namespace Receiver

/-! ## The body with its scopes -/

/-- The same place in the receiver function, whose parameter is bound around everything. -/
def rebound (outer : Bindings) (there : Occurrence Expr) : Occurrence Expr :=
  ⟨there.visible ++ outer, bound there.node⟩

/-- The second reading is the first with the parameter in place and more bindings around it. -/
structure Shifted (outer : Bindings) (reading result : Reading (Occurrence Expr)) : Prop where
  found : ∀ visible, result.found (visible ++ outer) = (reading.found visible).map (rebound outer)
  after : ∀ visible, result.after (visible ++ outer) = reading.after visible ++ outer

namespace Shifted

variable {outer : Bindings} {reading result reading' result' : Reading (Occurrence Expr)}

theorem nothing : Shifted outer .nothing .nothing := ⟨fun _ => rfl, fun _ => rfl⟩

theorem leaf (value : Expr) :
    Shifted outer (.leaf fun visible => [⟨visible, value⟩])
      (.leaf fun visible => [⟨visible, bound value⟩]) := ⟨fun _ => rfl, fun _ => rfl⟩

theorem option (value : Option Expr) :
    Shifted outer (Expr.valuesOption value) (Expr.valuesOption (value.map bound)) := by
  cases value with
  | none => exact nothing
  | some value => exact leaf value

theorem andThen (h : Shifted outer reading result) (h' : Shifted outer reading' result') :
    Shifted outer (reading.andThen reading') (result.andThen result') where
  found visible := by
    dsimp only [Reading.andThen]
    rw [h.found, h.after, h'.found, List.map_append]
  after visible := by
    dsimp only [Reading.andThen]
    rw [h.after, h'.after]

theorem inside (h : Shifted outer reading result) : Shifted outer reading.inside result.inside :=
  ⟨h.found, fun _ => rfl⟩

end Shifted

section Bodies

variable {model : Model} {outer : Bindings}

theorem decl_shifted (decl : VariableDecl) :
    Shifted outer (decl.values model) ((decl.mapExprs bound).values model) := by
  have hbind : Shifted outer (.binding (decl.bind model))
      (.binding ((decl.mapExprs bound).bind model)) := by
    refine ⟨fun _ => rfl, fun visible => ?_⟩
    unfold Reading.binding VariableDecl.bind VariableDecl.mapExprs
    dsimp only
    split <;> rfl
  exact Shifted.nothing.andThen ((Shifted.option decl.init).andThen hbind)

theorem decls_shifted (decls : List VariableDecl) :
    Shifted outer (VariableDecl.valuesAll model decls)
      (VariableDecl.valuesAll model (decls.map (VariableDecl.mapExprs bound))) := by
  induction decls with
  | nil => exact .nothing
  | cons decl rest ih => exact (decl_shifted decl).andThen ih

/-- Binding the receiver in the statement leaves its scopes. -/
def StmtShifted (model : Model) (outer : Bindings) (stmt : Stmt) : Prop :=
  ∀ (point after : Walk.Point) (result : Stmt),
    (Walk.stmt model binding stmt).run point = .ok (result, after) →
    Shifted outer (stmt.values model) (result.values model)

theorem stmts_shifted {body : List Stmt} (h : ∀ stmt ∈ body, StmtShifted model outer stmt)
    {point after : Walk.Point} {result : List Stmt}
    (hrun : (Walk.stmts model binding body).run point = .ok (result, after)) :
    Shifted outer (Stmt.valuesAll model body) (Stmt.valuesAll model result) := by
  induction body generalizing point result with
  | nil =>
    cases hrun
    exact .nothing
  | cons stmt rest ih =>
    obtain ⟨first, between, others, hfirst, hothers, rfl⟩ := Walk.run_stmts_cons.mp hrun
    exact (h stmt (by simp) _ _ _ hfirst).andThen
      (ih (fun other hm => h other (by simp [hm])) hothers)

theorem inFrame_shifted {stmt result : Stmt} (h : StmtShifted model outer stmt) {kind : FrameKind}
    {point after : Walk.Point}
    (hrun : (Walk.inFrame kind (Walk.stmt model binding stmt)).run point = .ok (result, after)) :
    Shifted outer (stmt.values model).inside (result.values model).inside := by
  obtain ⟨inner, hinner, -⟩ := Walk.run_inFrame.mp hrun
  exact (h _ _ _ hinner).inside

theorem elseStmt_shifted {elseBranch result : Option Stmt}
    (h : ∀ branch, elseBranch = some branch → StmtShifted model outer branch)
    {point after : Walk.Point}
    (hrun : (Walk.elseStmt model binding elseBranch).run point = .ok (result, after)) :
    Shifted outer (Stmt.valuesElse model elseBranch) (Stmt.valuesElse model result) := by
  cases elseBranch with
  | none =>
    cases hrun
    exact .nothing
  | some branch =>
    obtain ⟨walked, hbranch, rfl⟩ := Walk.run_elseStmt_some.mp hrun
    exact inFrame_shifted (h branch rfl) hbranch

theorem stmt_shifted (stmt : Stmt) : StmtShifted model outer stmt := by
  induction stmt using Stmt.ind with
  | vars span kind decls =>
    intro point after result hrun
    obtain ⟨last, hdecls⟩ := run_bindingDecls model decls point
    obtain ⟨walked, before, hwalked, rfl⟩ := Walk.run_stmt_vars.mp hrun
    cases hdecls.symm.trans hwalked
    exact decls_shifted decls
  | expr span value =>
    intro point after result hrun
    obtain ⟨walked, before, hvalue, rfl⟩ := Walk.run_stmt_expr.mp hrun
    cases (run_binding value point).symm.trans hvalue
    exact .leaf value
  | ret span value =>
    intro point after result hrun
    obtain ⟨walked, before, hvalue, rfl⟩ := Walk.run_stmt_ret.mp hrun
    cases (run_bindingOption value point).symm.trans hvalue
    exact .option value
  | ifElse span condition thenBranch elseBranch hThen hElse =>
    intro point after result hrun
    obtain ⟨walked, before, between, first, mid, second, hcondition, hthen, helse, rfl⟩ :=
      Walk.run_stmt_ifElse.mp hrun
    cases (run_binding condition point).symm.trans hcondition
    exact (Shifted.leaf condition).andThen
      ((inFrame_shifted hThen hthen).andThen (elseStmt_shifted hElse helse))
  | loop span condition body hBody =>
    intro point after result hrun
    obtain ⟨walked, before, between, inner, hcondition, hbody, rfl⟩ := Walk.run_stmt_loop.mp hrun
    cases (run_binding condition point).symm.trans hcondition
    exact (Shifted.leaf condition).andThen (inFrame_shifted hBody hbody)
  | brk | cont =>
    intro point after result hrun
    cases hrun
    exact .nothing
  | block span body hBody =>
    intro point after result hrun
    obtain ⟨inner, hframe, rfl⟩ := Walk.run_stmt_block.mp hrun
    obtain ⟨mid, hbody, -⟩ := Walk.run_inFrame.mp hframe
    exact (stmts_shifted hBody hbody).inside
  | staged span before body hBefore hBody =>
    intro point after result hrun
    obtain ⟨before', between, body', hbefore, hbody, rfl⟩ := Walk.run_stmt_staged.mp hrun
    -- Merging the stages changes nothing in the order in which the body is read.
    rw [Walk.read_restage]
    exact (stmts_shifted hBefore hbefore).andThen (hBody _ _ _ hbody)

theorem bindReceiver_shifted {locals : Locals} {body result : List Stmt}
    (h : bindReceiver model locals body = .ok result) :
    Shifted outer (Stmt.valuesAll model body) (Stmt.valuesAll model result) := by
  obtain ⟨point, hrun⟩ := Walk.body_eq_ok.mp h
  exact stmts_shifted (fun stmt _ => stmt_shifted stmt) hrun

end Bodies

/-- Parameters are bound inside of what is bound before them. -/
theorem params_append (model : Model) (outer : Bindings) (params : List Param) (visible : Bindings) :
    params.foldl (Param.bind model) (visible ++ outer)
      = params.foldl (Param.bind model) visible ++ outer := by
  induction params generalizing visible with
  | nil => rfl
  | cons param rest ih =>
    have hbind : Param.bind model (visible ++ outer) param
        = Param.bind model visible param ++ outer := by
      unfold Param.bind
      split <;> rfl
    rw [List.foldl_cons, List.foldl_cons, hbind, ih]

/-- **The scopes of a receiver function.** Its body has the places of the method's body, each with
the parameter bound around what is in scope there. -/
theorem bindReceiver_found {model : Model} {locals : Locals} {body result : List Stmt}
    (h : bindReceiver model locals body = .ok result) {own : String} {receiver : Param}
    (hname : receiver.name = .ident own) (params : List Param) :
    (Stmt.valuesAll model result).found ((receiver :: params).foldl (Param.bind model) [])
      = ((Stmt.valuesAll model body).found (params.foldl (Param.bind model) [])).map
          (rebound [(own, model.typeFromOption receiver.type)]) := by
  have hreceiver : Param.bind model [] receiver
      = [] ++ [(own, model.typeFromOption receiver.type)] := by
    rw [Param.bind, hname]
    rfl
  rw [List.foldl_cons, hreceiver, params_append]
  exact (bindReceiver_shifted h).found _

/-! ## References -/

mutual

/-- The parts of an expression keep their places. -/
theorem parts_bound : ∀ value : Expr, (bound value).parts = value.parts.map bound
  | .ident .. | .thisRef _ | .literal .. => rfl
  | .property _ object _ => by simp [bound, Expr.parts, parts_bound object]
  | .call _ callee _ args => by
    simp [bound, Expr.parts, parts_bound callee, partsAll_bound args]
  | .new _ _ args => by simp [bound, Expr.parts, partsAll_bound args]
  | .binary _ _ left right => by simp [bound, Expr.parts, parts_bound left, parts_bound right]
  | .unary _ _ operand => by simp [bound, Expr.parts, parts_bound operand]
  | .paren _ inner => by simp [bound, Expr.parts, parts_bound inner]
  | .comma _ items => by simp [bound, Expr.parts, partsAll_bound items]
  | .receiverCall _ _ _ args => by simp [bound, Expr.parts, partsAll_bound args]

theorem partsAll_bound : ∀ items : List Expr,
    Expr.partsAll (boundAll items) = (Expr.partsAll items).map bound
  | [] => rfl
  | item :: rest => by
    simp [boundAll, Expr.partsAll, parts_bound item, partsAll_bound rest]

end

/-- Between the method and its receiver function, the current instance becomes the parameter, which
is the outermost variable there, and a name means what it did. -/
def SameReference (visible visible' : Bindings) : Expr → Expr → Prop
  | .thisRef place, result =>
    result = .ident place Spelling.receiver ∧
      visible'.target? Spelling.receiver = some visible.length
  | .ident place name, result =>
    result = .ident place name ∧ visible'.target? name = visible.target? name
  | _, _ => True

/-- The same of all the references in an expression. -/
def SameReferences (there here : Occurrence Expr) : Prop :=
  List.Forall₂ (SameReference there.visible here.visible) there.node.parts here.node.parts

/-- The name of the parameter is not taken where the current instance is mentioned, and where it is
mentioned itself, it is taken. -/
structure Spares (there : Occurrence Expr) : Prop where
  this : ∀ place, .thisRef place ∈ there.node.parts →
    Spelling.receiver ∉ there.visible.map Prod.fst
  name : ∀ place, .ident place Spelling.receiver ∈ there.node.parts →
    Spelling.receiver ∈ there.visible.map Prod.fst

theorem sameReferences_iff {there : Occurrence Expr} {type : Ty} :
    SameReferences there (rebound [(Spelling.receiver, type)] there) ↔ Spares there := by
  -- The two places have the same parts in the same order, so it is decided part by part.
  unfold SameReferences rebound
  rw [parts_bound, List.forall₂_map_right_iff, List.forall₂_same]
  constructor
  · intro h
    refine ⟨fun place hpart => ?_, fun place hpart => ?_⟩
    · exact Bindings.target?_outermost.mp (h _ hpart).2
    · exact Bindings.target?_inner.mp (h _ hpart).2 rfl
  · intro h part hpart
    cases part with
    | thisRef place => exact ⟨rfl, Bindings.target?_outermost.mpr (h.this place hpart)⟩
    | ident place name =>
      refine ⟨rfl, Bindings.target?_inner.mpr ?_⟩
      rintro rfl
      exact h.name place hpart
    | _ => trivial

/-! ## Receiver functions -/

/-- The names of parameters. -/
def paramNames (params : List Param) : List String :=
  params.filterMap fun param => param.name.ident?

/-- Putting the receiver parameter in place captures nothing: all references of the method's body
stay what they are, and the parameters are told apart if they are in the method. -/
structure CaptureAvoiding (model : Model) (receiver : Param) (params : List Param)
    (body bound : List Stmt) : Prop where
  references : List.Forall₂ SameReferences
    ((Stmt.valuesAll model body).found (params.foldl (Param.bind model) []))
    ((Stmt.valuesAll model bound).found ((receiver :: params).foldl (Param.bind model) []))
  params : (paramNames params).Nodup → (paramNames (receiver :: params)).Nodup

/-- The body and the parameters of a method spare the name of the receiver parameter. -/
structure SparesReceiver (model : Model) (params : List Param) (body : List Stmt) : Prop where
  references : ∀ there ∈ (Stmt.valuesAll model body).found (params.foldl (Param.bind model) []),
    Spares there
  params : (paramNames params).Nodup → Spelling.receiver ∉ paramNames params

theorem captureAvoiding_iff {model : Model} {locals : Locals} {body result : List Stmt}
    (h : bindReceiver model locals body = .ok result) {receiver : Param}
    (hname : receiver.name = .ident Spelling.receiver) (params : List Param) :
    CaptureAvoiding model receiver params body result ↔ SparesReceiver model params body := by
  have hreferences : List.Forall₂ SameReferences
      ((Stmt.valuesAll model body).found (params.foldl (Param.bind model) []))
      ((Stmt.valuesAll model result).found ((receiver :: params).foldl (Param.bind model) []))
      ↔ ∀ there ∈ (Stmt.valuesAll model body).found (params.foldl (Param.bind model) []),
        Spares there := by
    rw [bindReceiver_found h hname, List.forall₂_map_right_iff, List.forall₂_same]
    exact forall₂_congr fun there _ => sameReferences_iff
  have hparams : (paramNames (receiver :: params)).Nodup ↔
      Spelling.receiver ∉ paramNames params ∧ (paramNames params).Nodup := by
    have hcons : paramNames (receiver :: params) = Spelling.receiver :: paramNames params := by
      rw [paramNames, List.filterMap_cons, hname]
      rfl
    rw [hcons, List.nodup_cons]
  constructor
  · intro havoids
    exact ⟨hreferences.mp havoids.references, fun hnodup => (hparams.mp (havoids.params hnodup)).1⟩
  · intro hspares
    exact ⟨hreferences.mpr hspares.references,
      fun hnodup => hparams.mpr ⟨hspares.params hnodup, hnodup⟩⟩

end Receiver

namespace Emit

variable {cx : Context} {session after : Session}

/-- **What the receiver parameter captures.** A receiver function that is written has the scopes of
its method, with the parameter around them. It captures nothing exactly if the method spares the name
of the parameter: no other parameter has it, no variable in scope at a mention of the current instance
has it, and no global of that name is mentioned. -/
theorem receiverFunction_captures_iff {names : ClassNames} {decl : MethodDecl} {span : Span}
    (hidle : Idle cx session)
    (hgives : Gives (receiverFunction cx names decl span) session () after) :
    ∃ body bound, decl.body = some body ∧
      Receiver.bindReceiver cx.model (.start none) body = .ok bound ∧
      (∃ returnType record, Placed session record none after ∧
        functionRecord cx
          { returnType := some returnType, qualifier := none
            name := Naming.receiverFunction names.written decl.name
            params := receiverParam names.declared span :: decl.params, body := bound
            thisClass := none, visibility := none } = .ok record) ∧
      (Stmt.valuesAll cx.model bound).found
          ((receiverParam names.declared span :: decl.params).foldl (Param.bind cx.model) [])
        = ((Stmt.valuesAll cx.model body).found (decl.params.foldl (Param.bind cx.model) [])).map
          (Receiver.rebound [(Spelling.receiver,
            cx.model.typeFromOption (receiverParam names.declared span).type)]) ∧
      (Receiver.CaptureAvoiding cx.model (receiverParam names.declared span) decl.params body bound ↔
        Receiver.SparesReceiver cx.model decl.params body) := by
  unfold receiverFunction at hgives
  split at hgives
  · rename_i node body hnode hbody
    simp only [gives_bind, gives_lift, gives_typeString] at hgives
    obtain ⟨returnType, _, ⟨-, rfl⟩, bound, _, ⟨hbound, rfl⟩, hwritten⟩ := hgives
    obtain ⟨record, hrecord, hplaced⟩ := functionLike_gives hidle hwritten
    exact ⟨body, bound, hbody, hbound, ⟨returnType, record, hplaced, hrecord⟩,
      Receiver.bindReceiver_found hbound rfl decl.params,
      Receiver.captureAvoiding_iff hbound rfl decl.params⟩
  · exact absurd hgives gives_throw

end Emit

/-! ## Counters -/

section Counters

open Build
open Emit (ClassNames Gives gives_of_toOption receiverFunction receiverParam functionRecord
  methodShape receiverShape)

/-- A method of a counter. -/
def counterMethod (name : String) (params : List Param) (body : List Stmt) : MethodDecl :=
  { decorators := [], visibility := .publicMember, name, params
    returnType := some (keyword .number), body := some body }

def ownCount : Expr := property thisRef "count"

/-- Adds to the count. -/
def advanceCounter : MethodDecl :=
  counterMethod "advance" [param "by" (keyword .number)]
    [ret (some (binary .add ownCount (ident "by")))]

def askSelf : List Stmt := [ret (some (call (ident "self") []))]

/-- Asks a function that has the name of the receiver parameter. -/
def askCounter : MethodDecl := counterMethod "ask" [] askSelf

/-- Has a parameter of that name. -/
def keepCounter : MethodDecl :=
  counterMethod "keep" [param "self" (keyword .number)] [ret (some ownCount)]

/-- Has a variable of that name. -/
def holdCounter : MethodDecl :=
  counterMethod "hold" []
    [letVar "self" (some (keyword .number)) (some (number "1")), ret (some ownCount)]

def counterAndSelf : Program :=
  program [function "self" [] (keyword .number) [ret (some (number "1"))],
    classOf "Counter" (field "count" (keyword .number) ::
      [advanceCounter, askCounter, keepCounter, holdCounter].map (ClassMember.method {}))]

def counterNames : ClassNames := ⟨"Counter", "tscc_Counter"⟩

theorem receiverFunction_captures_iff_counter : ∃ model after body bound,
    Model.build counterAndSelf [] = .ok model ∧
    Gives (receiverFunction ⟨model, {}⟩ counterNames advanceCounter {}) (.start {}) () after ∧
    advanceCounter.body = some body ∧ Receiver.bindReceiver model (.start none) body = .ok bound ∧
    Receiver.CaptureAvoiding model (receiverParam "Counter" {}) advanceCounter.params body bound := by
  obtain ⟨model, after, hbuild, hrun⟩ := gives_of_toOption
    (show (Model.build counterAndSelf []).toOption.map (fun model : TypedModel =>
        ((receiverFunction ⟨model, {}⟩ counterNames advanceCounter {}).run
          (.start {})).1.toOption) = some (some ()) by decide +kernel)
  obtain ⟨body, bound, hbody, hbound, -, -, hiff⟩ :=
    @Emit.receiverFunction_captures_iff ⟨model, {}⟩ _ _ _ _ _ ⟨rfl, rfl⟩ hrun
  -- The only variable in scope is `by`, and no part of the body is called `self`.
  refine ⟨model, after, body, bound, hbuild, hrun, hbody, hbound, hiff.mpr ⟨?_, ?_⟩⟩
  · obtain rfl := Option.some.inj hbody
    intro there hthere
    obtain rfl := List.mem_singleton.mp hthere
    refine ⟨fun _ _ => ?_, fun place hplace => ?_⟩
    · show Spelling.receiver ∉ ["by"]
      decide
    · simp [Expr.parts, ownCount, binary, property, thisRef, ident] at hplace
      exact absurd hplace.2 (by decide)
  · exact fun _ => by decide

/-- What is written of a method's body in the class and in the receiver function. -/
def bodyTexts (cx : Context) (decl : MethodDecl) : Lowered (String × String) := do
  let member ← methodShape cx counterNames decl {} >>= functionRecord cx
  let function ← receiverShape cx counterNames decl {} >>= functionRecord cx
  return (member.body.text, function.body.text)

theorem askSelf_captured (model : Model)
    (h : Receiver.bindReceiver model (.start none) askSelf = .ok askSelf) :
    ¬ Receiver.CaptureAvoiding model (receiverParam "Counter" {}) [] askSelf askSelf := by
  intro havoids
  have hspares := (Receiver.captureAvoiding_iff h rfl []).mp havoids
  have hmentioned : Expr.ident {} Spelling.receiver ∈ (call (ident "self") []).parts :=
    List.mem_cons_of_mem _ List.mem_cons_self
  have hbound := (hspares.references _ List.mem_cons_self).name {} hmentioned
  exact List.not_mem_nil hbound

/-- The parameter captures a global of its name. A parameter and a variable of its name capture the
current instance. -/
theorem captured_by_receiver : ∃ model, Model.build counterAndSelf [] = .ok model ∧
    Receiver.bindReceiver model (.start none) askSelf = .ok askSelf ∧
    ¬ Receiver.CaptureAvoiding model (receiverParam "Counter" {}) [] askSelf askSelf ∧
    bodyTexts ⟨model, {}⟩ askCounter = .ok ("    return tscc_self();\n", "    return self();\n") ∧
    bodyTexts ⟨model, {}⟩ keepCounter
      = .ok ("    return this->count;\n", "    return self.count;\n") ∧
    Receiver.paramNames (receiverParam "Counter" {} :: keepCounter.params) = ["self", "self"] ∧
    bodyTexts ⟨model, {}⟩ holdCounter
      = .ok ("    double self = 1;\n    return this->count;\n",
        "    double self = 1;\n    return self.count;\n") :=
  ⟨_, rfl, rfl, askSelf_captured _ rfl, rfl, rfl, rfl, rfl⟩

end Counters

end NativeLowering
