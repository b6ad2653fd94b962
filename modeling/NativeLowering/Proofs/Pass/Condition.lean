import NativeLowering.Proofs.Receiver.Defined

/-!
# What the passes keep

Conditions on the names, literals, annotations and receiver calls of a body (`NodeCondition`). Such
a condition looks at each expression by itself, so a walk keeps it if every visit does. The passes
put in names, annotations and receiver calls of their own. If those meet the condition
(`NodeCondition.Closed`), a body that meets it still does after the passes
(`NodeCondition.Closed.passes`).
-/

set_option autoImplicit false

namespace NativeLowering

open Stmt (AllList mapList)
open Walk (Alike ExprM)

/-! ## Conditions -/

/-- A condition on expressions that looks at each of them by itself. -/
structure NodeCondition where
  /-- Which names may stand for a value, a function or a member. -/
  name : String → Prop
  literal : Literal → Prop
  /-- Which type arguments there may be. -/
  types : List TypeNode → Prop
  /-- How many expressions there may be between commas. -/
  comma : Nat → Prop
  /-- Which receiver calls there may be, by class, method and number of arguments. -/
  receiver : String → String → Nat → Prop

/-- A condition follows from another at each node. -/
structure NodeCondition.Implies (C C' : NodeCondition) : Prop where
  name : ∀ name, C.name name → C'.name name
  literal : ∀ value, C.literal value → C'.literal value
  types : ∀ types, C.types types → C'.types types
  comma : ∀ count, C.comma count → C'.comma count
  receiver : ∀ owner method count, C.receiver owner method count → C'.receiver owner method count

namespace Expr

mutual

/-- The expression and all its parts meet the condition. -/
def Meets (C : NodeCondition) : Expr → Prop
  | .ident _ name => C.name name
  | .thisRef _ => True
  | .literal _ value => C.literal value
  | .property _ object name => object.Meets C ∧ C.name name
  | .call _ callee typeArgs args =>
    callee.Meets C ∧ C.types (typeArgs.getD []) ∧ AllMeet C args
  | .new _ target args => target.Meets C ∧ AllMeet C args
  | .binary _ _ left right => left.Meets C ∧ right.Meets C
  | .unary _ _ operand => operand.Meets C
  | .paren _ inner => inner.Meets C
  | .comma _ items => C.comma items.length ∧ AllMeet C items
  | .receiverCall _ owner method args => C.receiver owner method args.length ∧ AllMeet C args

def AllMeet (C : NodeCondition) : List Expr → Prop
  | [] => True
  | item :: rest => item.Meets C ∧ AllMeet C rest

end

mutual

/-- What meets a condition meets those that follow from it. -/
theorem Meets.imp {C C' : NodeCondition} (himp : C.Implies C') :
    ∀ value : Expr, value.Meets C → value.Meets C'
  | .ident _ name, h => himp.name name h
  | .thisRef _, _ => trivial
  | .literal _ value, h => himp.literal value h
  | .property _ object name, h => ⟨Meets.imp himp object h.1, himp.name name h.2⟩
  | .call _ callee _ args, h =>
    ⟨Meets.imp himp callee h.1, himp.types _ h.2.1, AllMeet.imp himp args h.2.2⟩
  | .new _ target args, h => ⟨Meets.imp himp target h.1, AllMeet.imp himp args h.2⟩
  | .binary _ _ left right, h => ⟨Meets.imp himp left h.1, Meets.imp himp right h.2⟩
  | .unary _ _ operand, h => Meets.imp himp operand h
  | .paren _ inner, h => Meets.imp himp inner h
  | .comma _ items, h => ⟨himp.comma items.length h.1, AllMeet.imp himp items h.2⟩
  | .receiverCall _ owner method args, h =>
    ⟨himp.receiver owner method args.length h.1, AllMeet.imp himp args h.2⟩

theorem AllMeet.imp {C C' : NodeCondition} (himp : C.Implies C') :
    ∀ items : List Expr, AllMeet C items → AllMeet C' items
  | [], _ => trivial
  | item :: rest, h => ⟨Meets.imp himp item h.1, AllMeet.imp himp rest h.2⟩

end

end Expr

open NativeLowering.Expr (Meets AllMeet)

/-! ## Walks -/

section Walks

variable {C : NodeCondition} {D : DeclCondition}

/-- The visit leads from expressions that meet the condition to such expressions, and what it asks
for meets the conditions too. -/
def KeepsMeeting (C : NodeCondition) (D : DeclCondition) (visit : Expr → ExprM Expr) : Prop :=
  ∀ value : Expr, value.Meets C →
    Alike id (Meets C) D (fun result result' => result' = result ∧ result.Meets C)
      (visit value) (visit value)

variable {visit : Expr → ExprM Expr}

mutual

theorem expr_meets (hvisit : KeepsMeeting C D visit) : ∀ value : Expr, value.Meets C →
    Alike id (Meets C) D (fun result result' => result' = result ∧ result.Meets C)
      (Walk.expr visit value) (Walk.expr visit value)
  | .ident .., h | .thisRef _, h | .literal .., h => hvisit _ h
  | .property _ object _, h => by
    refine (expr_meets hvisit object h.1).bind ?_
    rintro object _ ⟨rfl, hobject⟩
    exact hvisit _ ⟨hobject, h.2⟩
  | .call _ callee _ args, h => by
    refine (expr_meets hvisit callee h.1).bind ?_
    rintro callee _ ⟨rfl, hcallee⟩
    refine (exprs_meet hvisit args h.2.2).bind ?_
    rintro args _ ⟨rfl, hargs, -⟩
    exact hvisit _ ⟨hcallee, h.2.1, hargs⟩
  | .new _ target args, h => by
    refine (exprs_meet hvisit args h.2).bind ?_
    rintro args _ ⟨rfl, hargs, -⟩
    exact hvisit _ ⟨h.1, hargs⟩
  | .binary _ _ left right, h => by
    refine (expr_meets hvisit left h.1).bind ?_
    rintro left _ ⟨rfl, hleft⟩
    refine (expr_meets hvisit right h.2).bind ?_
    rintro right _ ⟨rfl, hright⟩
    exact hvisit _ ⟨hleft, hright⟩
  | .unary _ _ operand, h => by
    refine (expr_meets hvisit operand h).bind ?_
    rintro operand _ ⟨rfl, hoperand⟩
    exact hvisit _ hoperand
  | .paren _ inner, h => by
    refine (expr_meets hvisit inner h).bind ?_
    rintro inner _ ⟨rfl, hinner⟩
    exact hvisit _ hinner
  | .comma _ items, h => by
    refine (exprs_meet hvisit items h.2).bind ?_
    rintro items' _ ⟨rfl, hitems, hlength⟩
    refine hvisit _ ⟨?_, hitems⟩
    rw [hlength]
    exact h.1
  | .receiverCall _ owner method args, h => by
    refine (exprs_meet hvisit args h.2).bind ?_
    rintro args' _ ⟨rfl, hargs, hlength⟩
    refine hvisit _ ⟨?_, hargs⟩
    rw [hlength]
    exact h.1

theorem exprs_meet (hvisit : KeepsMeeting C D visit) : ∀ items : List Expr, AllMeet C items →
    Alike id (Meets C) D
      (fun results results' => results' = results ∧ AllMeet C results ∧
        results.length = items.length)
      (Walk.exprs visit items) (Walk.exprs visit items)
  | [], _ => Alike.pure ⟨rfl, trivial, rfl⟩
  | item :: rest, h => by
    refine (expr_meets hvisit item h.1).bind ?_
    rintro item _ ⟨rfl, hitem⟩
    refine (exprs_meet hvisit rest h.2).bind ?_
    rintro results _ ⟨rfl, hrest, hlength⟩
    exact Alike.pure ⟨rfl, ⟨hitem, hrest⟩, by simp [hlength]⟩

end

end Walks

/-! ## Passes -/

/-- A built-in function is an item, and it is found under its own name. -/
theorem Names.builtin?_eq_some {model : Model} {builtin : Vocabulary.Builtin} {symbol : Symbol}
    (h : model.builtin? builtin = some symbol) :
    ∃ own, symbol = .item own ∧ model.resolve? builtin.spelling = some symbol := by
  obtain ⟨found, hfound, hrest⟩ := Option.bind_eq_some_iff.mp h
  obtain ⟨info, hinfo, hrest⟩ := Option.bind_eq_some_iff.mp hrest
  have hsame : found = symbol := by
    split at hrest
    · exact Option.some.inj hrest
    · cases hrest
  rw [← hsame]
  cases found with
  | item own => exact ⟨own, rfl, hfound⟩
  | ambient source => cases hinfo

/-- What the passes put into a body meets the conditions, given a condition on the bindings. -/
structure NodeCondition.Closed (C : NodeCondition) (D : DeclCondition) (I : Locals → Prop)
    (model : Model) : Prop where
  push : ∀ {locals : Locals} (kind : FrameKind), I locals → I (locals.push kind)
  declare : ∀ {locals : Locals} {decl : VariableDecl} {name : String}, I locals →
    decl.All (Meets C) D → decl.name = .ident name →
    I (locals.declare name (model.declaredType locals decl))
  noTypes : C.types []
  pair : C.comma 2
  destructor : ∀ {name : String} {type : Option TypeNode}, D (.ident name) type →
    C.name name ∧ C.name Spelling.destructor
  address : ∀ {symbol : Symbol}, model.builtin? .addressOf = some symbol → C.name symbol.name
  receiver : ∀ {owner method : String} (others : Nat), model.declaresMethod owner method = true →
    C.name method → C.receiver owner method (others + 1)
  temporary : ∀ {locals : Locals} {value : Expr} {span : Span} {node : TypeNode} (n : Nat),
    I locals → value.Meets C → (model.typeOf locals value).toTypeNode? span = some node →
    C.name (Spelling.temporary n) ∧ D (.ident (Spelling.temporary n)) (some node)

namespace NodeCondition.Closed

variable {C : NodeCondition} {D : DeclCondition} {I : Locals → Prop} {model : Model}
  (h : C.Closed D I model)
include h

theorem tracks : Tracks model model id (fun locals locals' => locals' = locals ∧ I locals)
    (Meets C) D where
  push kind hlocals := by
    obtain ⟨rfl, hI⟩ := hlocals
    exact ⟨rfl, h.push kind hI⟩
  destroyed policy hlocals _ := by
    rw [hlocals.1, VariableDecl.mapExprs, Option.map_id]
    rfl
  declare hlocals hdecl hname := by
    obtain ⟨rfl, hI⟩ := hlocals
    rw [VariableDecl.mapExprs, Option.map_id]
    exact ⟨rfl, h.declare hI hdecl hname⟩

theorem callsFit : Cleanup.CallsFit id (Meets C) D := by
  intro span name type hname
  obtain ⟨hown, hdestructor⟩ := h.destructor hname
  exact ⟨⟨⟨hown, hdestructor⟩, h.noTypes, trivial⟩, Stmt.mapExprs_id _⟩

theorem addressOf {object result : Expr} (hobject : object.Meets C)
    (hrun : Receiver.addressOf model object = .ok result) : result.Meets C := by
  unfold Receiver.addressOf Receiver.builtinCallee at hrun
  cases hknown : model.builtin? .addressOf with
  | none =>
    rw [hknown] at hrun
    cases hrun
  | some symbol =>
    rw [hknown] at hrun
    cases hrun
    exact ⟨h.address hknown, h.noTypes, hobject, trivial⟩

theorem argument {owner : String} {object result : Expr} {type : Ty} (hobject : object.Meets C)
    (hrun : Receiver.argument model owner object type = .ok result) : result.Meets C := by
  unfold Receiver.argument at hrun
  split at hrun
  · cases hrun
    exact hobject
  · cases hrun
    exact hobject
  · split at hrun
    · cases hrun
      exact hobject
    · exact h.addressOf hobject hrun
  · exact h.addressOf hobject hrun

theorem injectCall (locals : Locals) :
    KeepsMeeting C D fun value => liftM (Receiver.injectCall model locals value) := by
  intro value hvalue
  refine Alike.lift fun result hrun => ⟨result, hrun, rfl, ?_⟩
  unfold Receiver.injectCall at hrun
  split at hrun
  · rename_i span place object name typeArgs args
    obtain ⟨⟨hobject, hname⟩, -, hargs⟩ := id hvalue
    split at hrun
    · cases hrun
      exact hvalue
    · obtain ⟨found, hfound, hrun⟩ := Lowered.bind_eq_ok.mp hrun
      cases found with
      | none =>
        cases hrun
        exact hvalue
      | some owner =>
        obtain ⟨receiver, hreceiver, hrun⟩ := Lowered.bind_eq_ok.mp hrun
        cases hrun
        have hdeclares := Receiver.owningClass_declares hfound
        exact ⟨h.receiver args.length hdeclares hname, h.argument hobject hreceiver, hargs⟩
  · cases hrun
    exact hvalue

theorem materializeCall {locals : Locals} (hlocals : I locals) :
    KeepsMeeting C D (Address.materializeCall model locals) := by
  intro value hvalue
  have hstay : Alike id (Meets C) D
      (fun result result' => result' = result ∧ result.Meets C) (pure value) (pure value) :=
    Alike.pure ⟨rfl, hvalue⟩
  unfold Address.materializeCall
  split
  · rename_i span callee typeArgs operand
    obtain ⟨hcallee, htypes, hoperand, -⟩ := hvalue
    split
    · intro pending after result hrun
      cases hnode : (model.typeOf locals operand).toTypeNode? operand.span with
      | none =>
        rw [hnode] at hrun
        cases hrun
      | some node =>
        rw [hnode] at hrun
        -- The temporary meets the condition by the type that its operand is written with.
        have hnew (n : Nat) := h.temporary n hlocals hoperand hnode
        simp only [Lowered.run_bind, Lowered.run_get, Lowered.run_set, Lowered.run_pure] at hrun
        obtain ⟨_, _, ⟨rfl, rfl⟩, _, _, rfl, rfl, rfl⟩ := hrun
        refine ⟨_, [Address.declaration operand.span (Spelling.temporary _) node],
          ⟨rfl, ?_⟩, ?_, rfl, fun earlier => ?_⟩
        · exact ⟨h.pair, ⟨(hnew _).1, hoperand⟩, ⟨hcallee, htypes, (hnew _).1, trivial⟩, trivial⟩
        · refine ⟨?_, trivial⟩
          intro decl hmem
          obtain rfl := List.mem_singleton.mp hmem
          exact ⟨(hnew _).2, nofun⟩
        · rw [Stmt.mapList_id]
          rfl
    · exact hstay
  · exact hstay

omit h in
theorem visitTransport {visit : Walk.Visit}
    (hvisit : ∀ locals : Locals, I locals → KeepsMeeting C D (visit locals)) :
    Walk.VisitTransport id (fun locals locals' => locals' = locals ∧ I locals) (Meets C) (Meets C) D
      (fun _ => True) (fun _ => True) visit visit := by
  refine .of_alike ?_
  rintro locals _ value ⟨rfl, hlocals⟩ hvalue
  refine (expr_meets (hvisit _ hlocals) value hvalue).imp ?_
  intro result result' hresult
  exact ⟨hresult.1, hresult.2, fun _ => trivial⟩

/-- **The passes keep the conditions.** -/
theorem passes {passes : PassSet} {policy : DestructorPolicy} {locals : Locals} (hlocals : I locals)
    {body result : List Stmt} (hbody : AllList (Meets C) D body)
    (hrun : passes.run model policy locals body = .ok result) : AllList (Meets C) D result :=
  (passes_transport (E := fun _ _ => True) policy
    (fun _ => ⟨fun _ hvalue => hvalue, fun _ _ => trivial⟩) h.tracks h.tracks h.callsFit
    (visitTransport fun locals _ => h.injectCall locals)
    (visitTransport fun _ hlocals => h.materializeCall hlocals) ⟨rfl, hlocals⟩ hbody hrun).1

/-- So does putting the receiver parameter in place of the current instance. -/
theorem bindReceiver (hreceiver : C.name Spelling.receiver) {locals : Locals} (hlocals : I locals)
    {body result : List Stmt} (hbody : AllList (Meets C) D body)
    (hrun : Receiver.bindReceiver model locals body = .ok result) :
    AllList (Meets C) D result := by
  have hvisit : KeepsMeeting C D fun value => pure (Receiver.bindThis value) := by
    intro value hvalue
    refine Alike.pure ⟨rfl, ?_⟩
    unfold Receiver.bindThis
    split
    · exact hreceiver
    · exact hvalue
  exact (Walk.walk_transport (E := fun _ _ => True) h.tracks
    (visitTransport fun _ _ => hvisit) ⟨rfl, hlocals⟩ hbody hrun).1

end NodeCondition.Closed

/-! ## Programs -/

def ClassMember.params : ClassMember → List Param
  | .property .. => []
  | .method _ decl => decl.params
  | .constructor _ decl => decl.params

/-- The parameters that stand in front of the bodies of the declaration. -/
def Decl.params : Decl → List Param
  | .classDecl _ decl => decl.members.flatMap ClassMember.params
  | .functionDecl _ decl => decl.params
  | _ => []

/-- The first condition is met by the expressions in the bodies and default values of the
declaration, the second by its variables and parameters. -/
structure Decl.All (P : Expr → Prop) (D : DeclCondition) (decl : Decl) : Prop where
  bodies : ∀ body ∈ decl.bodies, AllList P D body
  params : ∀ param ∈ decl.params, D param.name param.type
  defaults : ∀ param ∈ decl.params, ∀ value, param.default = some value → P value

/-- Where nothing is, there is nothing to meet a condition. -/
theorem Decl.all_of_empty {P : Expr → Prop} {D : DeclCondition} {decl : Decl}
    (hbodies : decl.bodies = []) (hparams : decl.params = []) : decl.All P D := by
  constructor
  · intro body hbody
    rw [hbodies] at hbody
    cases hbody
  · intro param hparam
    rw [hparams] at hparam
    cases hparam
  · intro param hparam
    rw [hparams] at hparam
    cases hparam

section Members

variable {P : Expr → Prop} {D : DeclCondition} {span : Span} {decl : ClassDecl}
  (h : (Decl.classDecl span decl).All P D) {member : ClassMember} (hmember : member ∈ decl.members)
include h hmember

theorem Decl.All.memberBody {body : List Stmt} (hbody : member.body? = some body) :
    AllList P D body :=
  h.bodies body (List.mem_filterMap.mpr ⟨member, hmember, hbody⟩)

theorem Decl.All.memberParam {param : Param} (hparam : param ∈ member.params) :
    D param.name param.type ∧ ∀ value, param.default = some value → P value := by
  have hin : param ∈ (Decl.classDecl span decl).params :=
    List.mem_flatMap.mpr ⟨member, hmember, hparam⟩
  exact ⟨h.params param hin, h.defaults param hin⟩

end Members

/-- A class member is written with its parameters, as a member of its class. -/
theorem Emit.memberShape_place {cx : Context} {names : Emit.ClassNames} {member : ClassMember}
    {shape : Emit.FunctionShape} (h : Emit.memberShape? cx names member = some (.ok shape)) :
    shape.params = member.params ∧ shape.thisClass = some names.declared := by
  cases member with
  | property => cases h
  | method span decl => exact (Emit.methodShape_parts (Option.some.inj h)).2
  | constructor span decl =>
    have hshape : Emit.constructorShape cx names decl span = .ok shape := Option.some.inj h
    obtain ⟨_, -, hshape⟩ := Lowered.bind_eq_ok.mp hshape
    split at hshape
    · cases hshape
    · cases hshape
      exact ⟨rfl, rfl⟩

end NativeLowering
