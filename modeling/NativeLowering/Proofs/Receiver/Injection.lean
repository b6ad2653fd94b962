import NativeLowering.Proofs.Pass.Replacing
import NativeLowering.Proofs.Receiver.Passes

/-!
# Which calls get an explicit receiver

A call gets an explicit receiver exactly if it is a call of a method, and not of the destructor, on
an instance of a class that declares the method, or through pointers to one. Whether it is depends
on the type of the object, whose own calls have their receivers by then (`Receiver.Injected`). All
other nodes of the body stay, with their spans, and so do its statements (`run_injects`).

The pass gives up at two kinds of calls only (`Receiver.Refused`): those that an interface declares
the method for, and those on a value whose address cannot be taken, because the built-in for that is
not declared.
-/

set_option autoImplicit false

namespace NativeLowering

open Lowered (Either)

/-- What a type leads to if its pointers are followed. -/
def Ty.pointee : Ty → Ty
  | .pointer inner => inner.pointee
  | type => type

/-- Whether an interface declares a method of a name. -/
def Model.interfaceDeclares (model : Model) (interface name : String) : Bool :=
  match ((model.resolveType? interface).bind Symbol.item?).map Item.info with
  | some (.interfaceInfo methods) => (findMethod? methods name).isSome
  | _ => false

namespace Expr

mutual

/-- The expression and its parts that are evaluated. -/
def parts : Expr → List Expr
  | .ident span name => [.ident span name]
  | .thisRef span => [.thisRef span]
  | .literal span value => [.literal span value]
  | .property span object name => .property span object name :: object.parts
  | .call span callee typeArgs args =>
    .call span callee typeArgs args :: (callee.parts ++ partsAll args)
  | .new span target args => .new span target args :: partsAll args
  | .binary span op left right => .binary span op left right :: (left.parts ++ right.parts)
  | .unary span op operand => .unary span op operand :: operand.parts
  | .paren span inner => .paren span inner :: inner.parts
  | .comma span items => .comma span items :: partsAll items
  | .receiverCall span owner method args => .receiverCall span owner method args :: partsAll args

def partsAll : List Expr → List Expr
  | [] => []
  | item :: rest => item.parts ++ partsAll rest

end

theorem mem_partsAll {part : Expr} {items : List Expr} :
    part ∈ partsAll items ↔ ∃ item ∈ items, part ∈ item.parts := by
  induction items with
  | nil => simp [partsAll]
  | cons item rest ih =>
    rw [partsAll, List.mem_append, ih]
    simp

end Expr

namespace Receiver

/-! ## Methods of classes -/

section Methods

variable (model : Model)

/-- A method of the name is called on the class: the type is the class or points to it, the class
declares the method, and the method is not the destructor. -/
structure Calls (type : Ty) (name owner : String) : Prop where
  regular : name ≠ Spelling.destructor
  pointee : type.pointee = .classTy owner
  declares : model.declaresMethod owner name = true

/-- What is passed for an object as the receiver of a class's method. -/
inductive Passes (owner : String) : Expr → Ty → Expr → Prop
  | thisRef {span : Span} {type : Ty} : Passes owner (.thisRef span) type (.thisRef span)
  | pointer {object : Expr} {inner : Ty} : Passes owner object (.pointer inner) object
  /-- A shared instance is passed by its handle. -/
  | handle {object : Expr} : model.isSharedClass owner = true →
      Passes owner object (.classTy owner) object
  /-- A value is passed by its address. -/
  | value {object : Expr} {symbol : Symbol} : object.isThis = false →
      model.isSharedClass owner = false → model.builtin? .addressOf = some symbol →
      Passes owner object (.classTy owner)
        (.call object.span (.ident object.span symbol.name) none [object])

end Methods

/-! ## What becomes of expressions -/

section Injected

variable (model : Model) (locals : Locals)

/-- The second expression is the first with explicit receivers. -/
inductive Injected : Expr → Expr → Prop
  | ident {span : Span} {name : String} : Injected (.ident span name) (.ident span name)
  | thisRef {span : Span} : Injected (.thisRef span) (.thisRef span)
  | literal {span : Span} {value : Literal} : Injected (.literal span value) (.literal span value)
  | property {span : Span} {object object' : Expr} {name : String} : Injected object object' →
      Injected (.property span object name) (.property span object' name)
  /-- A call of a class's method. -/
  | method {span place : Span} {object object' receiver : Expr} {name owner : String}
      {typeArgs : Option (List TypeNode)} {args args' : List Expr} :
      Injected object object' → List.Forall₂ Injected args args' →
      Calls model (model.typeOf locals object') name owner →
      Passes model owner object' (model.typeOf locals object') receiver →
      Injected (.call span (.property place object name) typeArgs args)
        (.receiverCall span owner name (receiver :: args'))
  /-- Any other call. -/
  | call {span : Span} {callee callee' : Expr} {typeArgs : Option (List TypeNode)}
      {args args' : List Expr} :
      Injected callee callee' → List.Forall₂ Injected args args' →
      (∀ place object name owner, callee' = .property place object name →
        ¬ Calls model (model.typeOf locals object) name owner) →
      Injected (.call span callee typeArgs args) (.call span callee' typeArgs args')
  /-- The class of a construction is no expression that is evaluated. -/
  | new {span : Span} {target : Expr} {args args' : List Expr} : List.Forall₂ Injected args args' →
      Injected (.new span target args) (.new span target args')
  | binary {span : Span} {op : Vocabulary.BinaryOp} {left left' right right' : Expr} :
      Injected left left' → Injected right right' →
      Injected (.binary span op left right) (.binary span op left' right')
  | unary {span : Span} {op : Vocabulary.UnaryOp} {operand operand' : Expr} :
      Injected operand operand' → Injected (.unary span op operand) (.unary span op operand')
  | paren {span : Span} {inner inner' : Expr} : Injected inner inner' →
      Injected (.paren span inner) (.paren span inner')
  | comma {span : Span} {items items' : List Expr} : List.Forall₂ Injected items items' →
      Injected (.comma span items) (.comma span items')
  | receiverCall {span : Span} {owner method : String} {args args' : List Expr} :
      List.Forall₂ Injected args args' →
      Injected (.receiverCall span owner method args) (.receiverCall span owner method args')

/-- A call that the pass gives up at, and the error. -/
inductive Refused : Expr → LoweringError → Prop
  /-- An interface declares the method, so there is no function to call. -/
  | interface {span place : Span} {object object' : Expr} {name interface : String}
      {typeArgs : Option (List TypeNode)} {args : List Expr} :
      name ≠ Spelling.destructor → Injected model locals object object' →
      (model.typeOf locals object').pointee = .interfaceTy interface →
      model.interfaceDeclares interface name = true →
      Refused (.call span (.property place object name) typeArgs args)
        (.fault span (.interfaceReceiver interface name))
  /-- The address of a value is needed. -/
  | value {span place : Span} {object object' : Expr} {name owner : String}
      {typeArgs : Option (List TypeNode)} {args : List Expr} :
      Injected model locals object object' → Calls model (.classTy owner) name owner →
      model.typeOf locals object' = .classTy owner → object'.isThis = false →
      model.isSharedClass owner = false → model.builtin? .addressOf = none →
      Refused (.call span (.property place object name) typeArgs args)
        (.fault object.span (.undeclaredBuiltin .addressOf))

theorem Refused.code {model : Model} {locals : Locals} {call : Expr} {e : LoweringError}
    (h : Refused model locals call e) :
    e.code = "tscc::semantic" ∨ e.code = "tscc::builtin_surface" := by
  cases h with
  | interface => exact .inl rfl
  | value => exact .inr rfl

end Injected

/-! ## One call -/

section Calls

variable {model : Model} {locals : Locals}

/-- The class that is found for a method call on an object of a type: the one that the type leads
to, if it declares the method. -/
def Finds (model : Model) (name : String) (type : Ty) : Option String → Prop
  | some owner => type.pointee = .classTy owner ∧ model.declaresMethod owner name = true
  | none => ∀ owner, type.pointee = .classTy owner → model.declaresMethod owner name = false

/-- Which class is found for a method call, and when the call is refused. -/
theorem owningClass_either (name : String) (span : Span) (type : Ty) :
    Either (Finds model name type)
      (fun e => ∃ interface, type.pointee = .interfaceTy interface ∧
        model.interfaceDeclares interface name = true ∧
        e = .fault span (.interfaceReceiver interface name))
      (owningClass model name span type) := by
  -- Types that are none of a class or an interface lead to no class.
  have hother {other : Ty} (h : ∀ owner, other.pointee ≠ .classTy owner) :
      Finds model name other none := fun owner hpointee => absurd hpointee (h owner)
  induction type with
  | classTy owner =>
    rw [owningClass]
    cases hfound : (model.classInfo? owner).bind (·.method? name) with
    | some method => exact ⟨rfl, by rw [Names.declaresMethod, hfound]; rfl⟩
    | none =>
      intro other hpointee
      obtain rfl := Ty.classTy.inj hpointee
      rw [Names.declaresMethod, hfound]
      rfl
  | pointer inner ih =>
    rw [owningClass]
    exact ih
  | interfaceTy interface =>
    have hnone : Finds model name (.interfaceTy interface) none := hother fun _ h => Ty.noConfusion h
    rw [owningClass]
    split
    · rename_i methods hmethods
      by_cases hdeclares : (findMethod? methods name).isSome = true
      · rw [if_pos hdeclares]
        exact ⟨interface, rfl, by rw [Model.interfaceDeclares, hmethods]; exact hdeclares, rfl⟩
      · rw [if_neg hdeclares]
        exact hnone
    · exact hnone
  | named | primitive | moduleTy | function | unknown =>
    exact hother fun _ h => Ty.noConfusion h

theorem addressOf_either (object : Expr) :
    Either (fun receiver => ∃ symbol, model.builtin? .addressOf = some symbol ∧
        receiver = .call object.span (.ident object.span symbol.name) none [object])
      (fun e => model.builtin? .addressOf = none ∧
        e = .fault object.span (.undeclaredBuiltin .addressOf))
      (addressOf model object) := by
  unfold addressOf builtinCallee
  cases hbuiltin : model.builtin? .addressOf with
  | some symbol => exact ⟨symbol, rfl, rfl⟩
  | none => exact ⟨rfl, rfl⟩

/-- What is passed for an object, if its type leads to the class. -/
theorem argument_either {owner : String} {object : Expr} {type : Ty}
    (htype : type.pointee = .classTy owner) :
    Either (Passes model owner object type)
      (fun e => type = .classTy owner ∧ object.isThis = false ∧ model.isSharedClass owner = false ∧
        model.builtin? .addressOf = none ∧ e = .fault object.span (.undeclaredBuiltin .addressOf))
      (argument model owner object type) := by
  cases hthis : object.isThis with
  | true =>
    obtain ⟨span, rfl⟩ := Expr.eq_this hthis
    exact .thisRef
  | false =>
    rw [argument_value hthis]
    cases type with
    | pointer inner => exact .pointer
    | classTy name =>
      obtain rfl : name = owner := Ty.classTy.inj htype
      cases hshared : model.isSharedClass name with
      | true => exact .handle hshared
      | false =>
        refine (addressOf_either object).imp ?_ ?_
        · rintro _ ⟨symbol, hsymbol, rfl⟩
          exact .value hthis hshared hsymbol
        · rintro _ ⟨hnone, rfl⟩
          exact ⟨rfl, rfl, rfl, hnone, rfl⟩
    | _ => cases htype

theorem Injected.span {value result : Expr} (h : Injected model locals value result) :
    result.span = value.span := by
  cases h <;> rfl

/-- A call whose parts have their receivers gets its own, or is refused. -/
theorem injectCall_either {span : Span} {callee callee' : Expr} {typeArgs : Option (List TypeNode)}
    {args args' : List Expr} (hcallee : Injected model locals callee callee')
    (hargs : List.Forall₂ (Injected model locals) args args') :
    Either (Injected model locals (.call span callee typeArgs args))
      (Refused model locals (.call span callee typeArgs args))
      (injectCall model locals (.call span callee' typeArgs args')) := by
  unfold injectCall
  split
  · rename_i span' place object' name typeArgs' args'' heq
    cases heq
    cases hcallee with
    | @property _ object _ _ hobject =>
    by_cases hname : name = Spelling.destructor
    · rw [if_pos hname]
      refine .call (.property hobject) hargs ?_
      rintro _ _ _ owner ⟨⟩ hcalls
      exact hcalls.regular hname
    · rw [if_neg hname]
      refine (owningClass_either name span _).andThen ?_ ?_
      · rintro e ⟨interface, hpointee, hdeclares, rfl⟩
        exact .interface hname hobject hpointee hdeclares
      · rintro (_ | owner) hfound
        · refine .call (.property hobject) hargs ?_
          rintro _ _ _ owner ⟨⟩ hcalls
          have hdeclares := hcalls.declares
          rw [hfound owner hcalls.pointee] at hdeclares
          cases hdeclares
        · obtain ⟨hpointee, hdeclares⟩ := hfound
          refine (argument_either hpointee).andThen ?_ ?_
          · rintro e ⟨htype, hthis, hshared, hnone, rfl⟩
            rw [hobject.span]
            exact .value hobject ⟨hname, rfl, hdeclares⟩ htype hthis hshared hnone
          · intro receiver hpasses
            exact .method hobject hargs ⟨hname, hpointee, hdeclares⟩ hpasses
  · rename_i value hother
    refine .call hcallee hargs ?_
    rintro place object name owner rfl
    exact absurd rfl (hother _ _ _ _ _ _)

end Calls

/-! ## Expressions and bodies -/

section Bodies

variable {model : Model} {locals : Locals}

/-- Why the pass gives up within an expression. -/
def RefusedIn (model : Model) (locals : Locals) (value : Expr) (e : LoweringError) : Prop :=
  ∃ call ∈ value.parts, Refused model locals call e

theorem RefusedIn.of_part {value part : Expr} {e : LoweringError}
    (hpart : ∀ call ∈ part.parts, call ∈ value.parts) (h : RefusedIn model locals part e) :
    RefusedIn model locals value e := by
  obtain ⟨call, hcall, hrefused⟩ := h
  exact ⟨call, hpart call hcall, hrefused⟩

/-- What becomes of an expression when the pass visits it. Nothing is asked for. -/
def Visits (model : Model) (locals : Locals) (value : Expr) : Prop :=
  ∀ pending, Either (fun (result, after) => Injected model locals value result ∧ after = pending)
    (RefusedIn model locals value) ((Walk.expr (injecting model locals) value).run pending)

/-- An expression that is no call stays as it is once its parts have been visited. -/
theorem visit_other {value result : Expr} {e : LoweringError → Prop} {pending : Walk.Pending}
    (h : Injected model locals value result) (hcall : result.isCall = false) :
    Either (fun (result, after) => Injected model locals value result ∧ after = pending) e
      ((injecting model locals result).run pending) := by
  rw [injecting_onlyCalls result hcall]
  exact ⟨h, rfl⟩

theorem visits_all {items : List Expr} (h : ∀ item ∈ items, Visits model locals item)
    (pending : Walk.Pending) :
    Either (fun (results, after) => List.Forall₂ (Injected model locals) items results ∧
        after = pending)
      (fun e => ∃ item ∈ items, RefusedIn model locals item e)
      ((Walk.exprs (injecting model locals) items).run pending) := by
  induction items with
  | nil => exact ⟨.nil, rfl⟩
  | cons item rest ih =>
    rw [Walk.exprs]
    refine (h item (by simp) pending).andThen (fun e he => ⟨item, by simp, he⟩) ?_
    rintro ⟨item', after⟩ ⟨hitem, rfl⟩
    refine (ih fun other hm => h other (by simp [hm])).andThen ?_ ?_
    · rintro e ⟨other, hother, he⟩
      exact ⟨other, by simp [hother], he⟩
    · rintro ⟨rest', after⟩ ⟨hrest, rfl⟩
      exact ⟨.cons hitem hrest, rfl⟩

theorem refusedIn_items {items : List Expr} {value : Expr} {e : LoweringError}
    (hparts : ∀ call ∈ Expr.partsAll items, call ∈ value.parts)
    (h : ∃ item ∈ items, RefusedIn model locals item e) : RefusedIn model locals value e := by
  obtain ⟨item, hitem, hrefused⟩ := h
  exact hrefused.of_part fun call hcall => hparts call (Expr.mem_partsAll.mpr ⟨item, hitem, hcall⟩)

/-- What follows the visit of a part. -/
theorem Visits.andThen {β : Type} {part value : Expr} {pending : Walk.Pending}
    {P : β × Walk.Pending → Prop} {next : Expr → Walk.ExprM β} (h : Visits model locals part)
    (hparts : ∀ call ∈ part.parts, call ∈ value.parts)
    (hnext : ∀ result, Injected model locals part result →
      Either P (RefusedIn model locals value) ((next result).run pending)) :
    Either P (RefusedIn model locals value)
      ((Walk.expr (injecting model locals) part >>= next).run pending) := by
  refine (h pending).andThen (fun e he => he.of_part hparts) ?_
  rintro ⟨result, after⟩ ⟨hinjected, rfl⟩
  exact hnext result hinjected

/-- What follows the visits of several parts. -/
theorem visits_andThen {β : Type} {items : List Expr} {value : Expr} {pending : Walk.Pending}
    {P : β × Walk.Pending → Prop} {next : List Expr → Walk.ExprM β}
    (h : ∀ item ∈ items, Visits model locals item)
    (hparts : ∀ call ∈ Expr.partsAll items, call ∈ value.parts)
    (hnext : ∀ results, List.Forall₂ (Injected model locals) items results →
      Either P (RefusedIn model locals value) ((next results).run pending)) :
    Either P (RefusedIn model locals value)
      ((Walk.exprs (injecting model locals) items >>= next).run pending) := by
  refine (visits_all h pending).andThen (fun e he => refusedIn_items hparts he) ?_
  rintro ⟨results, after⟩ ⟨hinjected, rfl⟩
  exact hnext results hinjected

theorem visits_expr (value : Expr) : Visits model locals value := by
  induction value using Expr.ind with
  | ident | thisRef | literal => exact fun pending => visit_other (by constructor) rfl
  | property span object name hobject =>
    intro pending
    rw [Walk.expr]
    exact hobject.andThen (by simp +contextual [Expr.parts]) fun object' hinjected =>
      visit_other (.property hinjected) rfl
  | call span callee typeArgs args hcallee hargs =>
    intro pending
    rw [Walk.expr]
    refine hcallee.andThen (by simp +contextual [Expr.parts]) fun callee' hinjected => ?_
    refine visits_andThen hargs (by simp +contextual [Expr.parts]) fun args' hinjected' => ?_
    refine ((injectCall_either hinjected hinjected').imp (fun _ h => h) fun e he => ?_).lift _
    exact ⟨_, by simp [Expr.parts], he⟩
  | new span target args hargs =>
    intro pending
    rw [Walk.expr]
    exact visits_andThen hargs (by simp +contextual [Expr.parts]) fun args' hinjected =>
      visit_other (.new hinjected) rfl
  | binary span op left right hleft hright =>
    intro pending
    rw [Walk.expr]
    refine hleft.andThen (by simp +contextual [Expr.parts]) fun left' hinjected => ?_
    exact hright.andThen (by simp +contextual [Expr.parts]) fun right' hinjected' =>
      visit_other (.binary hinjected hinjected') rfl
  | unary span op operand hoperand =>
    intro pending
    rw [Walk.expr]
    exact hoperand.andThen (by simp +contextual [Expr.parts]) fun operand' hinjected =>
      visit_other (.unary hinjected) rfl
  | paren span inner hinner =>
    intro pending
    rw [Walk.expr]
    exact hinner.andThen (by simp +contextual [Expr.parts]) fun inner' hinjected =>
      visit_other (.paren hinjected) rfl
  | comma span items hitems =>
    intro pending
    rw [Walk.expr]
    exact visits_andThen hitems (by simp +contextual [Expr.parts]) fun items' hinjected =>
      visit_other (.comma hinjected) rfl
  | receiverCall span owner method args hargs =>
    intro pending
    rw [Walk.expr]
    exact visits_andThen hargs (by simp +contextual [Expr.parts]) fun args' hinjected =>
      visit_other (.receiverCall hinjected) rfl

/-- **Which calls get an explicit receiver**, and where the pass gives up. -/
theorem run_injects {body : List Stmt} (h : Address.UnstagedAll body) (locals : Locals) :
    match run model locals body with
    | .ok result => ∃ after, Stmt.ReplacedAll model (Injected model) locals body result after
    | .error e => (e.code = "tscc::semantic" ∨ e.code = "tscc::builtin_surface") ∧
        ∃ here value, Stmt.ReachesAll model (Injected model) locals body here value ∧
          ∃ call ∈ value.parts, Refused model here call e := by
  have hvisit : Walk.Replaces (injecting model) (Injected model) (RefusedIn model) :=
    fun here value next => visits_expr value ⟨next, []⟩
  have hbody : Either (fun result => ∃ after, Stmt.ReplacedAll model (Injected model) locals body
        result after)
      (fun e => ∃ here value, Stmt.ReachesAll model (Injected model) locals body here value ∧
        RefusedIn model here value e) (run model locals body) :=
    Walk.body_replaced hvisit h locals
  cases hrun : run model locals body with
  | ok result =>
    rw [hrun] at hbody
    exact hbody
  | error e =>
    rw [hrun] at hbody
    obtain ⟨here, value, hreaches, call, hcall, hrefused⟩ := hbody
    exact ⟨hrefused.code, here, value, hreaches, call, hcall, hrefused⟩

end Bodies

/-! ## A cursor -/

section Cursor

open Build

/-- A class of shared nodes and one of pens, which are values, and a function that makes a pen. -/
def cursor : Program :=
  program [declaredFunction "addressof" [] (keyword .number), declaredFunction "make" [] (type "Pen"),
    classOf "Node" [method "next" [] (type "Node") []],
    valueClass "Pen" [method "stroke" [param "from" (type "Node")] void []]]

/-- A pointer to a node, and a pen. -/
def cursorLocals : Locals :=
  ((Locals.start none).declare "place" (.pointer (.classTy "Node"))).declare "pen" (.classTy "Pen")

/-- A variable takes its type from a call through the pointer, and a call on it is the argument of a
call on the pen. -/
def stroke : List Stmt :=
  [letVar "tail" none (some (methodCall (ident "place") "next" [])),
    exprStmt (methodCall (ident "pen") "stroke" [methodCall (ident "tail") "next" []])]

theorem run_injects_stroke : ∃ model result after, Model.build cursor [] = .ok model ∧
    run model cursorLocals stroke = .ok result ∧
    Stmt.ReplacedAll model (Injected model) cursorLocals stroke result after := by
  obtain ⟨model, hmodel⟩ : ∃ model, Model.build cursor [] = .ok model := ⟨_, rfl⟩
  have hinjects := @run_injects model stroke ⟨trivial, trivial, trivial⟩ cursorLocals
  have hready : (Model.build cursor []).toOption.map
      (fun model : TypedModel => (run model cursorLocals stroke).toOption.isSome) = some true := by
    decide +kernel
  rw [hmodel] at hready
  obtain ⟨result, hresult⟩ := Option.isSome_iff_exists.mp (Option.some.inj hready)
  have hrun := Lowered.toOption_eq_some.mp hresult
  rw [hrun] at hinjects
  obtain ⟨after, hafter⟩ := hinjects
  exact ⟨model, result, after, hmodel, hrun, hafter⟩

/-- Every call is one of a class's method here. The pen is passed by its address. -/
example : (Model.build cursor []).toOption.map (fun model : TypedModel =>
      (run model cursorLocals stroke).toOption) =
    some (some
      [letVar "tail" none (some (.receiverCall {} "Node" "next" [ident "place"])),
        exprStmt (.receiverCall {} "Pen" "stroke" [call (ident "addressof") [ident "pen"],
          .receiverCall {} "Node" "next" [ident "tail"]])]) := by rfl

end Cursor

end Receiver

end NativeLowering
