import NativeLowering.Pass.Address
import NativeLowering.Proofs.Model.Typed
import NativeLowering.Proofs.Success
import NativeLowering.Proofs.Syntax.Bodies

/-!
# The materialization of operands as a function

The pass threads a counter and a list of declarations through a walk, and it can fail. What it does
is said here without any of that. `Address.sites` lists the operands that need a variable, in the
order in which they are evaluated, each with the bindings at its place. The pass fails at the first
of them whose type has no name, and else it gives the body `Address.materializedAll`, in which the
`k`-th of the operands has the `k`-th variable (`Address.run_eq`).

The operands are listed as they stand in the body. An operand with operands of its own has been
rewritten when its turn comes, but nothing that the pass looks at has changed by then
(`Address.Kept`).
-/

set_option autoImplicit false

namespace NativeLowering.Address

open Walk (stage restage)

/-! ## Operands -/

/-- The operand of an expression that is itself an address call, if it needs a variable. -/
def ownOperands (model : Model) : Expr → List Expr
  | .call _ callee _ [operand] =>
    if isBuiltinCall model .addressOf callee && !operand.isAddressable then [operand] else []
  | _ => []

/-- An address call with its operand in the given variable; other expressions stay. -/
def thread (model : Model) (number : Nat) : Expr → Expr
  | .call span callee typeArgs [operand] =>
    if isBuiltinCall model .addressOf callee && !operand.isAddressable then
      throughTemporary span (Spelling.temporary number) operand callee typeArgs
    else .call span callee typeArgs [operand]
  | value => value

mutual

/-- The operands in an expression that need a variable, in the order of evaluation. -/
def operands (model : Model) : Expr → List Expr
  | .ident .. | .thisRef _ | .literal .. => []
  | .property _ object _ => operands model object
  | .call span callee typeArgs args =>
    operands model callee ++ operandsAll model args ++
      ownOperands model (.call span callee typeArgs args)
  | .new _ _ args => operandsAll model args
  | .binary _ _ left right => operands model left ++ operands model right
  | .unary _ _ operand => operands model operand
  | .paren _ inner => operands model inner
  | .comma _ items => operandsAll model items
  | .receiverCall _ _ _ args => operandsAll model args

def operandsAll (model : Model) : List Expr → List Expr
  | [] => []
  | item :: rest => operands model item ++ operandsAll model rest

end

mutual

/-- The expression with its operands in variables, which are numbered from the given number on. -/
def threaded (model : Model) (next : Nat) : Expr → Expr
  | .ident span name => .ident span name
  | .thisRef span => .thisRef span
  | .literal span value => .literal span value
  | .property span object name => .property span (threaded model next object) name
  | .call span callee typeArgs args =>
    let atArgs := next + (operands model callee).length
    thread model (atArgs + (operandsAll model args).length)
      (.call span (threaded model next callee) typeArgs (threadedAll model atArgs args))
  | .new span target args => .new span target (threadedAll model next args)
  | .binary span op left right =>
    .binary span op (threaded model next left)
      (threaded model (next + (operands model left).length) right)
  | .unary span op operand => .unary span op (threaded model next operand)
  | .paren span inner => .paren span (threaded model next inner)
  | .comma span items => .comma span (threadedAll model next items)
  | .receiverCall span owner method args =>
    .receiverCall span owner method (threadedAll model next args)

def threadedAll (model : Model) (next : Nat) : List Expr → List Expr
  | [] => []
  | item :: rest =>
    threaded model next item :: threadedAll model (next + (operands model item).length) rest

end

/-! ## What an expression keeps -/

/-- What the pass looks at is the same of two expressions. -/
structure Kept (model : Model) (value result : Expr) : Prop where
  span : result.span = value.span
  isThis : result.isThis = value.isThis
  isAddressable : result.isAddressable = value.isAddressable
  builtin : ∀ builtin, isBuiltinCall model builtin result = isBuiltinCall model builtin value
  type : ∀ locals, model.typeOf locals result = model.typeOf locals value
  /-- The type of a call of the expression. -/
  called : ∀ locals, model.typeOf locals (.call {} result none [])
    = model.typeOf locals (.call {} value none [])

theorem Kept.refl {model : Model} (value : Expr) : Kept model value value :=
  ⟨rfl, rfl, rfl, fun _ => rfl, fun _ => rfl, fun _ => rfl⟩

theorem Kept.trans {model : Model} {first second third : Expr} (h : Kept model first second)
    (h' : Kept model second third) : Kept model first third where
  span := h'.span.trans h.span
  isThis := h'.isThis.trans h.isThis
  isAddressable := h'.isAddressable.trans h.isAddressable
  builtin builtin := (h'.builtin builtin).trans (h.builtin builtin)
  type locals := (h'.type locals).trans (h.type locals)
  called locals := (h'.called locals).trans (h.called locals)

theorem kept_threadedAll {model : Model} {items : List Expr}
    (h : ∀ item ∈ items, ∀ next, Kept model item (threaded model next item)) (next : Nat) :
    List.Forall₂ (Kept model) items (threadedAll model next items) := by
  induction items generalizing next with
  | nil => exact .nil
  | cons item rest ih =>
    exact .cons (h item (by simp) next) (ih (fun other hm => h other (by simp [hm])) _)

section Keeping

variable {model : Model} [model.Typed]

theorem Kept.typeOfLast {items results : List Expr} (h : List.Forall₂ (Kept model) items results)
    (locals : Locals) : model.typeOfLast locals results = model.typeOfLast locals items := by
  induction h with
  | nil => rfl
  | cons first rest ih =>
    cases rest with
    | nil => rw [model.typeOfLast_single, model.typeOfLast_single, first.type]
    | cons => exact ih

theorem Kept.call {callee callee' : Expr} (hcallee : Kept model callee callee') (span : Span)
    (typeArgs : Option (List TypeNode)) (args args' : List Expr) :
    Kept model (.call span callee typeArgs args) (.call span callee' typeArgs args') := by
  refine ⟨rfl, rfl, rfl, fun _ => rfl, fun locals => ?_, fun locals => ?_⟩
  · rw [model.typeOf_call, hcallee.called, ← model.typeOf_call locals span callee typeArgs args]
  · rw [model.typeOf_call_computed _ _ rfl, model.typeOf_call_computed _ _ rfl]

/-- A call on a variable has the type of the call it stands for. -/
theorem kept_thread (number : Nat) (value : Expr) :
    Kept model value (thread model number value) := by
  unfold thread
  split
  · rename_i span callee typeArgs operand
    split
    · refine ⟨rfl, rfl, rfl, fun _ => rfl, fun locals => ?_, fun locals => ?_⟩
      · rw [throughTemporary, model.typeOf_paren, model.typeOf_comma, model.typeOfLast_cons,
          model.typeOfLast_single, model.typeOf_call,
          ← model.typeOf_call locals span callee typeArgs [operand]]
      · rw [throughTemporary, model.typeOf_call_computed _ _ rfl, model.typeOf_call_computed _ _ rfl]
    · exact .refl _
  · exact .refl _

theorem kept_threaded (value : Expr) : ∀ next, Kept model value (threaded model next value) := by
  have unnamed {locals : Locals} {value result : Expr} (hvalue : value.isNamed = false)
      (hresult : result.isNamed = false) : model.typeOf locals (.call {} result none [])
        = model.typeOf locals (.call {} value none []) := by
    rw [model.typeOf_call_computed _ _ hvalue, model.typeOf_call_computed _ _ hresult]
  induction value using Expr.ind with
  | ident | thisRef | literal => exact fun next => .refl _
  | property span object name hobject =>
    intro next
    have hkept := hobject next
    refine ⟨rfl, rfl, ?_, fun _ => rfl, fun locals => ?_, fun locals => ?_⟩
    · simp only [threaded, Expr.isAddressable, hkept.isThis, hkept.isAddressable]
    · rw [threaded, model.typeOf_property, model.typeOf_property, hkept.type]
    · rw [threaded, model.typeOf_methodCall, model.typeOf_methodCall, hkept.type]
  | call span callee typeArgs args hcallee hargs =>
    intro next
    exact ((hcallee next).call span typeArgs args _).trans (kept_thread _ _)
  | new span target args hargs =>
    intro next
    refine ⟨rfl, rfl, rfl, fun _ => rfl, fun locals => ?_, fun _ => unnamed rfl rfl⟩
    rw [threaded, model.typeOf_new, ← model.typeOf_new locals span target args]
  | binary span op left right hleft hright =>
    intro next
    refine ⟨rfl, rfl, rfl, fun _ => rfl, fun locals => ?_, fun _ => unnamed rfl rfl⟩
    rw [threaded, model.typeOf_binary, model.typeOf_binary, (hleft next).type]
  | unary span op operand hoperand =>
    intro next
    refine ⟨rfl, rfl, rfl, fun _ => rfl, fun locals => ?_, fun _ => unnamed rfl rfl⟩
    rw [threaded, model.typeOf_unary, model.typeOf_unary, (hoperand next).type]
  | paren span inner hinner =>
    intro next
    refine ⟨rfl, rfl, ?_, fun _ => rfl, fun locals => ?_, fun _ => unnamed rfl rfl⟩
    · simp only [threaded, Expr.isAddressable, (hinner next).isAddressable]
    · rw [threaded, model.typeOf_paren, model.typeOf_paren, (hinner next).type]
  | comma span items hitems =>
    intro next
    refine ⟨rfl, rfl, rfl, fun _ => rfl, fun locals => ?_, fun _ => unnamed rfl rfl⟩
    rw [threaded, model.typeOf_comma, model.typeOf_comma]
    exact Kept.typeOfLast (kept_threadedAll hitems next) locals
  | receiverCall span owner method args hargs =>
    intro next
    refine ⟨rfl, rfl, rfl, fun _ => rfl, fun _ => ?_, fun _ => unnamed rfl rfl⟩
    rw [threaded, model.typeOf_receiverCall, model.typeOf_receiverCall]

end Keeping

/-! ## Sites -/

/-- An operand that needs a variable, with the bindings at its place. -/
structure Site where
  locals : Locals
  operand : Expr

namespace Site

/-- The type of the operand. -/
def type (model : Model) (site : Site) : Ty := model.typeOf site.locals site.operand

/-- What the variable of the operand is declared with. -/
def node? (model : Model) (site : Site) : Option TypeNode :=
  (site.type model).toTypeNode? site.operand.span

/-- The declaration of the operand's variable. -/
def declaration (model : Model) (site : Site) (number : Nat) : Stmt :=
  let span := site.operand.span
  Address.declaration span (Spelling.temporary number)
    ((site.node? model).getD (.reference span [] []))

/-- Fails if the type of the operand has no name. -/
def named (model : Model) (site : Site) : Lowered Unit :=
  match site.node? model with
  | none => .error (.fault site.operand.span .untypedTemporary)
  | some _ => .ok ()

end Site

/-- The declarations of the variables, which are numbered from the given number on. -/
def declarations (model : Model) (next : Nat) (sites : List Site) : List Stmt :=
  (sites.zipIdx next).map fun numbered => numbered.1.declaration model numbered.2

/-- Fails at the first operand whose type has no name. -/
def allNamed (model : Model) : List Site → Lowered Unit
  | [] => .ok ()
  | site :: rest => do
    site.named model
    allNamed model rest

theorem declarations_append (model : Model) (next : Nat) (first second : List Site) :
    declarations model next (first ++ second)
      = declarations model next first ++ declarations model (next + first.length) second := by
  simp [declarations, List.zipIdx_append]

theorem allNamed_append (model : Model) (first second : List Site) :
    allNamed model (first ++ second)
      = allNamed model first >>= fun _ => allNamed model second := by
  induction first with
  | nil => rfl
  | cons site rest ih => simp [allNamed, ih]

/-! ## Steps that fail at a site only -/

section Settles

variable {σ α β : Type} {model : Model}

/-- A step fails at the first of the sites whose type has no name; if there is none, it has the
result and the state given. -/
def Settles (model : Model) (sites : List Site) (step : StateT σ Lowered α) (state : σ) (result : α)
    (after : σ) : Prop :=
  step.run state = (allNamed model sites).map fun _ => (result, after)

theorem Settles.pure (result : α) (state : σ) :
    Settles model [] (pure result : StateT σ Lowered α) state result state := rfl

theorem Settles.bind {first : StateT σ Lowered α} {next : α → StateT σ Lowered β}
    {sites more : List Site} {state between after : σ} {value : α} {result : β}
    (h : Settles model sites first state value between)
    (h' : Settles model more (next value) between result after) :
    Settles model (sites ++ more) (first >>= next) state result after := by
  unfold Settles at h h' ⊢
  rw [StateT.run_bind, h, allNamed_append]
  cases allNamed model sites with
  | error err => rfl
  | ok _ => exact h'

/-- A step that returns after another one needs no sites of its own. -/
theorem Settles.bindPure {first : StateT σ Lowered α} {next : α → β} {sites : List Site}
    {state after : σ} {value : α} (h : Settles model sites first state value after) :
    Settles model sites (first >>= fun value => Pure.pure (next value)) state (next value) after := by
  have hbind : Settles model (sites ++ []) (first >>= fun value => Pure.pure (next value)) state
      (next value) after := h.bind (.pure (next value) after)
  rwa [List.append_nil] at hbind

end Settles

/-! ## Expressions -/

/-- The operands in an expression that need a variable, at a place. -/
def exprSites (model : Model) (locals : Locals) (value : Expr) : List Site :=
  (operands model value).map (Site.mk locals)

section Visits

variable {model : Model} {locals : Locals}

/-- A visit has asked for the declarations of its sites. -/
def Visits (model : Model) (sites : List Site) {α : Type} (step : Walk.ExprM α) (next : Nat)
    (result : α) : Prop :=
  ∀ before, Settles model sites step ⟨next, before⟩ result
    ⟨next + sites.length, before ++ declarations model next sites⟩

theorem Visits.pure {α : Type} (next : Nat) (result : α) :
    Visits model [] (pure result) next result := by
  intro before
  simp [Settles, declarations, allNamed]
  rfl

theorem Visits.bind {α β : Type} {step : Walk.ExprM α} {rest : α → Walk.ExprM β}
    {sites more : List Site} {next between : Nat} {value : α} {result : β}
    (h : Visits model sites step next value) (hbetween : between = next + sites.length)
    (h' : Visits model more (rest value) between result) :
    Visits model (sites ++ more) (step >>= rest) next result := by
  intro before
  subst hbetween
  have hbind := (h before).bind (h' _)
  rwa [List.append_assoc, ← declarations_append, Nat.add_assoc, ← List.length_append] at hbind

theorem Visits.bindPure {α β : Type} {step : Walk.ExprM α} {sites : List Site} {next : Nat}
    {value : α} (h : Visits model sites step next value) (build : α → β) :
    Visits model sites (step >>= fun value => Pure.pure (build value)) next (build value) :=
  fun before => (h before).bindPure

/-- An expression that is no call with one argument is left as it is. -/
theorem visits_other {value : Expr} (h : ∀ span callee typeArgs operand,
    value ≠ .call span callee typeArgs [operand]) (next : Nat) :
    Visits model [] (materializeCall model locals value) next value := by
  have hvisit : materializeCall model locals value = Pure.pure value := by
    unfold materializeCall
    split
    · exact absurd rfl (h _ _ _ _)
    · rfl
  rw [hvisit]
  exact .pure next value

theorem Visits.bindOther {α : Type} {step : Walk.ExprM α} {sites : List Site} {next : Nat} {value : α}
    (h : Visits model sites step next value) (build : α → Expr)
    (hbuild : ∀ span callee typeArgs operand, build value ≠ .call span callee typeArgs [operand]) :
    Visits model sites (step >>= fun value => materializeCall model locals (build value)) next
      (build value) := by
  have hbind : Visits model (sites ++ [])
      (step >>= fun value => materializeCall model locals (build value)) next (build value) :=
    h.bind rfl (visits_other hbuild _)
  rwa [List.append_nil] at hbind

theorem visits_call {callee callee' : Expr} (hcallee : Kept model callee callee')
    {args args' : List Expr} (hargs : List.Forall₂ (Kept model) args args') (span : Span)
    (typeArgs : Option (List TypeNode)) (next : Nat) :
    Visits model ((ownOperands model (.call span callee typeArgs args)).map (Site.mk locals))
      (materializeCall model locals (.call span callee' typeArgs args')) next
      (thread model next (.call span callee' typeArgs args')) := by
  intro before
  cases hargs with
  | nil => exact visits_other (by simp) next before
  | cons first rest =>
    rename_i operand operand' _ _
    cases rest with
    | cons => exact visits_other (by simp) next before
    | nil =>
      simp only [ownOperands, thread, materializeCall, hcallee.builtin, first.isAddressable,
        first.span, first.type]
      by_cases hneeds : (isBuiltinCall model .addressOf callee && !operand.isAddressable) = true
      · simp only [hneeds, if_true, List.map_cons, List.map_nil]
        cases hnode : (model.typeOf locals operand).toTypeNode? operand.span with
        | none => simp [Settles, allNamed, Site.named, Site.node?, Site.type, hnode]; rfl
        | some type =>
          simp [Settles, allNamed, Site.named, Site.node?, Site.type, hnode, declarations,
            Site.declaration]
          rfl
      · simp only [hneeds]
        exact Visits.pure next _ before

theorem visits_all {items : List Expr}
    (h : ∀ item ∈ items, ∀ next, Visits model (exprSites model locals item)
      (Walk.expr (materializeCall model locals) item) next (threaded model next item)) (next : Nat) :
    Visits model ((operandsAll model items).map (Site.mk locals))
      (Walk.exprs (materializeCall model locals) items) next (threadedAll model next items) := by
  induction items generalizing next with
  | nil => exact .pure next []
  | cons item rest ih =>
    simp only [operandsAll, List.map_append, threadedAll, Walk.exprs]
    have hrest := ih fun other hm => h other (by simp [hm])
    exact (h item (by simp) next).bind (by simp [exprSites])
      ((hrest _).bindPure (threaded model next item :: ·))

end Visits

section TypedVisits

variable {model : Model} [model.Typed] {locals : Locals}

theorem visits_expr (value : Expr) : ∀ next, Visits model (exprSites model locals value)
    (Walk.expr (materializeCall model locals) value) next (threaded model next value) := by
  induction value using Expr.ind with
  | ident | thisRef | literal => exact fun next => visits_other (by simp) next
  | property span object name hobject =>
    exact fun next => (hobject next).bindOther (.property span · name) (by simp)
  | call span callee typeArgs args hcallee hargs =>
    intro next
    simp only [exprSites, operands, List.map_append, List.append_assoc, Walk.expr, threaded]
    refine (hcallee next).bind (by simp [exprSites])
      ((visits_all hargs _).bind (by simp) (visits_call (kept_threaded callee next) ?_ span typeArgs _))
    exact kept_threadedAll (fun item _ => kept_threaded item) _
  | new span target args hargs =>
    exact fun next => (visits_all hargs next).bindOther (.new span target ·) (by simp)
  | binary span op left right hleft hright =>
    intro next
    simp only [exprSites, operands, List.map_append, Walk.expr]
    exact (hleft next).bind (by simp [exprSites])
      ((hright _).bindOther (.binary span op (threaded model next left) ·) (by simp))
  | unary span op operand hoperand =>
    exact fun next => (hoperand next).bindOther (.unary span op ·) (by simp)
  | paren span inner hinner => exact fun next => (hinner next).bindOther (.paren span ·) (by simp)
  | comma span items hitems =>
    exact fun next => (visits_all hitems next).bindOther (.comma span ·) (by simp)
  | receiverCall span owner method args hargs =>
    exact fun next => (visits_all hargs next).bindOther (.receiverCall span owner method ·) (by simp)

end TypedVisits

/-! ## Statements -/

def optionSites (model : Model) (locals : Locals) : Option Expr → List Site
  | none => []
  | some value => exprSites model locals value

/-- The operands in the initial values of variables. A variable is bound for those after it. -/
def declSites (model : Model) (locals : Locals) : List VariableDecl → List Site
  | [] => []
  | decl :: rest =>
    optionSites model locals decl.init ++ declSites model (declareLocal model locals decl) rest

mutual

/-- The bindings behind a statement. -/
def boundAfter (model : Model) (locals : Locals) : Stmt → Locals
  | .vars _ _ decls => decls.foldl (declareLocal model) locals
  | .staged _ before body => boundAfter model (boundAfterAll model locals before) body
  | .expr .. | .ret .. | .ifElse .. | .loop .. | .brk _ | .cont _ | .block .. => locals

def boundAfterAll (model : Model) (locals : Locals) : List Stmt → Locals
  | [] => locals
  | stmt :: rest => boundAfterAll model (boundAfter model locals stmt) rest

end

mutual

/-- The operands in a statement that need a variable, in the order of evaluation. -/
def sites (model : Model) (locals : Locals) : Stmt → List Site
  | .vars _ _ decls => declSites model locals decls
  | .expr _ value => exprSites model locals value
  | .ret _ value => optionSites model locals value
  | .ifElse _ condition thenBranch elseBranch =>
    exprSites model locals condition ++
      (sites model (locals.push .block) thenBranch ++ sitesOption model locals elseBranch)
  | .loop _ condition body =>
    exprSites model locals condition ++ sites model (locals.push .loop) body
  | .brk _ | .cont _ => []
  | .block _ body => sitesAll model (locals.push .block) body
  | .staged _ before body =>
    sitesAll model locals before ++ sites model (boundAfterAll model locals before) body

def sitesOption (model : Model) (locals : Locals) : Option Stmt → List Site
  | none => []
  | some branch => sites model (locals.push .block) branch

def sitesAll (model : Model) (locals : Locals) : List Stmt → List Site
  | [] => []
  | stmt :: rest => sites model locals stmt ++ sitesAll model (boundAfter model locals stmt) rest

end

/-- Variables with the operands in their initial values in variables. -/
def threadedDecls (model : Model) (next : Nat) : List VariableDecl → List VariableDecl
  | [] => []
  | decl :: rest =>
    { decl with init := decl.init.map (threaded model next) } ::
      threadedDecls model (next + (decl.init.elim [] (operands model)).length) rest

mutual

/-- The statement with its operands in variables, numbered from the given number on. The variables
of the statement's own expressions are declared right before it. -/
def materialized (model : Model) (locals : Locals) (next : Nat) : Stmt → Stmt
  | .vars span kind decls =>
    stage (declarations model next (declSites model locals decls))
      (.vars span kind (threadedDecls model next decls))
  | .expr span value =>
    stage (declarations model next (exprSites model locals value))
      (.expr span (threaded model next value))
  | .ret span value =>
    stage (declarations model next (optionSites model locals value))
      (.ret span (value.map (threaded model next)))
  | .ifElse span condition thenBranch elseBranch =>
    let atThen := next + (exprSites model locals condition).length
    let atElse := atThen + (sites model (locals.push .block) thenBranch).length
    stage (declarations model next (exprSites model locals condition))
      (.ifElse span (threaded model next condition)
        (materialized model (locals.push .block) atThen thenBranch)
        (materializedOption model locals atElse elseBranch))
  | .loop span condition body =>
    let atBody := next + (exprSites model locals condition).length
    stage (declarations model next (exprSites model locals condition))
      (.loop span (threaded model next condition)
        (materialized model (locals.push .loop) atBody body))
  | .brk span => .brk span
  | .cont span => .cont span
  | .block span body => .block span (materializedAll model (locals.push .block) next body)
  | .staged span before body =>
    restage span (materializedAll model locals next before)
      (materialized model (boundAfterAll model locals before)
        (next + (sitesAll model locals before).length) body)

def materializedOption (model : Model) (locals : Locals) (next : Nat) : Option Stmt → Option Stmt
  | none => none
  | some branch => some (materialized model (locals.push .block) next branch)

def materializedAll (model : Model) (locals : Locals) (next : Nat) : List Stmt → List Stmt
  | [] => []
  | stmt :: rest =>
    materialized model locals next stmt ::
      materializedAll model (boundAfter model locals stmt)
        (next + (sites model locals stmt).length) rest

end

section Walks

variable {model : Model}

/-- A walk has moved on past its sites. -/
def Walks (model : Model) (sites : List Site) {α : Type} (step : Walk.StmtM α) (locals : Locals)
    (next : Nat) (result : α) (after : Locals) : Prop :=
  Settles model sites step ⟨locals, next⟩ result ⟨after, next + sites.length⟩

theorem Walks.pure {α : Type} (locals : Locals) (next : Nat) (result : α) :
    Walks model [] (pure result) locals next result locals := rfl

theorem Walks.bind {α β : Type} {step : Walk.StmtM α} {rest : α → Walk.StmtM β}
    {sites more : List Site} {locals between after : Locals} {next later : Nat} {value : α}
    {result : β} (h : Walks model sites step locals next value between)
    (hlater : later = next + sites.length)
    (h' : Walks model more (rest value) between later result after) :
    Walks model (sites ++ more) (step >>= rest) locals next result after := by
  subst hlater
  have hbind := Settles.bind h h'
  rwa [Nat.add_assoc, ← List.length_append] at hbind

theorem Walks.bindPure {α β : Type} {step : Walk.StmtM α} {sites : List Site}
    {locals after : Locals} {next : Nat} {value : α}
    (h : Walks model sites step locals next value after) (build : α → β) :
    Walks model sites (step >>= fun value => Pure.pure (build value)) locals next (build value)
      after :=
  Settles.bindPure h

theorem walks_inFrame {α : Type} {walk : Walk.StmtM α} {sites : List Site} {locals after : Locals}
    {next : Nat} {result : α} (kind : FrameKind)
    (h : Walks model sites walk (locals.push kind) next result after) :
    Walks model sites (Walk.inFrame kind walk) locals next result locals := by
  unfold Walks Settles at h ⊢
  change ((walk.run ⟨locals.push kind, next⟩ >>= fun reached => _) : Lowered _) = _
  rw [h]
  cases allNamed model sites <;> rfl

theorem walks_stmts {body : List Stmt}
    (h : ∀ stmt ∈ body, ∀ locals next, Walks model (sites model locals stmt)
      (Walk.stmt model (materializeCall model) stmt) locals next (materialized model locals next stmt)
      (boundAfter model locals stmt)) (locals : Locals) (next : Nat) :
    Walks model (sitesAll model locals body) (Walk.stmts model (materializeCall model) body) locals
      next (materializedAll model locals next body) (boundAfterAll model locals body) := by
  induction body generalizing locals next with
  | nil => exact .pure locals next []
  | cons stmt rest ih =>
    have hrest := ih fun other hm => h other (by simp [hm])
    exact (h stmt (by simp) locals next).bind rfl ((hrest _ _).bindPure (_ :: ·))

theorem walks_elseStmt {elseBranch : Option Stmt}
    (h : ∀ branch, elseBranch = some branch → ∀ locals next, Walks model (sites model locals branch)
      (Walk.stmt model (materializeCall model) branch) locals next
      (materialized model locals next branch) (boundAfter model locals branch))
    (locals : Locals) (next : Nat) :
    Walks model (sitesOption model locals elseBranch)
      (Walk.elseStmt model (materializeCall model) elseBranch) locals next
      (materializedOption model locals next elseBranch) locals := by
  cases elseBranch with
  | none => exact .pure locals next none
  | some branch => exact (walks_inFrame .block (h branch rfl _ _)).bindPure some

end Walks

section TypedWalks

variable {model : Model} [model.Typed]

theorem walks_atPoint (locals : Locals) (next : Nat) (value : Expr) :
    Walks model (exprSites model locals value) (Walk.atPoint (materializeCall model) value) locals
      next (threaded model next value, declarations model next (exprSites model locals value))
      locals := by
  have hvisit := @visits_expr model _ locals value next []
  unfold Settles at hvisit
  unfold Walks Settles
  simp only [Walk.atPoint, StateT.run_bind, StateT.run_get, pure_bind, hvisit]
  cases allNamed model (exprSites model locals value) <;> rfl

theorem walks_atPointOption (locals : Locals) (next : Nat) (value : Option Expr) :
    Walks model (optionSites model locals value) (Walk.atPointOption (materializeCall model) value)
      locals next (value.map (threaded model next),
        declarations model next (optionSites model locals value)) locals := by
  cases value with
  | none => exact .pure locals next (none, [])
  | some value => exact (walks_atPoint locals next value).bindPure fun walked => (some walked.1, walked.2)

/-- The type of a variable is the same before and after. -/
theorem declareLocal_threaded (locals : Locals) (next : Nat) (decl : VariableDecl) :
    declareLocal model locals { decl with init := decl.init.map (threaded model next) }
      = declareLocal model locals decl := by
  unfold declareLocal Model.declaredType
  cases decl.type with
  | some node => rfl
  | none =>
    cases decl.init with
    | none => rfl
    | some init => simp only [Option.map_some, (kept_threaded init next).type]

theorem walks_varDecl (locals : Locals) (next : Nat) (decl : VariableDecl) :
    Walks model (optionSites model locals decl.init)
      (Walk.varDecl model (materializeCall model) decl) locals next
      ({ decl with init := decl.init.map (threaded model next) },
        declarations model next (optionSites model locals decl.init))
      (declareLocal model locals decl) := by
  have hinit := @walks_atPointOption model _ locals next decl.init
  rw [← declareLocal_threaded locals next decl]
  unfold Walks Settles at hinit ⊢
  simp only [Walk.varDecl, StateT.run_bind, hinit]
  unfold declareLocal
  cases allNamed model (optionSites model locals decl.init) with
  | error err => rfl
  | ok _ => cases decl.name <;> rfl

theorem walks_varDecls (decls : List VariableDecl) (locals : Locals) (next : Nat) :
    Walks model (declSites model locals decls) (Walk.varDecls model (materializeCall model) decls)
      locals next
      (threadedDecls model next decls, declarations model next (declSites model locals decls))
      (decls.foldl (declareLocal model) locals) := by
  induction decls generalizing locals next with
  | nil => exact .pure locals next ([], [])
  | cons decl rest ih =>
    have hlength : (decl.init.elim [] (operands model)).length
        = (optionSites model locals decl.init).length := by
      cases decl.init with
      | none => rfl
      | some init => simp [optionSites, exprSites]
    simp only [threadedDecls, hlength, declSites, declarations_append]
    exact (walks_varDecl locals next decl).bind rfl ((ih _ _).bindPure fun walked =>
      (_ :: walked.1, _ ++ walked.2))

theorem walks_stmt (statement : Stmt) : ∀ locals next, Walks model (sites model locals statement)
    (Walk.stmt model (materializeCall model) statement) locals next
    (materialized model locals next statement) (boundAfter model locals statement) := by
  induction statement using Stmt.ind with
  | vars span kind decls =>
    intro locals next
    exact (walks_varDecls decls locals next).bindPure fun walked =>
      stage walked.2 (.vars span kind walked.1)
  | expr span value =>
    intro locals next
    exact (walks_atPoint locals next value).bindPure fun walked =>
      stage walked.2 (.expr span walked.1)
  | ret span value =>
    intro locals next
    exact (walks_atPointOption locals next value).bindPure fun walked =>
      stage walked.2 (.ret span walked.1)
  | ifElse span condition thenBranch elseBranch hThen hElse =>
    intro locals next
    exact (walks_atPoint locals next condition).bind rfl
      ((walks_inFrame .block (hThen _ _)).bind rfl
        ((walks_elseStmt hElse locals _).bindPure fun walked => stage _ (.ifElse span _ _ walked)))
  | loop span condition body hBody =>
    intro locals next
    exact (walks_atPoint locals next condition).bind rfl
      ((walks_inFrame .loop (hBody _ _)).bindPure fun walked => stage _ (.loop span _ walked))
  | brk span => exact fun locals next => .pure locals next _
  | cont span => exact fun locals next => .pure locals next _
  | block span body hBody =>
    intro locals next
    exact (walks_inFrame .block (walks_stmts hBody _ next)).bindPure (Stmt.block span)
  | staged span before body hBefore hBody =>
    intro locals next
    exact (walks_stmts hBefore locals next).bind rfl ((hBody _ _).bindPure (restage span _))

end TypedWalks

/-- **The pass as a function.** It fails at the first operand whose type has no name; otherwise every
operand that needs a variable has one. -/
theorem run_eq (model : Model) [model.Typed] (locals : Locals) (body : List Stmt) :
    run model locals body
      = (allNamed model (sitesAll model locals body)).map fun _ =>
          materializedAll model locals 1 body := by
  have hwalks : Walks model (sitesAll model locals body) _ locals 1 _ _ :=
    walks_stmts (fun stmt _ => walks_stmt stmt) locals 1
  change Except.map Prod.fst ((Walk.stmts model (materializeCall model) body).run ⟨locals, 1⟩) = _
  rw [hwalks]
  cases allNamed model (sitesAll model locals body) <;> rfl

end NativeLowering.Address
