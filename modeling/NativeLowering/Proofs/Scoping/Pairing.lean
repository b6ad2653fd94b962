import NativeLowering.Proofs.Receiver.Injection
import NativeLowering.Proofs.Scoping.Agreement
import NativeLowering.Proofs.Scoping.Operands

/-!
# An expression before the passes and as it is written

The logs of the injection of receivers and of the writing have the expressions of a body in the same
order. Here they are put next to each other (`functionLike_pairs`): an expression gets its explicit
receivers, its operands get their variables, and what is written is the result (`Paired`). The
bindings at the two places are the same, but for the variables of operands, and belong to members of
the same class.
-/

set_option autoImplicit false

namespace NativeLowering

/-- The bindings of what has been visited belong to a member of the class. -/
def LogOf {α : Type} (thisClass : Option String) (log : List (Visited α)) : Prop :=
  ∀ visited ∈ log, visited.locals.thisClass = thisClass

theorem LogOf.nil {α : Type} (thisClass : Option String) :
    LogOf thisClass ([] : List (Visited α)) := List.forall_mem_nil _

theorem LogOf.append {α : Type} {thisClass : Option String} {log more : List (Visited α)}
    (h : LogOf thisClass log) (h' : LogOf thisClass more) : LogOf thisClass (log ++ more) :=
  List.forall_mem_append.mpr ⟨h, h'⟩

/-! ## Walks stay in a member -/

namespace Walk

section Members

variable {α β : Type} {model : Model} {visit : Visit} {thisClass : Option String}

/-- A stretch of a walk through a member of the class. -/
def Within (thisClass : Option String) (step : StmtM (α × Log)) : Prop :=
  ∀ (point after : Point) (entry : α × Log), point.locals.thisClass = thisClass →
    step.run point = .ok (entry, after) → after.locals.thisClass = thisClass ∧ LogOf thisClass entry.2

theorem Within.pure {value : α} {log : Log} (h : LogOf thisClass log) :
    Within thisClass (Pure.pure (value, log)) := by
  intro point after entry hpoint hrun
  obtain ⟨rfl, rfl⟩ := Lowered.run_pure.mp hrun
  exact ⟨hpoint, h⟩

theorem Within.bind {first : StmtM (α × Log)} {next : α × Log → StmtM (β × Log)}
    (h : Within thisClass first)
    (hnext : ∀ entry, LogOf thisClass entry.2 → Within thisClass (next entry)) :
    Within thisClass (first >>= next) := by
  intro point after entry hpoint hrun
  obtain ⟨found, between, hfirst, hrest⟩ := Lowered.run_bind.mp hrun
  obtain ⟨hbetween, hlog⟩ := h _ _ _ hpoint hfirst
  exact hnext found hlog _ _ _ hbetween hrest

theorem Within.inFrame {step : StmtM (α × Log)} (h : Within thisClass step) (kind : FrameKind) :
    Within thisClass (inFrame kind step) := by
  intro point after entry hpoint hrun
  obtain ⟨inner, hstep, rfl⟩ := run_inFrame.mp hrun
  exact ⟨hpoint, (h ⟨point.locals.push kind, point.next⟩ inner entry hpoint hstep).2⟩

theorem atPointLogged_within (value : Expr) : Within thisClass (atPointLogged visit value) := by
  intro point after entry hpoint hrun
  simp only [atPointLogged, Lowered.run_bind, Lowered.run_get, Lowered.run_pure] at hrun
  obtain ⟨_, _, ⟨rfl, rfl⟩, _, _, hvisit, rfl, rfl⟩ := hrun
  obtain ⟨last, -, rfl⟩ := run_atPoint.mp hvisit
  exact ⟨hpoint, List.forall_mem_singleton.mpr hpoint⟩

theorem atPointOptionLogged_within : ∀ value : Option Expr,
    Within thisClass (atPointOptionLogged visit value)
  | none => .pure (.nil thisClass)
  | some value => (atPointLogged_within value).bind fun _ hlog => .pure hlog

theorem varDeclLogged_within (decl : VariableDecl) :
    Within thisClass (varDeclLogged model visit decl) := by
  refine (atPointOptionLogged_within decl.init).bind ?_
  rintro ⟨⟨init, before⟩, log⟩ hlog
  dsimp only
  cases decl.name.ident? with
  | none => exact .pure hlog
  | some name =>
    intro point after entry hpoint hrun
    cases hrun
    exact ⟨(Locals.declare_thisClass _ _ _).trans hpoint, hlog⟩

theorem varDeclsLogged_within : ∀ decls : List VariableDecl,
    Within thisClass (varDeclsLogged model visit decls)
  | [] => .pure (.nil thisClass)
  | decl :: rest => (varDeclLogged_within decl).bind fun _ hfirst =>
    (varDeclsLogged_within rest).bind fun _ hsecond => .pure (hfirst.append hsecond)

mutual

theorem stmtLogged_within : ∀ statement : Stmt, Within thisClass (stmtLogged model visit statement)
  | .vars span kind decls => by
    rw [stmtLogged]
    exact (varDeclsLogged_within decls).bind fun _ hlog => .pure hlog
  | .expr span value => by
    rw [stmtLogged]
    exact (atPointLogged_within value).bind fun _ hlog => .pure hlog
  | .ret span value => by
    rw [stmtLogged]
    exact (atPointOptionLogged_within value).bind fun _ hlog => .pure hlog
  | .ifElse span condition thenBranch elseBranch => by
    rw [stmtLogged]
    exact (atPointLogged_within condition).bind fun _ hfirst =>
      ((stmtLogged_within thenBranch).inFrame .block).bind fun _ hsecond =>
      (elseLogged_within elseBranch).bind fun _ hthird =>
        .pure (hfirst.append (hsecond.append hthird))
  | .loop span condition body => by
    rw [stmtLogged]
    exact (atPointLogged_within condition).bind fun _ hfirst =>
      ((stmtLogged_within body).inFrame .loop).bind fun _ hsecond => .pure (hfirst.append hsecond)
  | .brk span => by
    rw [stmtLogged]
    exact .pure (.nil thisClass)
  | .cont span => by
    rw [stmtLogged]
    exact .pure (.nil thisClass)
  | .block span body => by
    rw [stmtLogged]
    exact ((stmtsLogged_within body).inFrame .block).bind fun _ hlog => .pure hlog
  | .staged span before body => by
    rw [stmtLogged]
    exact (stmtsLogged_within before).bind fun _ hfirst =>
      (stmtLogged_within body).bind fun _ hsecond => .pure (hfirst.append hsecond)

theorem elseLogged_within : ∀ branch : Option Stmt,
    Within thisClass (elseLogged model visit branch)
  | none => by
    rw [elseLogged]
    exact .pure (.nil thisClass)
  | some branch => by
    rw [elseLogged]
    exact ((stmtLogged_within branch).inFrame .block).bind fun _ hlog => .pure hlog

theorem stmtsLogged_within : ∀ body : List Stmt, Within thisClass (stmtsLogged model visit body)
  | [] => by
    rw [stmtsLogged]
    exact .pure (.nil thisClass)
  | head :: rest => by
    rw [stmtsLogged]
    exact (stmtLogged_within head).bind fun _ hfirst =>
      (stmtsLogged_within rest).bind fun _ hsecond => .pure (hfirst.append hsecond)

end

/-- All of a body is walked in the member that it belongs to. -/
theorem bodyLogged_within {locals : Locals} {statements result : List Stmt} {log : Log}
    (h : bodyLogged model visit locals statements = .ok (result, log)) :
    LogOf locals.thisClass log := by
  change Except.map Prod.fst ((stmtsLogged model visit statements).run ⟨locals, 1⟩) = _ at h
  obtain ⟨⟨_, after⟩, hrun, rfl⟩ := Lowered.map_eq_ok.mp h
  exact (stmtsLogged_within statements _ _ _ rfl hrun).2

end Members

end Walk

/-! ## Writing stays in a member -/

namespace Emit

section Members

variable {cx : Context} {thisClass : Option String}

/-- A step of writing in a member of the class. -/
def Within (thisClass : Option String) (step : Emit (Unit × Log)) : Prop :=
  ∀ (session after : Session) (log : Log),
    (bindings? session).map Locals.thisClass = some thisClass → Gives step session ((), log) after →
    (bindings? after).map Locals.thisClass = some thisClass ∧ LogOf thisClass log

/-- A step that leaves the class alone. -/
def Inside {α : Type} (step : Emit α) : Prop :=
  ∀ (session after : Session) (value : α), Gives step session value after →
    (bindings? after).map Locals.thisClass = (bindings? session).map Locals.thisClass

theorem Silent.inside {α : Type} {step : Emit α} (h : Silent step) : Inside step := by
  intro session after value hgives
  rw [h _ _ _ hgives]

theorem inside_lift {α : Type} (result : Lowered α) : Inside (liftM result : Emit α) := by
  intro session after value h
  obtain ⟨-, rfl⟩ := gives_lift.mp h
  rfl

theorem inside_onLocals (span : Span) {change : Locals → Locals}
    (h : ∀ locals, (change locals).thisClass = locals.thisClass) : Inside (onLocals span change) := by
  intro session after value hgives
  obtain ⟨current, hopen, rfl⟩ := gives_onLocals.mp hgives
  rw [bindings?, bindings?, hopen]
  exact congrArg some (h current.locals)

theorem within_nothing : Within thisClass (pure ((), [])) := by
  intro session after log hsession h
  cases h
  exact ⟨hsession, .nil thisClass⟩

theorem Within.after {α : Type} {step : Emit α} {next : α → Emit (Unit × Log)} (hstep : Inside step)
    (hnext : ∀ value, Within thisClass (next value)) : Within thisClass (step >>= next) := by
  intro session after log hsession h
  obtain ⟨value, between, hfirst, hrest⟩ := gives_bind.mp h
  exact hnext value _ _ _ ((hstep _ _ _ hfirst).trans hsession) hrest

theorem Within.last {logged : Emit (Unit × Log)} {step : Emit Unit} (h : Within thisClass logged)
    (hstep : Inside step) :
    Within thisClass (logged >>= fun entry => step >>= fun _ => pure ((), entry.2)) := by
  intro session after log hsession hgives
  obtain ⟨⟨_, log⟩, between, hfirst, hrest⟩ := gives_bind.mp hgives
  obtain ⟨_, _, hlast, hpure⟩ := gives_bind.mp hrest
  cases hpure
  obtain ⟨hbetween, hlog⟩ := h _ _ _ hsession hfirst
  exact ⟨(hstep _ _ _ hlast).trans hbetween, hlog⟩

theorem Within.andThen {logged logged' : Emit (Unit × Log)} (h : Within thisClass logged)
    (h' : Within thisClass logged') :
    Within thisClass (logged >>= fun entry => logged' >>= fun entry' =>
      pure ((), entry.2 ++ entry'.2)) := by
  intro session after log hsession hgives
  obtain ⟨⟨_, log⟩, between, hfirst, hrest⟩ := gives_bind.mp hgives
  obtain ⟨⟨_, more⟩, _, hsecond, hpure⟩ := gives_bind.mp hrest
  cases hpure
  obtain ⟨hbetween, hlog⟩ := h _ _ _ hsession hfirst
  obtain ⟨hafter, hmore⟩ := h' _ _ _ hbetween hsecond
  exact ⟨hafter, hlog.append hmore⟩

theorem Within.asStatement {step : Emit (Unit × Log)} (h : Within thisClass step) :
    Within thisClass (asStatementLogged step) := by
  intro session after log hsession hgives
  simp only [asStatementLogged, gives_bind, gives_pushStatement, gives_attempt, gives_ofLowered,
    gives_pure] at hgives
  obtain ⟨_, _, rfl, _, inner, hstep, _, _, hpop, ⟨_, found⟩, _, ⟨rfl, rfl⟩, _, _, ⟨rfl, rfl⟩, hlog,
    rfl⟩ := hgives
  obtain rfl : log = found := congrArg Prod.snd hlog
  obtain ⟨hinner, hlog⟩ := h (opened session) _ _ hsession hstep
  exact ⟨(silent_popStatement.inside _ _ _ hpop).trans hinner, hlog⟩

theorem Within.inPrelude {step : Emit (Unit × Log)} (h : Within thisClass step) :
    Within thisClass (inPrelude step) := by
  intro session after log hsession hgives
  obtain ⟨stage, stages, inner, next, outer, newStage, newStages, -, hstep, -, -, rfl⟩ :=
    gives_inPrelude.mp hgives
  exact h (preluding session stage stages) inner _ hsession hstep

theorem inside_indent : Inside indent := by
  intro session after value h
  obtain rfl := gives_indent.mp h
  rfl

theorem inside_dedent : Inside dedent := by
  intro session after value h
  obtain rfl := gives_dedent.mp h
  rfl

theorem Within.braced {step : Emit (Unit × Log)} (h : Within thisClass step) (span : Span)
    (kind : FrameKind) : Within thisClass (bracedLogged span kind step) := by
  have hpop (locals : Locals) : locals.pop.2.thisClass = locals.thisClass := by
    unfold Locals.pop
    cases locals.frames <;> rfl
  have hclose : Inside (do
      onLocals span fun locals => locals.pop.2
      dedent
      append "\x7d" .line) := by
    intro session after value hgives
    obtain ⟨_, between, hlocals, hrest⟩ := gives_bind.mp hgives
    obtain ⟨_, last, hdedent, happend⟩ := gives_bind.mp hrest
    rw [(silent_append _ _).inside _ _ _ happend, inside_dedent _ _ _ hdedent,
      inside_onLocals span hpop _ _ _ hlocals]
  refine .after (silent_append _ _).inside fun _ => .after inside_indent fun _ =>
    .after (inside_onLocals span fun _ => rfl) fun _ => ?_
  have hall := h.last hclose
  simp only [bind_assoc] at hall
  exact hall

theorem within_expr (value : Expr) : Within thisClass (exprLogged cx value) := by
  intro session after log hsession h
  obtain ⟨locals, hlocals, hthis⟩ := Option.map_eq_some_iff.mp hsession
  obtain ⟨current, hcurrent, rfl⟩ := Option.map_eq_some_iff.mp hlocals
  obtain ⟨rfl, text, rfl⟩ := gives_exprLogged hcurrent h
  exact ⟨hsession, List.forall_mem_singleton.mpr hthis⟩

theorem initializedLogged_within (introduction : String) (init : Expr) :
    Within thisClass (initializedLogged cx introduction init) :=
  .after (silent_append _ _).inside fun _ => (within_expr init).last (silent_append _ _).inside

theorem placedLogged_within (kind : VariableKind) (decl : VariableDecl) (name type : String) :
    Within thisClass (placedLogged cx kind decl name type) := by
  unfold placedLogged
  cases decl.init with
  | none =>
    cases kind with
    | varKind => exact .after (silent_hoist _ _).inside fun _ => within_nothing
    | letKind | constKind => exact .after (silent_append _ _).inside fun _ => within_nothing
  | some init =>
    cases kind with
    | varKind => exact .after (silent_hoist _ _).inside fun _ => initializedLogged_within name init
    | letKind | constKind => exact initializedLogged_within _ init

theorem variableDeclLogged_within (kind : VariableKind) (decl : VariableDecl) :
    Within thisClass (variableDeclLogged cx kind decl) :=
  .after (inside_lift _) fun name => .after (inside_lift _) fun _ =>
    .after (silent_typeString _).inside fun _ => (placedLogged_within kind decl name _).last
      (inside_onLocals _ fun locals => locals.declare_thisClass name _)

theorem variableDeclsLogged_within (kind : VariableKind) : ∀ decls : List VariableDecl,
    Within thisClass (variableDeclsLogged cx kind decls)
  | [] => within_nothing
  | decl :: rest =>
    (variableDeclLogged_within kind decl).andThen (variableDeclsLogged_within kind rest)

theorem headLogged_within (word : String) (condition : Expr) :
    Within thisClass (headLogged cx word condition) :=
  .after (silent_append _ _).inside fun _ => (within_expr condition).last (silent_append _ _).inside

theorem branchLogged_within {stmt : Stmt} (kind : FrameKind) {step : Emit (Unit × Log)}
    (h : Within thisClass step) : Within thisClass (branchLogged stmt kind step) := by
  unfold branchLogged
  split
  · exact h
  · exact h.asStatement.braced _ kind

mutual

theorem contentLogged_within : ∀ stmt : Stmt, Within thisClass (contentLogged cx stmt)
  | .vars _ kind decls => by
    rw [contentLogged]
    exact variableDeclsLogged_within kind decls
  | .expr _ value => by
    rw [contentLogged]
    exact (within_expr value).last (silent_append _ _).inside
  | .ret _ none => by
    rw [contentLogged]
    exact .after (silent_append _ _).inside fun _ => within_nothing
  | .ret _ (some value) => by
    rw [contentLogged]
    exact .after (silent_append _ _).inside fun _ =>
      (within_expr value).last (silent_append _ _).inside
  | .ifElse _ condition thenBranch elseBranch => by
    rw [contentLogged]
    have hthen : Within thisClass (branchLogged thenBranch .block (contentLogged cx thenBranch)) :=
      branchLogged_within .block (contentLogged_within thenBranch)
    have hhead : Within thisClass (headLogged cx "if" condition) := headLogged_within "if" condition
    have hall := hhead.andThen (hthen.andThen (elseLogged_within elseBranch))
    simp only [bind_assoc, pure_bind] at hall
    exact hall
  | .loop _ condition body => by
    rw [contentLogged]
    exact (headLogged_within "while" condition).andThen
      (branchLogged_within .loop (contentLogged_within body))
  | .brk _ => by
    rw [contentLogged]
    exact .after (silent_append _ _).inside fun _ => within_nothing
  | .cont _ => by
    rw [contentLogged]
    exact .after (silent_append _ _).inside fun _ => within_nothing
  | .block span body => by
    rw [contentLogged]
    exact (stmtsLogged_within body).braced span .block
  | .staged _ before body => by
    rw [contentLogged]
    exact (stmtsLogged_within before).inPrelude.andThen (contentLogged_within body)

theorem elseLogged_within : ∀ branch : Option Stmt, Within thisClass (elseLogged cx branch)
  | none => by
    rw [elseLogged]
    exact within_nothing
  | some branch => by
    rw [elseLogged]
    exact .after (silent_append _ _).inside fun _ =>
      branchLogged_within .block (contentLogged_within branch)

theorem stmtsLogged_within : ∀ body : List Stmt, Within thisClass (stmtsLogged cx body)
  | [] => by
    rw [stmtsLogged]
    exact within_nothing
  | stmt :: rest => by
    rw [stmtsLogged]
    exact (contentLogged_within stmt).asStatement.andThen (stmtsLogged_within rest)

end

end Members

end Emit

/-! ## Pairs -/

theorem forall₂_both {α β : Type} {R S : α → β → Prop} :
    ∀ {first : List α} {second : List β}, List.Forall₂ R first second → List.Forall₂ S first second →
      List.Forall₂ (fun value result => R value result ∧ S value result) first second
  | _, _, .nil, .nil => .nil
  | _, _, .cons h hrest, .cons h' hrest' => .cons ⟨h, h'⟩ (forall₂_both hrest hrest')

/-- The expression with its operands in variables, which are in scope, if that pass is selected. -/
def PassSet.Materializes (passes : PassSet) (model : Model) (locals : Locals) (visible : Bindings)
    (value result : Expr) : Prop :=
  if passes.materialize then
    ∃ next, result = Address.threaded model next value ∧
      Address.HeldAll model locals visible next value
  else result = value

/-- An expression as the injection of receivers meets it and as it is written. -/
structure Paired (passes : PassSet) (model : Model) (visited : Visited Expr)
    (written : Occurrence Expr) : Prop where
  lowered : ∃ injected, Receiver.Injected model visited.locals visited.node injected ∧
    passes.Materializes model visited.locals written.visible injected written.node
  visible : Inserted (fun binding => passes.materialize = true ∧ IsTemporary binding)
    visited.locals.visible written.visible

section Pairs

variable {passes : PassSet} {model : Model} {policy : DestructorPolicy} {locals : Locals}

theorem Receiver.injected_of_run {value result : Expr} {pending after : Walk.Pending}
    (h : (Walk.expr (injecting model locals) value).run pending = .ok (result, after)) :
    Injected model locals value result := by
  have hvisit := @visits_expr model locals value pending
  rw [h] at hvisit
  exact hvisit.1

/-- What the injection meets goes in pairs with the expressions of the body that is left. -/
theorem PassSet.runLogged_pairs [model.Typed] (hopen : locals.Open)
    (hreceiver : passes.receiver = true) {body lowered : List Stmt} {log : Log}
    (hall : Stmt.AllList (fun _ => True) (fun _ type => type.isSome) lowered)
    (h : passes.runLogged model policy locals body = .ok (lowered, log)) :
    List.Forall₂ (Paired passes model) log.receiver
        ((Stmt.valuesAll model lowered).found locals.visible) ∧
      LogOf locals.thisClass log.receiver := by
  obtain ⟨⟨injected, receiver⟩, (hinjected : Walk.selectedLogged passes.receiver model
    (Receiver.injecting model) locals (cleanedLogged passes model policy locals body).1
      = .ok (injected, receiver)), h⟩ := Lowered.bind_eq_ok.mp h
  obtain ⟨⟨lowered, address⟩, hlowered, h⟩ := Lowered.bind_eq_ok.mp h
  cases h
  have hall' := Walk.selectedLogged_annotated hlowered hall
  have hall'' := Walk.selectedLogged_annotated hinjected hall'
  rw [hreceiver] at hinjected
  obtain ⟨_, hwalked⟩ :=
    Walk.bodyLogged_walked (Receiver.injecting_declares model) hopen hall'' hinjected
  have hwithin : LogOf locals.thisClass receiver := Walk.bodyLogged_within hinjected
  refine ⟨?_, hwithin⟩
  -- The injection asks for nothing, so the scopes behind it are those before it.
  have hinject : List.Forall₂ (fun visited there =>
      there.visible = visited.locals.visible ∧
        Receiver.Injected model visited.locals visited.node there.node)
      receiver ((Stmt.valuesAll model injected).found locals.visible) := by
    refine (hwalked.rewritten (.refl _)).imp fun visited there hrewritten => ?_
    obtain ⟨next, pending, hrun⟩ := hrewritten.value
    exact ⟨hrewritten.visible.eq_of_not fun _ h => h, Receiver.injected_of_run hrun⟩
  cases hselected : passes.materialize with
  | false =>
    rw [hselected] at hlowered
    cases hlowered
    refine hinject.imp fun visited there h => ⟨⟨there.node, h.2, ?_⟩, h.1 ▸ .refl _⟩
    rw [Materializes, hselected]
    rfl
  | true =>
    rw [hselected] at hlowered
    obtain ⟨_, hmaterialize⟩ :=
      Walk.bodyLogged_walked (Address.materializeCall_declares model) hopen hall' hlowered
    -- What the second walk meets, with what it leaves and with the variables it puts in scope.
    have hrewritten := hmaterialize.rewritten (.refl _)
    have hprovides := Walk.bodyLogged_provides (Address.materializeCall_declares model) hlowered
      locals.visible
    have hclass : LogOf locals.thisClass address := Walk.bodyLogged_within hlowered
    rw [← hmaterialize.occurrences, List.forall₂_map_right_iff] at hinject
    have hboth := forall₂_both hrewritten hprovides
    have hfirst := (List.forall₂_and_left _ _).mpr ⟨hwithin, hinject⟩
    have hsecond := (List.forall₂_and_left _ _).mpr ⟨hclass, hboth⟩
    refine (forall₂_comp hfirst hsecond).imp fun visited written h => ?_
    obtain ⟨between, ⟨hvisited, hvisible, hbetween⟩, hthere, hresult, hheld⟩ := h
    obtain ⟨next, hnode, hheld⟩ := Address.provides_threaded hheld
    refine ⟨⟨between.node, hbetween, ?_⟩, ?_⟩
    · rw [Materializes, if_pos hselected]
      exact ⟨next, hnode, hheld.congr hvisible.symm (hvisited.trans hthere.symm)⟩
    · rw [← hvisible]
      exact hresult.visible.imp fun _ h => ⟨hselected, h⟩

end Pairs

namespace Emit

variable {cx : Context}

theorem paramRecords_thisClass : ∀ {params : List Param} {locals after : Locals}
    {records : List ParamRecord}, paramRecords cx locals params = .ok (records, after) →
    after.thisClass = locals.thisClass
  | [], _, _, _, h => by
    cases h
    rfl
  | param :: rest, locals, after, _, h => by
    obtain ⟨⟨record, between⟩, hparam, h⟩ := Lowered.bind_eq_ok.mp h
    obtain ⟨⟨records, last⟩, hrest, h⟩ := Lowered.bind_eq_ok.mp h
    cases h
    obtain ⟨name, hname, hparam⟩ := Lowered.bind_eq_ok.mp hparam
    obtain ⟨node, hnode, hparam⟩ := Lowered.bind_eq_ok.mp hparam
    obtain ⟨type, -, hparam⟩ := Lowered.bind_eq_ok.mp hparam
    obtain ⟨default, -, hparam⟩ := Lowered.bind_eq_ok.mp hparam
    cases hparam
    exact (paramRecords_thisClass hrest).trans (locals.declare_thisClass name _)

/-- The body is written in the member that is open. -/
theorem functionBodyLogged_within {session after : Session} {current : OpenFunction}
    {body : List Stmt} {span : Span} {log : FunctionLog} (hopen : session.openFunction = some current)
    (h : Gives (functionBodyLogged cx body span) session ((), log) after) :
    LogOf current.locals.thisClass log.emit := by
  simp only [functionBodyLogged, gives_bind, gives_lift, gives_theLocals, gives_pure] at h
  obtain ⟨_, _, ⟨found, hfound, rfl, rfl⟩, ⟨lowered, passes⟩, _, ⟨hlowered, rfl⟩,
    ⟨⟨_, emit⟩, written⟩, between, hscope, _, _, -, hlog, -⟩ := h
  obtain rfl : found = current := Option.some.inj (hfound.symm.trans hopen)
  cases hlog
  obtain ⟨inner, next, outer, hstmts, -⟩ := gives_inScope.mp hscope
  refine (stmtsLogged_within lowered _ inner emit ?_ hstmts).2
  rw [bindings?, hopen]
  rfl

/-- What the injection of receivers meets of a function goes in pairs with what is written of it, in
a member of the same class. -/
theorem functionLike_pairs [cx.model.Typed] {session after : Session} {shape : FunctionShape}
    {span : Span} (hidle : Idle cx session) (hreceiver : cx.options.passes.receiver = true)
    (hgives : Gives (functionLike cx shape span) session () after) :
    ∃ log, Gives (functionLikeLogged cx shape span) session ((), log) after ∧
      List.Forall₂ (fun visited written =>
          Paired cx.options.passes cx.model visited written.occurrence ∧
          visited.locals.thisClass = shape.thisClass ∧
          written.locals.thisClass = shape.thisClass)
        log.passes.receiver log.emit := by
  obtain ⟨log, hlogged⟩ := hgives.logged (functionLikeLogged_erases shape span)
  refine ⟨log, hlogged, ?_⟩
  -- What is written is annotated.
  obtain ⟨_, hrecord, -⟩ := functionLike_gives hidle hgives
  obtain ⟨_, locals, lowered, draft, hparams, hlowered, hdraft, -⟩ :=
    functionRecordWith_eq_ok.mp hrecord
  simp only [functionLikeLogged, gives_bind, gives_beginFunction, gives_pure] at hlogged
  obtain ⟨_, _, ⟨-, rfl⟩, _, _, hentered, ⟨_, found⟩, _, hbody, _, _, -, hlog, -⟩ := hlogged
  cases hlog
  obtain ⟨_, _, hrecords, rfl⟩ := params_gives (by exact hidle.layout) rfl hentered
  cases hparams.symm.trans hrecords
  obtain ⟨hframe, -⟩ := paramRecords_visible (.start shape.thisClass) hparams
  have hclass : locals.thisClass = shape.thisClass := paramRecords_thisClass hparams
  obtain ⟨written, hpasses, hemit⟩ := functionBodyLogged_gives rfl hframe hbody
  have hwithin : LogOf locals.thisClass found.emit := functionBodyLogged_within rfl hbody
  have hwritten : loweredBody cx locals shape.body = .ok written :=
    (PassSet.runLogged_erases shape.body).eq_ok.mpr ⟨_, hpasses⟩
  cases hlowered.symm.trans hwritten
  obtain ⟨hpairs, hlogof⟩ :=
    PassSet.runLogged_pairs hframe hreceiver (Draft.stmts_annotated hdraft) hpasses
  rw [← hemit, List.forall₂_map_right_iff] at hpairs
  rw [hclass] at hwithin hlogof
  have hboth := (List.forall₂_and_left _ _).mpr ⟨hlogof, hpairs⟩
  have hall := (List.forall₂_and_left _ _).mpr ⟨hwithin, hboth.flip⟩
  exact hall.flip.imp fun visited written h => ⟨h.2.2, h.2.1, h.1⟩

end Emit

end NativeLowering
