import NativeLowering.Proofs.Address.Rewriting
import NativeLowering.Proofs.Cleanup.Bracing
import NativeLowering.Proofs.Cleanup.Insertion
import NativeLowering.Proofs.Emit.Annotated
import NativeLowering.Proofs.Emit.Outcome
import NativeLowering.Proofs.Pass.Condition
import NativeLowering.Proofs.Receiver.Defined
import NativeLowering.Proofs.Receiver.Injection
import NativeLowering.Proofs.Scoping.Pairing
import NativeLowering.Syntax.Build

/-!
# Where nothing is to be destroyed

If no variable of a body has a destructible type, the synthesis of destructor calls changes only the
braces of the body (`bracedAll_run`). Nothing after it looks at those, so a function is written alike
with the pass and without it (`functionRecord_switched`), and so is the whole program
(`generate_switched`).

The functions that take the receiver have bodies of their own, in which the current instance has
become a parameter. They are written after the methods they come from. So a body of theirs has an
annotation for every variable, and what an annotation means does not depend on the class around it
(`indestructible_of_annotated`).
-/

set_option autoImplicit false

namespace NativeLowering

open Address (Unstaged UnstagedAll boundAfter boundAfterAll)
open Cleanup (braced bracedAll bracedBranch)
open Lowered (InStep)
open Stmt (AllList)

namespace Cleanup

/-! ## Bodies without destructible variables -/

section Indestructible

variable (model : Model) (policy : DestructorPolicy)

/-- None of the variables has a destructible type where it is declared. -/
def IndestructibleDecls : Locals → List VariableDecl → Prop
  | _, [] => True
  | locals, decl :: rest =>
    (∀ name, decl.name.ident? = some name →
      isDestructible model policy (model.declaredType locals decl) = false) ∧
    IndestructibleDecls (declareLocal model locals decl) rest

mutual

/-- No variable declared in the statement has a destructible type where it is declared. -/
def Indestructible : Locals → Stmt → Prop
  | locals, .vars _ _ decls => IndestructibleDecls model policy locals decls
  | locals, .ifElse _ _ thenBranch elseBranch =>
    Indestructible (locals.push .block) thenBranch ∧ IndestructibleOption locals elseBranch
  | locals, .loop _ _ body => Indestructible (locals.push .loop) body
  | locals, .block _ body => IndestructibleAll (locals.push .block) body
  | locals, .staged _ before body =>
    IndestructibleAll locals before ∧ Indestructible (boundAfterAll model locals before) body
  | _, .expr .. | _, .ret .. | _, .brk _ | _, .cont _ => True

def IndestructibleOption : Locals → Option Stmt → Prop
  | _, none => True
  | locals, some branch => Indestructible (locals.push .block) branch

def IndestructibleAll : Locals → List Stmt → Prop
  | _, [] => True
  | locals, stmt :: rest =>
    Indestructible locals stmt ∧ IndestructibleAll (boundAfter model locals stmt) rest

end

end Indestructible

/-! ## What the pass does to them -/

section Untouched

variable {model : Model} {policy : DestructorPolicy} {scope : Scope} {locals : Locals}

/-- Where nothing is tracked an exit calls nothing. -/
theorem Scope.Within.exitCalls_eq_nil (h : scope.Within []) (exit : Exit) (span : Span) :
    scope.exitCalls exit span = [] := by
  rw [Scope.exitCalls, exitCalls_eq, List.subset_nil.mp (h.exitNames exit), List.map_nil]

theorem Scope.Within.endCalls_eq_nil (h : scope.Within []) (span : Span) :
    scope.endCalls span = [] := by
  obtain ⟨called, hsub, hcalls⟩ := h.endCalls span
  rw [hcalls, List.subset_nil.mp hsub, List.map_nil]

theorem Scope.declare_indestructible {decl : VariableDecl} (h : ∀ name, decl.name.ident? = some name →
      isDestructible model policy (model.declaredType scope.locals decl) = false) :
    scope.declare model policy decl
      = { scope with locals := declareLocal model scope.locals decl } := by
  unfold Scope.declare declareLocal
  cases hname : decl.name.ident? with
  | none => rfl
  | some name =>
    dsimp only
    rw [h name hname]
    rfl

theorem declares_nothing [model.Typed] (decls : List VariableDecl) :
    ∀ {scope : Scope} {locals : Locals},
    scope.Within [] → scope.locals.Reframed locals → IndestructibleDecls model policy locals decls →
      (decls.foldl (Scope.declare model policy) scope).Within [] ∧
      (decls.foldl (Scope.declare model policy) scope).locals.Reframed
        (decls.foldl (declareLocal model) locals) := by
  induction decls with
  | nil => exact fun hscope hlocals _ => ⟨hscope, hlocals⟩
  | cons decl rest ih =>
    intro scope locals hscope hlocals hdecls
    rw [List.foldl_cons, List.foldl_cons, Scope.declare_indestructible]
    · exact ih hscope (hlocals.declareLocal model decl) hdecls.2
    · intro name hname
      rw [← hlocals.declaredType]
      exact hdecls.1 name hname

/-- With nothing tracked the pass changes nothing but braces, and nothing is tracked after it. -/
def Untouched (model : Model) (policy : DestructorPolicy) (stmt : Stmt) : Prop :=
  ∀ (kind : FrameKind) {scope : Scope} {locals : Locals}, scope.Within [] →
    scope.locals.Reframed locals → Indestructible model policy locals stmt →
      braced (statement model policy scope kind stmt).1 = braced stmt ∧
      (statement model policy scope kind stmt).2.Within [] ∧
      (statement model policy scope kind stmt).2.locals.Reframed (boundAfter model locals stmt)

theorem statements_untouched {body : List Stmt}
    (h : ∀ stmt ∈ body, Unstaged stmt → Untouched model policy stmt) :
    ∀ {scope : Scope} {locals : Locals} (span : Span), UnstagedAll body → scope.Within [] →
      scope.locals.Reframed locals → IndestructibleAll model policy locals body →
        bracedAll (statements model policy scope span body) = bracedAll body := by
  induction body with
  | nil =>
    intro scope locals span _ hscope _ _
    rw [statements, hscope.endCalls_eq_nil]
  | cons stmt rest ih =>
    intro scope locals span hplain hscope hlocals hbody
    rw [statements]
    cases exitOf? stmt with
    | some exit =>
      dsimp only
      rw [hscope.exitCalls_eq_nil, List.nil_append]
    | none =>
      obtain ⟨hfirst, hbetween, hafter⟩ := h stmt (by simp) hplain.1 .block hscope hlocals hbody.1
      dsimp only
      rw [bracedAll, bracedAll, hfirst,
        ih (fun other hm => h other (by simp [hm])) stmt.span hplain.2 hbetween hafter hbody.2]

/-- A single branch gets braces, which it would get anyway. -/
theorem lone_untouched {branch : Stmt} (hb : branch.isBlock = false)
    (h : Untouched model policy branch) (hscope : scope.Within [])
    (hlocals : scope.locals.Reframed locals) (hbranch : Indestructible model policy locals branch) :
    bracedBranch (loneBlock scope branch (statement model policy scope .block branch))
      = bracedBranch branch := by
  have hkept := h .block hscope hlocals hbranch
  have hinner : ∃ inner,
      loneBlock scope branch (statement model policy scope .block branch)
        = .block branch.span [inner] ∧ braced inner = braced branch := by
    unfold loneBlock
    cases exitOf? branch with
    | some exit =>
      refine ⟨branch, ?_, rfl⟩
      dsimp only
      rw [hscope.exitCalls_eq_nil, List.nil_append]
    | none =>
      refine ⟨_, ?_, hkept.1⟩
      dsimp only
      rw [hkept.2.1.endCalls_eq_nil]
  obtain ⟨inner, hblock, hsame⟩ := hinner
  rw [hblock, bracedBranch, bracedBranch, hb]
  show Stmt.block _ (bracedAll [_]) = _
  rw [bracedAll, hsame]
  rfl

/-- A branch that is a block opens the frame itself. -/
theorem branch_untouched {branch : Stmt} (h : Untouched model policy branch) (kind : FrameKind)
    (hscope : scope.Within []) (hlocals : scope.locals.Reframed locals)
    (hbranch : Indestructible model policy (locals.push kind) branch) :
    bracedBranch (if branch.isBlock then (statement model policy scope kind branch).1
       else loneBlock (scope.enter kind) branch
        (statement model policy (scope.enter kind) .block branch))
      = bracedBranch branch := by
  by_cases hb : branch.isBlock = true
  · rw [if_pos hb]
    have hkeep := (h kind hscope (hlocals.pushOther kind) hbranch).1
    have hstays : (statement model policy scope kind branch).1.isBlock = true := by
      rw [← isBlock_braced, hkeep, isBlock_braced, hb]
    rw [bracedBranch, bracedBranch, if_pos hb, if_pos hstays, hkeep]
  · rw [if_neg hb]
    exact lone_untouched (Bool.not_eq_true _ ▸ hb) h (hscope.enter kind) (hlocals.push kind kind)
      hbranch

theorem statement_untouched [model.Typed] (stmt : Stmt) :
    Unstaged stmt → Untouched model policy stmt := by
  induction stmt using Stmt.ind with
  | vars span kind decls =>
    intro _ _ scope locals hscope hlocals hdecls
    exact ⟨rfl, declares_nothing decls hscope hlocals hdecls⟩
  | expr | ret | brk | cont => exact fun _ _ _ _ hscope hlocals _ => ⟨rfl, hscope, hlocals⟩
  | ifElse span condition first second hFirst hSecond =>
    intro hplain _ scope locals hscope hlocals hbranches
    refine ⟨?_, hscope, hlocals⟩
    rw [statement, braced_ifElse, braced_ifElse,
      branch_untouched (hFirst hplain.1) .block hscope hlocals hbranches.1]
    cases second with
    | none => rfl
    | some branch =>
      rw [elseStatement, bracedOption_some, bracedOption_some,
        branch_untouched (hSecond branch rfl hplain.2) .block hscope hlocals hbranches.2]
  | loop span condition body hBody =>
    intro hplain _ scope locals hscope hlocals hbody
    refine ⟨?_, hscope, hlocals⟩
    rw [statement, braced_loop, braced_loop,
      branch_untouched (hBody hplain) .loop hscope hlocals hbody]
  | block span body hBody =>
    intro hplain kind scope locals hscope hlocals hbody
    refine ⟨?_, hscope, hlocals⟩
    rw [statement, braced, braced, statements_untouched hBody {} hplain (hscope.enter kind)
      (hlocals.push kind .block) hbody]
  | staged => exact fun hplain => hplain.elim

/-- **With nothing to destroy only braces change.** -/
theorem bracedAll_run [model.Typed] {other : Locals} (h : locals.Reframed other) {body : List Stmt}
    (hplain : UnstagedAll body) (hbody : IndestructibleAll model policy other body) :
    bracedAll (run model policy locals body) = bracedAll body := by
  apply statements_untouched (fun stmt _ => statement_untouched stmt) {} hplain _ h hbody
  intro frame hf
  rw [List.mem_singleton.mp hf]
  exact List.nil_subset []

end Untouched

/-! ## Annotated bodies -/

/-- The variable has no annotation of a destructible type. -/
def Harmless (model : Model) (policy : DestructorPolicy) (name : BindingName)
    (type : Option TypeNode) : Prop :=
  ∀ declared node, name.ident? = some declared → type = some node →
    isDestructible model policy (model.typeFromNode node) = false

section Annotated

variable {model : Model} {policy : DestructorPolicy}

/-- An annotation means the same in all places. -/
theorem declaredType_annotated {decl : VariableDecl} {node : TypeNode} (h : decl.type = some node)
    (locals : Locals) : model.declaredType locals decl = model.typeFromNode node := by
  unfold Model.declaredType
  rw [h]

theorem IndestructibleDecls.harmless {decls : List VariableDecl} :
    ∀ {locals : Locals}, IndestructibleDecls model policy locals decls →
      ∀ decl ∈ decls, Harmless model policy decl.name decl.type := by
  induction decls with
  | nil => exact fun _ decl hm => nomatch hm
  | cons first rest ih =>
    intro locals h decl hm
    rcases List.mem_cons.mp hm with rfl | hm
    · intro declared node hname hnode
      rw [← declaredType_annotated hnode locals]
      exact h.1 declared hname
    · exact ih h.2 decl hm

theorem harmlessAll_of_forall {body : List Stmt} (h : ∀ stmt ∈ body, ∀ {locals : Locals},
      Indestructible model policy locals stmt → stmt.All (fun _ => True) (Harmless model policy)) :
    ∀ {locals : Locals}, IndestructibleAll model policy locals body →
      AllList (fun _ => True) (Harmless model policy) body := by
  induction body with
  | nil => exact fun _ => trivial
  | cons stmt rest ih =>
    intro locals hbody
    exact ⟨h stmt (by simp) hbody.1, ih (fun other hm => h other (by simp [hm])) hbody.2⟩

theorem Indestructible.harmless {stmt : Stmt} : ∀ {locals : Locals},
    Indestructible model policy locals stmt → stmt.All (fun _ => True) (Harmless model policy) := by
  induction stmt using Stmt.ind with
  | vars span kind decls =>
    intro locals h decl hm
    exact ⟨IndestructibleDecls.harmless h decl hm, fun _ _ => trivial⟩
  | expr | brk | cont => exact fun _ => trivial
  | ret => exact fun _ _ _ => trivial
  | ifElse span condition first second hFirst hSecond =>
    intro locals h
    refine ⟨trivial, hFirst h.1, ?_⟩
    cases second with
    | none => trivial
    | some branch => exact hSecond branch rfl h.2
  | loop span condition body hBody => exact fun h => ⟨trivial, hBody h⟩
  | block span body hBody => exact fun h => harmlessAll_of_forall (fun stmt hm _ => hBody stmt hm) h
  | staged span before body hBefore hBody =>
    intro locals h
    exact ⟨harmlessAll_of_forall (fun stmt hm _ => hBefore stmt hm) h.1, hBody h.2⟩

theorem IndestructibleAll.harmless {locals : Locals} {body : List Stmt}
    (h : IndestructibleAll model policy locals body) :
    AllList (fun _ => True) (Harmless model policy) body :=
  harmlessAll_of_forall (fun _ _ _ => Indestructible.harmless) h

/-- The variable has an annotation, and that of no destructible type. -/
def AnnotatedHarmless (model : Model) (policy : DestructorPolicy) : DeclCondition :=
  fun name type => type.isSome ∧ Harmless model policy name type

theorem indestructibleDecls_of_annotated {decls : List VariableDecl} :
    ∀ (locals : Locals), (∀ decl ∈ decls, AnnotatedHarmless model policy decl.name decl.type) →
      IndestructibleDecls model policy locals decls := by
  induction decls with
  | nil => exact fun _ _ => trivial
  | cons decl rest ih =>
    intro locals h
    obtain ⟨hsome, hharmless⟩ := h decl (by simp)
    obtain ⟨node, hnode⟩ := Option.isSome_iff_exists.mp hsome
    refine ⟨fun name hname => ?_, ih _ fun other hm => h other (by simp [hm])⟩
    rw [declaredType_annotated hnode]
    exact hharmless name node hname hnode

theorem indestructibleAll_of_forall {body : List Stmt} (h : ∀ stmt ∈ body, ∀ locals,
      stmt.All (fun _ => True) (AnnotatedHarmless model policy) →
        Indestructible model policy locals stmt) :
    ∀ (locals : Locals), AllList (fun _ => True) (AnnotatedHarmless model policy) body →
      IndestructibleAll model policy locals body := by
  induction body with
  | nil => exact fun _ _ => trivial
  | cons stmt rest ih =>
    intro locals hbody
    exact ⟨h stmt (by simp) locals hbody.1, ih (fun other hm => h other (by simp [hm])) _ hbody.2⟩

theorem indestructible_of_annotated (stmt : Stmt) : ∀ (locals : Locals),
    stmt.All (fun _ => True) (AnnotatedHarmless model policy) →
      Indestructible model policy locals stmt := by
  induction stmt using Stmt.ind with
  | vars span kind decls =>
    exact fun locals h => indestructibleDecls_of_annotated locals fun decl hm => (h decl hm).1
  | expr | ret | brk | cont => exact fun _ _ => trivial
  | ifElse span condition first second hFirst hSecond =>
    intro locals h
    refine ⟨hFirst _ h.2.1, ?_⟩
    cases second with
    | none => trivial
    | some branch => exact hSecond branch rfl _ h.2.2
  | loop span condition body hBody => exact fun locals h => hBody _ h.2
  | block span body hBody => exact fun locals h => indestructibleAll_of_forall hBody _ h
  | staged span before body hBefore hBody =>
    intro locals h
    exact ⟨indestructibleAll_of_forall hBefore _ h.1, hBody _ h.2⟩

/-- In an annotated body nothing becomes destructible by standing elsewhere. -/
theorem indestructibleAll_of_annotated (locals : Locals) {body : List Stmt}
    (h : AllList (fun _ => True) (AnnotatedHarmless model policy) body) :
    IndestructibleAll model policy locals body :=
  indestructibleAll_of_forall (fun stmt _ => indestructible_of_annotated stmt) locals h

end Annotated

end Cleanup

/-! ## The passes after it -/

mutual

theorem Stmt.Replaced.unstaged {model : Model} {R : Locals → Expr → Expr → Prop} :
    ∀ {locals after : Locals} {stmt stmt' : Stmt}, Stmt.Replaced model R locals stmt stmt' after →
      Unstaged stmt'
  | _, _, _, _, .vars _ | _, _, _, _, .expr _ | _, _, _, _, .ret _ | _, _, _, _, .brk
  | _, _, _, _, .cont => trivial
  | _, _, _, _, .ifThen _ hfirst => ⟨hfirst.unstaged, trivial⟩
  | _, _, _, _, .ifElse _ hfirst hsecond => ⟨hfirst.unstaged, hsecond.unstaged⟩
  | _, _, _, _, .loop _ hbody => hbody.unstaged
  | _, _, _, _, .block hbody => hbody.unstaged

theorem Stmt.ReplacedAll.unstaged {model : Model} {R : Locals → Expr → Expr → Prop} :
    ∀ {locals after : Locals} {body body' : List Stmt},
      Stmt.ReplacedAll model R locals body body' after → UnstagedAll body'
  | _, _, _, _, .nil => trivial
  | _, _, _, _, .cons hstmt hrest => ⟨hstmt.unstaged, hrest.unstaged⟩

end

namespace Receiver

variable {model : Model} {locals : Locals} {body result : List Stmt}

theorem run_unstaged (hplain : UnstagedAll body) (h : run model locals body = .ok result) :
    UnstagedAll result := by
  have hinjects := @run_injects model body hplain locals
  rw [h] at hinjects
  obtain ⟨after, hreplaced⟩ := hinjects
  exact hreplaced.unstaged

theorem bindReceiver_unstaged (hplain : UnstagedAll body)
    (h : bindReceiver model locals body = .ok result) : UnstagedAll result := by
  have hvisit : Walk.Replaces binding (fun _ _ _ => True) fun _ _ _ => True := by
    intro locals value next
    rw [expr_binding]
    exact ⟨trivial, rfl⟩
  have hbody := @Walk.body_replaced model _ _ _ hvisit body hplain locals
  rw [show Walk.body model binding locals body = _ from h] at hbody
  obtain ⟨after, hreplaced⟩ := hbody
  exact hreplaced.unstaged

/-- The receiver function declares what the method does. -/
theorem bindReceiver_declares {D : DeclCondition} (hbody : AllList (fun _ => True) D body)
    (h : bindReceiver model locals body = .ok result) : AllList (fun _ => True) D result := by
  refine (Walk.walk_transport (E := fun _ _ => True) (.refl model _ _)
    (.unary fun locals value bound next last before _ hrun => ?_) rfl hbody h).1
  rw [expr_binding locals, Lowered.run_pure] at hrun
  obtain ⟨-, hpending⟩ := hrun
  cases hpending
  exact ⟨trivial, trivial⟩

end Receiver

/-- A walk through a body, if it is selected. -/
def Walk.selected (selected : Bool) (model : Model) (visit : Walk.Visit) (locals : Locals)
    (body : List Stmt) : Lowered (List Stmt) :=
  if selected then Walk.body model visit locals body else .ok body

namespace Walk

variable {model : Model} {visit : Visit} {locals : Locals}

theorem selected_braced [model.Typed] (chosen : Bool) (hvisit : Frameless visit)
    {statements : List Stmt} (hplain : UnstagedAll statements) (hopen : locals.Open) :
    selected chosen model visit locals (bracedAll statements)
      = (selected chosen model visit locals statements).map bracedAll := by
  cases chosen with
  | false => rfl
  | true => exact body_braced hvisit hplain hopen

theorem selected_annotated {chosen : Bool} {statements result : List Stmt}
    (h : selected chosen model visit locals statements = .ok result)
    (hall : AllList (fun _ => True) (fun _ type => type.isSome) result) :
    AllList (fun _ => True) (fun _ type => type.isSome) statements := by
  cases chosen with
  | false =>
    cases h
    exact hall
  | true => exact body_annotated h hall

end Walk

namespace PassSet

variable {passes : PassSet} {model : Model} {locals : Locals} {body lowered : List Stmt}

/-- The selected passes but for the synthesis of destructor calls. -/
def walks (passes : PassSet) (model : Model) (locals : Locals) (body : List Stmt) :
    Lowered (List Stmt) :=
  Walk.selected passes.receiver model (Receiver.injecting model) locals body >>=
    Walk.selected passes.materialize model (Address.materializeCall model) locals

theorem run_insert (policy : DestructorPolicy) (body : List Stmt) :
    (passes.insert .destructors).run model policy locals body
      = passes.walks model locals (Cleanup.run model policy locals body) :=
  PassSet.run_eq _ model policy locals body

theorem run_erase (policy : DestructorPolicy) (body : List Stmt) :
    (passes.erase .destructors).run model policy locals body = passes.walks model locals body :=
  PassSet.run_eq _ model policy locals body

/-- Injecting receivers stages nothing, so the second walk gets a body like the first. -/
theorem walks_braced [model.Typed] (hplain : UnstagedAll body) (hopen : locals.Open) :
    passes.walks model locals (bracedAll body)
      = (passes.walks model locals body).map bracedAll := by
  unfold walks
  rw [Walk.selected_braced passes.receiver (Receiver.injecting_frameless model) hplain hopen]
  cases hinjected : Walk.selected passes.receiver model (Receiver.injecting model) locals body with
  | error e => rfl
  | ok injected =>
    refine Walk.selected_braced passes.materialize (Address.materializeCall_frameless model) ?_ hopen
    unfold Walk.selected at hinjected
    split at hinjected
    · exact Receiver.run_unstaged hplain hinjected
    · cases hinjected
      exact hplain

/-- The walks drop no annotation. -/
theorem walks_annotated (h : passes.walks model locals body = .ok lowered)
    (hall : AllList (fun _ => True) (fun _ type => type.isSome) lowered) :
    AllList (fun _ => True) (fun _ type => type.isSome) body := by
  obtain ⟨injected, hinjected, hlowered⟩ := Lowered.bind_eq_ok.mp h
  exact Walk.selected_annotated hinjected (Walk.selected_annotated hlowered hall)

end PassSet

/-! ## Functions -/

/-- Two computations in step with the same third come to the same. -/
theorem Lowered.InStep.map_eq_map {α β γ : Type} {R S : α → β → Prop} {first second : Lowered α}
    {third : Lowered β} {change change' : α → γ} (h : InStep R first third)
    (h' : InStep S second third)
    (hchange : ∀ value value' common, R value common → S value' common →
      change value = change' value') :
    first.map change = second.map change' := by
  cases h with
  | error e =>
    cases h'
    rfl
  | ok hfirst =>
    cases h' with
    | ok hsecond => exact congrArg Except.ok (hchange _ _ _ hfirst hsecond)

/-- The context with or without the synthesis of destructor calls. -/
def Context.cleaning (cx : Context) (selected : Bool) : Context :=
  cx.withPasses (cx.options.passes.set .destructors selected)

/-- The bindings that parameters make. -/
def Locals.ofParams (model : Model) (thisClass : Option String) (params : List Param) : Locals :=
  { frames := [{ kind := .function, bindings := params.foldl (Param.bind model) [] }], thisClass }

namespace Emit

variable {cx : Context}

section Functions

variable {shape : FunctionShape}

theorem paramRecord_withPasses [cx.model.Typed] (passes : PassSet) {locals : Locals}
    (hopen : locals.Open) (param : Param) :
    paramRecord (cx.withPasses passes) locals param = paramRecord cx locals param := by
  have hdefault : defaultText (cx.withPasses passes) locals param.default
      = defaultText cx locals param.default := by
    cases param.default with
    | none => rfl
    | some value => rw [defaultText, defaultText, exprText_reframed (.refl hopen)]
  unfold paramRecord
  rw [hdefault]
  rfl

theorem paramRecord_open {locals after : Locals} {param : Param} {record : ParamRecord}
    (hopen : locals.Open) (h : paramRecord cx locals param = .ok (record, after)) : after.Open := by
  unfold paramRecord at h
  simp only [Lowered.bind_eq_ok, Lowered.pure_eq_ok, Prod.mk.injEq] at h
  obtain ⟨name, -, node, -, type, -, default, -, -, rfl⟩ := h
  exact Locals.declare_frames_ne_nil hopen name _

theorem paramRecords_withPasses [cx.model.Typed] (passes : PassSet) (params : List Param) :
    ∀ {locals : Locals},
    locals.Open → paramRecords (cx.withPasses passes) locals params = paramRecords cx locals params := by
  induction params with
  | nil => exact fun _ => rfl
  | cons first rest ih =>
    intro locals hopen
    rw [paramRecords, paramRecords, paramRecord_withPasses passes hopen]
    cases hfirst : paramRecord cx locals first with
    | error e => rfl
    | ok entry =>
      have hrest := ih (paramRecord_open hopen hfirst)
      simp only [bind, Except.bind, hrest]

theorem paramRecords_reframed {thisClass : Option String} {params : List Param}
    {records : List ParamRecord} {locals : Locals}
    (h : paramRecords cx (.start thisClass) params = .ok (records, locals)) :
    locals.Reframed (.ofParams cx.model thisClass params) := by
  obtain ⟨hopen, hvisible⟩ := paramRecords_visible (.start thisClass) h
  refine ⟨?_, (paramRecords_thisClass h).symm, hopen, List.cons_ne_nil _ _⟩
  rw [hvisible]
  exact List.append_nil _

/-- The draft of a body after the selected passes. -/
def bodyDraft (cx : Context) (locals : Locals) (body : List Stmt) : Lowered Draft :=
  loweredBody cx locals body >>= Draft.stmts cx (exprText cx) 1 locals

theorem functionRecord_eq (cx : Context) (shape : FunctionShape) :
    functionRecord cx shape = paramRecords cx (.start shape.thisClass) shape.params >>=
      fun (params, locals) => (bodyDraft cx locals shape.body).map (recordOf cx shape params) := by
  unfold functionRecord functionRecordWith bodyDraft
  apply bind_congr
  rintro ⟨params, locals⟩
  dsimp only
  cases loweredBody cx locals shape.body with
  | error e => rfl
  | ok lowered =>
    show Draft.stmts cx (exprText cx) 1 locals lowered >>= _ = Except.map _ (Draft.stmts cx _ 1 _ _)
    cases Draft.stmts cx (exprText cx) 1 locals lowered with
    | error e => rfl
    | ok draft => rfl

/-- The draft of a body with braces everywhere, with no destructor calls put in. -/
def bracedDraft (cx : Context) (locals : Locals) (body : List Stmt) : Lowered Draft :=
  cx.options.passes.walks cx.model locals (bracedAll body) >>= Draft.stmts cx (exprText cx) 1 locals

theorem walks_then_stmts_braced [cx.model.Typed] (selected : Bool) {locals : Locals}
    (hopen : locals.Open) {body : List Stmt} (hplain : UnstagedAll body) :
    InStep Draft.Reframed
      (cx.options.passes.walks cx.model locals body >>=
        Draft.stmts (cx.cleaning selected) (exprText (cx.cleaning selected)) 1 locals)
      (bracedDraft cx locals body) := by
  have : (cx.cleaning selected).model.Typed := inferInstanceAs cx.model.Typed
  unfold bracedDraft
  rw [PassSet.walks_braced hplain hopen]
  cases cx.options.passes.walks cx.model locals body with
  | error e => exact .error e
  | ok lowered => exact Draft.stmts_braced (cx.cleaning selected) cx.options.passes 1 hopen lowered

theorem bodyDraft_with [cx.model.Typed] {locals : Locals} (hopen : locals.Open) {body : List Stmt}
    (hplain : UnstagedAll (Cleanup.run cx.model cx.options.destructorPolicy locals body)) :
    InStep Draft.Reframed (bodyDraft (cx.cleaning true) locals body)
      (bracedDraft cx locals (Cleanup.run cx.model cx.options.destructorPolicy locals body)) := by
  show InStep _ ((cx.options.passes.insert .destructors).run _ _ _ _ >>= _) _
  rw [PassSet.run_insert]
  exact walks_then_stmts_braced true hopen hplain

theorem bodyDraft_without [cx.model.Typed] {locals : Locals} (hopen : locals.Open)
    {body : List Stmt} (hplain : UnstagedAll body) :
    InStep Draft.Reframed (bodyDraft (cx.cleaning false) locals body)
      (bracedDraft cx locals body) := by
  show InStep _ ((cx.options.passes.erase .destructors).run _ _ _ _ >>= _) _
  rw [PassSet.run_erase]
  exact walks_then_stmts_braced false hopen hplain

/-- A body in which nothing is destructible. -/
def Spared (cx : Context) (shape : FunctionShape) : Prop :=
  UnstagedAll shape.body ∧
    ∀ records locals, paramRecords cx (.start shape.thisClass) shape.params = .ok (records, locals) →
      ∃ other, locals.Reframed other ∧
        Cleanup.IndestructibleAll cx.model cx.options.destructorPolicy other shape.body

/-- **Such a function is written alike with destructor calls and without.** -/
theorem functionRecord_switched [cx.model.Typed] (h : Spared cx shape) :
    functionRecord (cx.cleaning true) shape = functionRecord (cx.cleaning false) shape := by
  obtain ⟨hplain, hquiet⟩ := h
  have hparams (selected : Bool) : paramRecords (cx.cleaning selected) (.start shape.thisClass)
      shape.params = paramRecords cx (.start shape.thisClass) shape.params :=
    paramRecords_withPasses _ shape.params (.start _)
  rw [functionRecord_eq, functionRecord_eq, hparams, hparams]
  cases hentered : paramRecords cx (.start shape.thisClass) shape.params with
  | error e => rfl
  | ok entry =>
    obtain ⟨params, locals⟩ := entry
    obtain ⟨other, hreframed, hbody⟩ := hquiet params locals hentered
    have hbraced := Cleanup.bracedAll_run hreframed hplain hbody
    have hcleaned : UnstagedAll
        (Cleanup.run cx.model cx.options.destructorPolicy locals shape.body) := by
      rw [← Cleanup.unstagedAll_bracedAll, hbraced, Cleanup.unstagedAll_bracedAll]
      exact hplain
    -- Both are compared with the body that has braces everywhere.
    have hwith := bodyDraft_with hreframed.isOpen hcleaned
    have hwithout : InStep Draft.Reframed (bodyDraft (cx.cleaning false) locals shape.body) _ :=
      bodyDraft_without hreframed.isOpen hplain
    unfold bracedDraft at hwith hwithout
    rw [hbraced] at hwith
    refine hwith.map_eq_map hwithout fun draft draft' common hcommon hcommon' => ?_
    unfold recordOf
    rw [← hcommon.text, ← hcommon.hoisted, ← hcommon'.text, ← hcommon'.hoisted]
    rfl

end Functions

end Emit

/-! ## Programs -/

/-- A program whose bodies have no stages. -/
def Program.Unstaged (program : Program) : Prop :=
  ∀ decl ∈ program.decls, ∀ body ∈ decl.bodies, UnstagedAll body

/-- No variable declared in a body of the declaration has a destructible type where it is declared. -/
def Decl.Indestructible (model : Model) (policy : DestructorPolicy) : Decl → Prop
  | .classDecl _ decl => ∀ member ∈ decl.members, ∀ body, member.body? = some body →
    Cleanup.IndestructibleAll model policy (.ofParams model decl.name member.params) body
  | .functionDecl _ decl => ∀ body, decl.body = some body →
    Cleanup.IndestructibleAll model policy (.ofParams model none decl.params) body
  | _ => True

/-- No variable declared in a body of the program has a destructible type where it is declared. -/
def Program.Indestructible (model : Model) (policy : DestructorPolicy) (program : Program) : Prop :=
  ∀ decl ∈ program.decls, decl.Indestructible model policy

namespace Emit

variable {cx : Context}

section Classes

variable {names : ClassNames} {members : List ClassMember}

/-- The bodies of class members have no stages, and nothing in them is destructible. -/
def MembersSpared (cx : Context) (names : ClassNames) (members : List ClassMember) : Prop :=
  ∀ member ∈ members, ∀ body, member.body? = some body → UnstagedAll body ∧
    Cleanup.IndestructibleAll cx.model cx.options.destructorPolicy
      (.ofParams cx.model (some names.declared) member.params) body

theorem MembersSpared.shape (h : MembersSpared cx names members) {member : ClassMember}
    (hmember : member ∈ members) {shape : FunctionShape}
    (hshape : memberShape? cx names member = some (.ok shape)) : Spared cx shape := by
  obtain ⟨hplain, hbody⟩ := h member hmember shape.body (memberShape_body hshape)
  obtain ⟨hparams, hthis⟩ := memberShape_place hshape
  refine ⟨hplain, fun records locals hrecords => ⟨_, paramRecords_reframed hrecords, ?_⟩⟩
  rw [hparams, hthis]
  exact hbody

theorem methodRecord_switched [cx.model.Typed] {visibility : Visibility}
    {shape : Lowered FunctionShape} (h : ∀ value, shape = .ok value → Spared cx value) :
    methodRecord (cx.cleaning true) visibility shape
      = methodRecord (cx.cleaning false) visibility shape := by
  cases shape with
  | error e => rfl
  | ok value =>
    show (functionRecord (cx.cleaning true) value >>= _) = functionRecord _ value >>= _
    rw [functionRecord_switched (h value rfl)]

theorem memberRecords_switched [cx.model.Typed] (h : MembersSpared cx names members)
    {member : ClassMember} (hmember : member ∈ members) :
    memberRecords (cx.cleaning true) names member = memberRecords (cx.cleaning false) names member := by
  cases member with
  | property => rfl
  | method span decl =>
    exact methodRecord_switched fun value hvalue => h.shape hmember (congrArg some hvalue)
  | constructor span decl =>
    exact methodRecord_switched fun value hvalue => h.shape hmember (congrArg some hvalue)

theorem membersRecords_switched [cx.model.Typed] (h : MembersSpared cx names members) :
    membersRecords (cx.cleaning true) names members
      = membersRecords (cx.cleaning false) names members := by
  induction members with
  | nil => rfl
  | cons member rest ih =>
    rw [membersRecords, membersRecords, memberRecords_switched h (by simp),
      ih fun other hm => h other (by simp [hm])]

/-- What has been written is annotated. -/
theorem functionRecord_annotated {shape : FunctionShape} {record : FunctionRecord}
    (h : functionRecord (cx.cleaning false) shape = .ok record) :
    AllList (fun _ => True) (fun _ type => type.isSome) shape.body := by
  obtain ⟨params, locals, lowered, draft, -, hlowered, hdraft, -⟩ := functionRecordWith_eq_ok.mp h
  have hwalks : cx.options.passes.walks cx.model locals shape.body = .ok lowered :=
    (PassSet.run_erase cx.options.destructorPolicy shape.body).symm.trans hlowered
  exact PassSet.walks_annotated hwalks (Draft.stmts_annotated hdraft)

/-- A receiver function comes after its method, so its variables are known to be annotated. -/
theorem receiverShape_spared (h : MembersSpared cx names members) {added : Members}
    (hadded : membersRecords (cx.cleaning false) names members = .ok added) {place : Span}
    {method : MethodDecl} (hmethod : .method place method ∈ members) {shape : FunctionShape}
    (hshape : receiverShape cx names method place = .ok shape) : Spared cx shape := by
  obtain ⟨body, hbody, hbound, -⟩ := receiverShape_parts hshape
  obtain ⟨hplain, hquiet⟩ := h _ hmethod body hbody
  obtain ⟨own, hown, written, -, hrecord⟩ := membersRecords_complete rfl hadded hmethod
  obtain ⟨hownBody, -⟩ := methodShape_parts hown
  obtain rfl : own.body = body := Option.some.inj (hownBody.symm.trans hbody)
  have hannotated : AllList (fun _ => True)
      (Cleanup.AnnotatedHarmless cx.model cx.options.destructorPolicy) own.body := by
    have hsome := Stmt.allList_iff.mp (functionRecord_annotated hrecord)
    have hharmless := Stmt.allList_iff.mp hquiet.harmless
    apply Stmt.allList_iff.mpr
    intro stmt hm
    exact ((hsome stmt hm).and (hharmless stmt hm)).imp (fun _ _ => trivial) fun _ _ h => h
  refine ⟨Receiver.bindReceiver_unstaged hplain hbound, fun records locals hrecords => ?_⟩
  refine ⟨_, paramRecords_reframed hrecords, ?_⟩
  exact Cleanup.indestructibleAll_of_annotated _
    (Receiver.bindReceiver_declares hannotated hbound)

theorem receiverRecords_switched [cx.model.Typed]
    (h : ∀ place method shape, .method place method ∈ members →
      receiverShape cx names method place = .ok shape → Spared cx shape) :
    receiverRecords (cx.cleaning true) names members
      = receiverRecords (cx.cleaning false) names members := by
  induction members with
  | nil => rfl
  | cons member rest ih =>
    have hrest := ih fun place method shape hm => h place method shape (by simp [hm])
    cases member with
    | property span decl =>
      rw [receiverRecords, receiverRecords, hrest]
      · simp
      · simp
    | constructor span decl =>
      rw [receiverRecords, receiverRecords, hrest]
      · simp
      · simp
    | method span decl =>
      rw [receiverRecords, receiverRecords, hrest]
      have hsame (selected : Bool) : receiverShape (cx.cleaning selected) names decl span
          = receiverShape cx names decl span := rfl
      rw [hsame, hsame]
      cases hshape : receiverShape cx names decl span with
      | error e => rfl
      | ok shape =>
        simp only [bind, Except.bind, functionRecord_switched (h span decl shape (by simp) hshape)]

end Classes

/-- The receiver functions of a class, if there are to be any. -/
def classFunctions (cx : Context) (names : ClassNames) (members : List ClassMember) :
    Lowered (List FunctionRecord) :=
  if cx.options.passes.receiver then receiverRecords cx names members else .ok []

theorem classFunctions_switched {names : ClassNames} {members : List ClassMember}
    (h : receiverRecords (cx.cleaning true) names members
      = receiverRecords (cx.cleaning false) names members) :
    classFunctions (cx.cleaning true) names members
      = classFunctions (cx.cleaning false) names members := by
  unfold classFunctions
  rw [h]
  rfl

/-- The output of a class that the model knows. -/
theorem classOutput_known {decl : ClassDecl} {span : Span} {declared : String} {item : Item}
    {info : ClassInfo} (hname : decl.name = some declared)
    (hclass : cx.model.class? declared = some (item, info)) :
    classOutput cx decl span =
      membersRecords cx (classNames cx declared item info) decl.members >>= fun members =>
        (classFunctions cx (classNames cx declared item info) decl.members).map fun functions =>
          ⟨[], functions, [classRecord (classNames cx declared item info) info members]⟩ := by
  have hcontains : cx.options.passes.contains .receiver = cx.options.passes.receiver := rfl
  unfold classOutput classFunctions
  simp only [hname, hclass, hcontains]
  apply bind_congr
  intro members
  cases cx.options.passes.receiver with
  | false => rfl
  | true =>
    simp only [if_true]
    cases receiverRecords cx (classNames cx declared item info) decl.members <;> rfl

theorem classOutput_switched [cx.model.Typed] {decl : ClassDecl} {span : Span}
    (hplain : ∀ body ∈ (Decl.classDecl span decl).bodies, UnstagedAll body)
    (hquiet : (Decl.classDecl span decl).Indestructible cx.model cx.options.destructorPolicy) :
    classOutput (cx.cleaning true) decl span = classOutput (cx.cleaning false) decl span := by
  cases hname : decl.name with
  | none =>
    unfold classOutput
    rw [hname]
  | some declared =>
    cases hclass : cx.model.class? declared with
    | none =>
      have hunknown (selected : Bool) : (cx.cleaning selected).model.class? declared = none := hclass
      unfold classOutput
      simp only [hname, hunknown]
    | some found =>
      obtain ⟨item, info⟩ := found
      have hknown (selected : Bool) : (cx.cleaning selected).model.class? declared = some (item, info) :=
        hclass
      have hspared : MembersSpared cx (classNames cx declared item info) decl.members := by
        intro member hmember body hbody
        refine ⟨hplain body (List.mem_filterMap.mpr ⟨member, hmember, hbody⟩), ?_⟩
        have hdecl := hquiet member hmember body hbody
        rw [hname] at hdecl
        exact hdecl
      have hnames (selected : Bool) : classNames (cx.cleaning selected) declared item info
          = classNames cx declared item info := rfl
      rw [classOutput_known hname (hknown true), classOutput_known hname (hknown false), hnames,
        hnames, membersRecords_switched hspared]
      cases hadded : membersRecords (cx.cleaning false) (classNames cx declared item info)
          decl.members with
      | error e => simp only [bind, Except.bind]
      | ok added =>
        have hfunctions := classFunctions_switched <| receiverRecords_switched
          fun place method shape hm hshape => receiverShape_spared hspared hadded hm hshape
        simp only [bind, Except.bind, hfunctions]

theorem functionShape_spared {decl : FunctionDecl} {span : Span}
    (hplain : ∀ body ∈ (Decl.functionDecl span decl).bodies, UnstagedAll body)
    (hquiet : (Decl.functionDecl span decl).Indestructible cx.model cx.options.destructorPolicy)
    {shape : FunctionShape} (hshape : functionShape cx decl span = .ok shape) : Spared cx shape := by
  obtain ⟨declared, -, -, hparams, hbody⟩ := functionShape_parts hshape
  have hthis : shape.thisClass = none := by
    simp only [functionShape, Lowered.bind_eq_ok, Lowered.pure_eq_ok] at hshape
    obtain ⟨_, -, _, -, _, -, rfl⟩ := hshape
    rfl
  refine ⟨hplain _ (by simp [Decl.bodies, hbody]), fun records locals hrecords => ?_⟩
  refine ⟨_, paramRecords_reframed hrecords, ?_⟩
  rw [hparams, hthis]
  exact hquiet _ hbody

theorem declOutput_switched [cx.model.Typed] {decl : Decl}
    (hplain : ∀ body ∈ decl.bodies, UnstagedAll body)
    (hquiet : decl.Indestructible cx.model cx.options.destructorPolicy) :
    declOutput (cx.cleaning true) decl = declOutput (cx.cleaning false) decl := by
  cases decl with
  | classDecl span decl =>
    rw [declOutput, declOutput, classOutput_switched hplain hquiet]
  | functionDecl span decl =>
    have hsame (selected : Bool) :
        functionShape (cx.cleaning selected) decl span = functionShape cx decl span := rfl
    rw [declOutput, declOutput, hsame, hsame]
    cases hshape : functionShape cx decl span with
    | error e => rfl
    | ok shape =>
      have hspared : Spared cx shape := functionShape_spared hplain hquiet hshape
      simp only [bind, Except.bind, functionRecord_switched hspared]
  | importDecl | interfaceDecl | typeAlias | moduleDecl => rfl

theorem declsOutput_switched [cx.model.Typed] {decls : List Decl}
    (hplain : ∀ decl ∈ decls, ∀ body ∈ decl.bodies, UnstagedAll body)
    (hquiet : ∀ decl ∈ decls, decl.Indestructible cx.model cx.options.destructorPolicy) :
    declsOutput (cx.cleaning true) decls = declsOutput (cx.cleaning false) decls := by
  induction decls with
  | nil => rfl
  | cons decl rest ih =>
    rw [declsOutput, declsOutput, declOutput_switched (hplain decl (by simp)) (hquiet decl (by simp)),
      ih (fun other hm => hplain other (by simp [hm])) fun other hm => hquiet other (by simp [hm])]

end Emit

theorem generateWith_switched (options : Options) (model : Model) [model.Typed] {program : Program}
    (hplain : program.Unstaged) (hquiet : program.Indestructible model options.destructorPolicy) :
    generateWith { options with passes := options.passes.insert .destructors } model program
      = generateWith { options with passes := options.passes.erase .destructors } model program := by
  have houtput : Emit.programOutput
        ⟨model, { options with passes := options.passes.insert .destructors }⟩ program
      = Emit.programOutput
        ⟨model, { options with passes := options.passes.erase .destructors }⟩ program :=
    @Emit.declsOutput_switched ⟨model, options⟩ ‹_› program.decls hplain hquiet
  rw [generateWith_run, generateWith_run, houtput]
  rfl

/-- **Without anything to destroy the pass makes no difference.** If no variable declared in a body
has a type there whose instances are to be destroyed, lowering comes to the same text or to the same
error with the synthesis of destructor calls and without it. -/
theorem generate_switched (options : Options) {program : Program} {preludes : List Program}
    (hplain : program.Unstaged)
    (hquiet : ∀ model, Model.build program preludes = .ok model →
      program.Indestructible model options.destructorPolicy) :
    generate { options with passes := options.passes.insert .destructors } program preludes
      = generate { options with passes := options.passes.erase .destructors } program preludes := by
  cases hmodel : Model.build program preludes with
  | error e => simp only [generate, hmodel, bind, Except.bind]
  | ok model =>
    simp only [generate, hmodel, bind, Except.bind]
    exact generateWith_switched options model hplain (hquiet model hmodel)

/-! A class with a destructor, of which the function has only a pointer: single branches get braces,
and nothing is destroyed. -/

section

open Build

/-- Drains a handle that it does not own. -/
def drain : Program := program
  [classOf "Handle" [method Spelling.destructor [] void [], method "close" [] void []],
   function "drain" [param "handle" (pointer (type "Handle")), param "open" (keyword .boolean)] void
    [letVar "own" (some (pointer (type "Handle"))) (some (ident "handle")),
     loop (ident "open")
      (ifElse (ident "open") (exprStmt (methodCall (ident "own") "close" []))
        (some (letVar "last" (some (keyword .boolean)) (some (ident "open")))))]]

theorem drain_unstaged : drain.Unstaged := by
  intro decl hdecl body hbody
  simp only [drain, program, List.mem_cons, List.not_mem_nil, or_false] at hdecl
  rcases hdecl with rfl | rfl
  · obtain ⟨member, hmember, hbody⟩ := List.mem_filterMap.mp hbody
    simp only [List.mem_cons, List.not_mem_nil, or_false] at hmember
    rcases hmember with rfl | rfl <;> cases hbody <;> trivial
  · rw [List.mem_singleton.mp hbody]
    exact ⟨trivial, ⟨trivial, trivial⟩, trivial⟩

theorem drain_indestructible (model : TypedModel) (policy : DestructorPolicy) :
    drain.Indestructible model policy := by
  intro decl hdecl
  simp only [drain, program, List.mem_cons, List.not_mem_nil, or_false] at hdecl
  rcases hdecl with rfl | rfl
  · intro member hmember body hbody
    simp only [List.mem_cons, List.not_mem_nil, or_false] at hmember
    rcases hmember with rfl | rfl <;> cases hbody <;> trivial
  · intro body hbody
    cases hbody
    refine ⟨⟨?_, trivial⟩, ⟨trivial, ⟨?_, trivial⟩⟩, trivial⟩
    · intro name _
      have hpointer : model.typeFromNode (pointer (type "Handle")) = .pointer _ :=
        model.typeFromNode_pointer rfl ..
      show Cleanup.isDestructible model policy (model.typeFromNode (pointer _)) = false
      rw [hpointer]
      rfl
    · intro name _
      have hkeyword : model.typeFromNode (keyword .boolean) = .primitive .boolean :=
        model.typeFromNode_keyword ..
      show Cleanup.isDestructible model policy (model.typeFromNode (keyword .boolean)) = false
      rw [hkeyword]
      rfl

theorem generate_switched_drain : drain.Unstaged ∧
    (∀ model, Model.build drain [] = .ok model → drain.Indestructible model .allClasses) ∧
    generate { passes := PassSet.standard.insert .destructors } drain []
      = generate { passes := PassSet.standard.erase .destructors } drain [] ∧
    (generate { passes := PassSet.standard.insert .destructors } drain []).toOption.isSome = true :=
  ⟨drain_unstaged, fun model _ => drain_indestructible model _,
    generate_switched {} drain_unstaged fun model _ => drain_indestructible model _,
    by decide +kernel⟩

end

end NativeLowering
