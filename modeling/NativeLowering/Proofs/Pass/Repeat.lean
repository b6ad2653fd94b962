import NativeLowering.Proofs.Receiver.Injection

/-!
# Running a pass twice

A pass that rewrites expressions has nothing left to do in its own result: run again, it gives the
same body (`passes_idempotent`).

One walk goes bottom up, so the parts of an expression are finished when its turn comes. It is then
enough to know of one visit that it makes of finished parts something that the second walk leaves
alone (`Walk.Finishes`), which is carried through expressions and statements here.

The second walk goes through statements that the first has added and has other variables in scope.
What the bindings of the two walks have in common is a parameter. A pass that reads types asks for
equal bindings, and adds no statements; one that adds statements has no need of the bindings in its
own result.
-/

set_option autoImplicit false

namespace NativeLowering

namespace Expr

/-- The parts that are evaluated and stand directly in the expression. -/
def children : Expr → List Expr
  | .ident .. | .thisRef _ | .literal .. => []
  | .property _ object _ => [object]
  | .call _ callee _ args => callee :: args
  | .new _ _ args => args
  | .binary _ _ left right => [left, right]
  | .unary _ _ operand => [operand]
  | .paren _ inner => [inner]
  | .comma _ items => items
  | .receiverCall _ _ _ args => args

theorem mem_parts {part value : Expr} :
    part ∈ value.parts ↔ part = value ∨ ∃ child ∈ value.children, part ∈ child.parts := by
  cases value with
  | _ => simp [parts, children, mem_partsAll]

end Expr

namespace Walk

/-! ## Expressions -/

section Expressions

variable {visit again : Expr → ExprM Expr}

/-- The visit leaves the expression and all its parts as they are. -/
def Still (visit : Expr → ExprM Expr) (value : Expr) : Prop :=
  ∀ part ∈ value.parts, visit part = pure part

theorem still_iff {value : Expr} :
    Still visit value ↔
      visit value = pure value ∧ ∀ child ∈ value.children, Still visit child := by
  constructor
  · intro h
    refine ⟨h value (Expr.mem_parts.mpr (.inl rfl)), fun child hchild part hpart => ?_⟩
    exact h part (Expr.mem_parts.mpr (.inr ⟨child, hchild, hpart⟩))
  · rintro ⟨hvalue, hchildren⟩ part hpart
    rcases Expr.mem_parts.mp hpart with rfl | ⟨child, hchild, hpart⟩
    · exact hvalue
    · exact hchildren child hchild part hpart

theorem exprs_eq_pure {items : List Expr} (h : ∀ item ∈ items, expr visit item = pure item) :
    exprs visit items = pure items := by
  induction items with
  | nil => rfl
  | cons item rest ih =>
    have hitem := h item (by simp)
    have hrest := ih fun other hm => h other (by simp [hm])
    simp [exprs, hitem, hrest]

theorem Still.expr {value : Expr} (h : Still visit value) : expr visit value = pure value := by
  induction value using Expr.ind with
  | ident | thisRef | literal => exact (still_iff.mp h).1
  | property span object name hobject =>
    obtain ⟨hvisit, hchildren⟩ := still_iff.mp h
    have hpart := hobject (hchildren object (by simp [Expr.children]))
    simp [Walk.expr, hpart, hvisit]
  | call span callee typeArgs args hcallee hargs =>
    obtain ⟨hvisit, hchildren⟩ := still_iff.mp h
    have hpart := hcallee (hchildren callee (by simp [Expr.children]))
    have hparts := exprs_eq_pure fun arg hm => hargs arg hm (hchildren arg (by simp [Expr.children, hm]))
    simp [Walk.expr, hpart, hparts, hvisit]
  | binary span op left right hleft hright =>
    obtain ⟨hvisit, hchildren⟩ := still_iff.mp h
    have hpart := hleft (hchildren left (by simp [Expr.children]))
    have hpart' := hright (hchildren right (by simp [Expr.children]))
    simp [Walk.expr, hpart, hpart', hvisit]
  | unary span op part hpart | paren span part hpart =>
    obtain ⟨hvisit, hchildren⟩ := still_iff.mp h
    have hpart' := hpart (hchildren part (by simp [Expr.children]))
    simp [Walk.expr, hpart', hvisit]
  | new span name items hitems | comma span items hitems
  | receiverCall span owner method items hitems =>
    obtain ⟨hvisit, hchildren⟩ := still_iff.mp h
    have hparts := exprs_eq_pure fun item hm => hitems item hm (hchildren item hm)
    simp [Walk.expr, hparts, hvisit]

/-- A visit makes of an expression whose parts the second visit leaves alone one that it leaves alone
altogether. What is asked for keeps a condition. -/
def Quiets (visit again : Expr → ExprM Expr) (asked : List Stmt → Prop) : Prop :=
  ∀ (value result : Expr) (pending after : Pending),
    (∀ child ∈ value.children, Still again child) →
    (visit value).run pending = .ok (result, after) → asked pending.before →
    Still again result ∧ asked after.before

variable {asked : List Stmt → Prop}

/-- What a walk through an expression makes of it is left alone by the second walk. -/
def Quieted (visit again : Expr → ExprM Expr) (asked : List Stmt → Prop) (value : Expr) : Prop :=
  ∀ (result : Expr) (pending after : Pending),
    (expr visit value).run pending = .ok (result, after) → asked pending.before →
    Still again result ∧ asked after.before

theorem exprs_quieted {items : List Expr} (h : ∀ item ∈ items, Quieted visit again asked item)
    {results : List Expr} {pending after : Pending}
    (hrun : (exprs visit items).run pending = .ok (results, after)) (hasked : asked pending.before) :
    (∀ result ∈ results, Still again result) ∧ asked after.before := by
  induction items generalizing results pending with
  | nil =>
    cases hrun
    exact ⟨nofun, hasked⟩
  | cons item rest ih =>
    obtain ⟨first, between, hfirst, hrun⟩ := Lowered.run_bind.mp hrun
    obtain ⟨others, last, hothers, hrun⟩ := Lowered.run_bind.mp hrun
    obtain ⟨rfl, rfl⟩ := Lowered.run_pure.mp hrun
    obtain ⟨hstill, hbetween⟩ := h item (by simp) _ _ _ hfirst hasked
    obtain ⟨hrest, hlast⟩ := ih (fun other hm => h other (by simp [hm])) hothers hbetween
    exact ⟨List.forall_mem_cons.mpr ⟨hstill, hrest⟩, hlast⟩

theorem Quiets.expr (h : Quiets visit again asked) (value : Expr) :
    Quieted visit again asked value := by
  induction value using Expr.ind with
  | ident | thisRef | literal =>
    intro result pending after hrun hasked
    refine h _ _ _ _ ?_ hrun hasked
    simp [Expr.children]
  | property span object name hobject =>
    intro result pending after hrun hasked
    obtain ⟨object', between, hfirst, hrun⟩ := Lowered.run_bind.mp hrun
    obtain ⟨hstill, hbetween⟩ := hobject _ _ _ hfirst hasked
    refine h _ _ _ _ ?_ hrun hbetween
    simpa [Expr.children] using hstill
  | call span callee typeArgs args hcallee hargs =>
    intro result pending after hrun hasked
    obtain ⟨callee', between, hfirst, hrun⟩ := Lowered.run_bind.mp hrun
    obtain ⟨args', last, hsecond, hrun⟩ := Lowered.run_bind.mp hrun
    obtain ⟨hstill, hbetween⟩ := hcallee _ _ _ hfirst hasked
    obtain ⟨hstills, hlast⟩ := exprs_quieted hargs hsecond hbetween
    refine h _ _ _ _ ?_ hrun hlast
    exact List.forall_mem_cons.mpr ⟨hstill, hstills⟩
  | binary span op left right hleft hright =>
    intro result pending after hrun hasked
    obtain ⟨left', between, hfirst, hrun⟩ := Lowered.run_bind.mp hrun
    obtain ⟨right', last, hsecond, hrun⟩ := Lowered.run_bind.mp hrun
    obtain ⟨hstill, hbetween⟩ := hleft _ _ _ hfirst hasked
    obtain ⟨hstill', hlast⟩ := hright _ _ _ hsecond hbetween
    refine h _ _ _ _ ?_ hrun hlast
    simpa [Expr.children] using ⟨hstill, hstill'⟩
  | unary span op part hpart | paren span part hpart =>
    intro result pending after hrun hasked
    obtain ⟨part', between, hfirst, hrun⟩ := Lowered.run_bind.mp hrun
    obtain ⟨hstill, hbetween⟩ := hpart _ _ _ hfirst hasked
    refine h _ _ _ _ ?_ hrun hbetween
    simpa [Expr.children] using hstill
  | new span name items hitems | comma span items hitems
  | receiverCall span owner method items hitems =>
    intro result pending after hrun hasked
    obtain ⟨items', between, hfirst, hrun⟩ := Lowered.run_bind.mp hrun
    obtain ⟨hstills, hbetween⟩ := exprs_quieted hitems hfirst hasked
    refine h _ _ _ _ ?_ hrun hbetween
    exact hstills

end Expressions

/-! ## Statements -/

/-- Frames and declarations keep a relation between the bindings of the two walks. -/
structure Carries (model : Model) (R : Locals → Locals → Prop) : Prop where
  push : ∀ {locals locals' : Locals} (kind : FrameKind), R locals locals' →
    R (locals.push kind) (locals'.push kind)
  declare : ∀ {locals locals' : Locals} (decl : VariableDecl), R locals locals' →
    R (declareLocal model locals decl) (declareLocal model locals' decl)

theorem Carries.eq (model : Model) : Carries model Eq where
  push kind h := by rw [h]
  declare decl h := by rw [h]

section Statements

variable {model : Model} {visit : Visit} {R : Locals → Locals → Prop}

/-- From any bindings related to the first, a walk leaves the statements alone and gets to bindings
related to the second. -/
def Rests (model : Model) (visit : Visit) (R : Locals → Locals → Prop) (locals after : Locals)
    (body : List Stmt) : Prop :=
  ∀ (here : Locals) (next : Nat), R locals here → ∃ there last,
    (stmts model visit body).run ⟨here, next⟩ = .ok (body, ⟨there, last⟩) ∧ R after there

/-- The same of one statement. -/
def RestsAt (model : Model) (visit : Visit) (R : Locals → Locals → Prop) (locals after : Locals)
    (statement : Stmt) : Prop :=
  ∀ (here : Locals) (next : Nat), R locals here → ∃ there last,
    (stmt model visit statement).run ⟨here, next⟩ = .ok (statement, ⟨there, last⟩) ∧ R after there

/-- The statements are left alone whatever is bound, and so are the bindings. -/
def Inert (model : Model) (visit : Visit) (R : Locals → Locals → Prop) (body : List Stmt) : Prop :=
  ∀ locals, Rests model visit R locals locals body

theorem Rests.nil (locals : Locals) : Rests model visit R locals locals [] :=
  fun here next h => ⟨here, next, rfl, h⟩

theorem Rests.cons {locals between after : Locals} {statement : Stmt} {rest : List Stmt}
    (h : RestsAt model visit R locals between statement)
    (hrest : Rests model visit R between after rest) :
    Rests model visit R locals after (statement :: rest) := by
  intro here next hR
  obtain ⟨mid, count, hfirst, hmid⟩ := h here next hR
  obtain ⟨there, last, hothers, hthere⟩ := hrest mid count hmid
  refine ⟨there, last, ?_, hthere⟩
  exact run_stmts_cons.mpr ⟨_, _, _, hfirst, hothers, rfl⟩

theorem Rests.append {locals between after : Locals} {first second : List Stmt}
    (h : Rests model visit R locals between first) (h' : Rests model visit R between after second) :
    Rests model visit R locals after (first ++ second) := by
  intro here next hR
  obtain ⟨mid, count, hfirst, hmid⟩ := h here next hR
  obtain ⟨there, last, hsecond, hthere⟩ := h' mid count hmid
  refine ⟨there, last, ?_, hthere⟩
  -- What is left is about the two runs only, and the first is an induction on its statements.
  clear h h' hR hmid hthere
  induction first generalizing here next with
  | nil =>
    cases hfirst
    exact hsecond
  | cons head tail ih =>
    obtain ⟨head', point, tail', hhead, htail, heq⟩ := run_stmts_cons.mp hfirst
    obtain ⟨rfl, rfl⟩ := List.cons.inj heq
    exact run_stmts_cons.mpr ⟨_, _, _, hhead, ih _ _ htail, rfl⟩

theorem Inert.nil : Inert model visit R [] := Rests.nil

theorem Inert.append {first second : List Stmt} (h : Inert model visit R first)
    (h' : Inert model visit R second) : Inert model visit R (first ++ second) :=
  fun locals => (h locals).append (h' locals)

/-- A walk through an expression makes something of it that every later walk leaves alone, and so are
the statements that it asks for. -/
def Finishes (model : Model) (visit : Visit) (R : Locals → Locals → Prop) : Prop :=
  ∀ (locals : Locals) (value result : Expr) (next : Nat) (after : Pending),
    (expr (visit locals) value).run ⟨next, []⟩ = .ok (result, after) →
    (∀ here, R locals here → Still (visit here) result) ∧ Inert model visit R after.before

/-- It is enough to know it of one visit. -/
theorem Finishes.of_quiets
    (h : ∀ locals here, R locals here →
      Quiets (visit locals) (visit here) (Inert model visit R)) (hrefl : ∀ locals, R locals locals) :
    Finishes model visit R := by
  intro locals value result next after hrun
  refine ⟨fun here hR => ?_, ?_⟩
  · exact ((h locals here hR).expr value _ _ _ hrun .nil).1
  · exact ((h locals locals (hrefl locals)).expr value _ _ _ hrun .nil).2

/-! ### Expressions in statements -/

theorem run_atPoint_still {value : Expr} {here : Locals} (h : Still (visit here) value) (next : Nat) :
    (atPoint visit value).run ⟨here, next⟩ = .ok ((value, []), ⟨here, next⟩) :=
  run_atPoint.mpr ⟨next, by rw [h.expr]; rfl, rfl⟩

theorem run_atPointOption_still {value : Option Expr} {here : Locals}
    (h : ∀ inner, value = some inner → Still (visit here) inner) (next : Nat) :
    (atPointOption visit value).run ⟨here, next⟩ = .ok ((value, []), ⟨here, next⟩) := by
  cases value with
  | none => rfl
  | some inner =>
    exact run_atPointOption_some.mpr ⟨_, run_atPoint_still (h inner rfl) next, rfl⟩

theorem atPoint_finished (hvisit : Finishes model visit R) {value result : Expr}
    {before : List Stmt} {locals : Locals} {next : Nat} {point : Point}
    (h : (atPoint visit value).run ⟨locals, next⟩ = .ok ((result, before), point)) :
    point.locals = locals ∧ Inert model visit R before ∧
      ∀ here, R locals here → Still (visit here) result := by
  obtain ⟨last, hrun, rfl⟩ := run_atPoint.mp h
  obtain ⟨hstill, hinert⟩ := hvisit _ _ _ _ _ hrun
  exact ⟨rfl, hinert, hstill⟩

theorem atPointOption_finished (hvisit : Finishes model visit R) {value result : Option Expr}
    {before : List Stmt} {locals : Locals} {next : Nat} {point : Point}
    (h : (atPointOption visit value).run ⟨locals, next⟩ = .ok ((result, before), point)) :
    point.locals = locals ∧ Inert model visit R before ∧
      ∀ here, R locals here → ∀ inner, result = some inner → Still (visit here) inner := by
  cases value with
  | none =>
    cases h
    exact ⟨rfl, .nil, fun _ _ => nofun⟩
  | some value =>
    obtain ⟨inner, hrun, rfl⟩ := run_atPointOption_some.mp h
    obtain ⟨hlocals, hinert, hstill⟩ := atPoint_finished hvisit hrun
    refine ⟨hlocals, hinert, fun here hR => ?_⟩
    rintro _ ⟨⟩
    exact hstill here hR

/-- Variable declarations that a walk has been through are left alone by the next one, which gets to
bindings related to those after the first. -/
theorem varDecls_finished (carries : Carries model R) (hvisit : Finishes model visit R)
    {decls results : List VariableDecl} {before : List Stmt} {locals : Locals} {next : Nat}
    {point : Point}
    (h : (varDecls model visit decls).run ⟨locals, next⟩ = .ok ((results, before), point)) :
    Inert model visit R before ∧ ∀ (here : Locals) (count : Nat), R locals here →
      ∃ there, (varDecls model visit results).run ⟨here, count⟩
        = .ok ((results, []), ⟨there, count⟩) ∧ R point.locals there := by
  induction decls generalizing locals next results before point with
  | nil =>
    cases h
    exact ⟨.nil, fun here count hR => ⟨here, rfl, hR⟩⟩
  | cons decl rest ih =>
    obtain ⟨first, asked, ⟨between, mid⟩, others, more, hfirst, hothers, rfl, rfl⟩ :=
      run_varDecls_cons.mp h
    obtain ⟨init, number, hinit, rfl, hpoint⟩ := run_varDecl.mp hfirst
    cases hpoint
    obtain ⟨-, hinert, hstill⟩ := atPointOption_finished hvisit hinit
    obtain ⟨hinert', hrest⟩ := ih hothers
    refine ⟨hinert.append hinert', fun here count hR => ?_⟩
    obtain ⟨there, hrun, hthere⟩ := hrest _ count (carries.declare { decl with init } hR)
    refine ⟨there, ?_, hthere⟩
    have hagain : (varDecl model visit { decl with init }).run ⟨here, count⟩
        = .ok (({ decl with init }, []), ⟨declareLocal model here { decl with init }, count⟩) :=
      run_varDecl.mpr ⟨init, count, run_atPointOption_still (hstill here hR) count, rfl, rfl⟩
    exact run_varDecls_cons.mpr ⟨_, _, _, _, _, hagain, hrun, rfl, rfl⟩

/-! ### Statement by statement -/

/-- A statement that a walk has been through: a stage that is left alone, before a statement without
one that is left alone too, wherever it stands. -/
def Finished (model : Model) (visit : Visit) (R : Locals → Locals → Prop) (locals after : Locals)
    (result : Stmt) : Prop :=
  ∃ before core between, result = stage before core ∧ core.isStaged = false ∧
    Rests model visit R locals between before ∧
    ∀ span, RestsAt model visit R between after (core.withSpan span)

theorem withSpan_span (statement : Stmt) : statement.withSpan statement.span = statement := by
  cases statement <;> rfl

theorem isStaged_withSpan (statement : Stmt) (span : Span) :
    (statement.withSpan span).isStaged = statement.isStaged := by
  cases statement <;> rfl

theorem withSpan_withSpan (statement : Stmt) (span span' : Span) :
    (statement.withSpan span).withSpan span' = statement.withSpan span' := by
  cases statement <;> rfl

theorem restage_core {core : Stmt} (h : core.isStaged = false) (span : Span) (before : List Stmt) :
    restage span before core = stage before (core.withSpan span) := by
  cases core with
  | staged => cases h
  | _ => rfl

/-- A second stage goes behind the first. -/
theorem restage_stage {core : Stmt} (h : core.isStaged = false) (span : Span)
    (before more : List Stmt) :
    restage span before (stage more core) = stage (before ++ more) (core.withSpan span) := by
  cases more with
  | nil => rw [stage, restage_core h, List.append_nil]
  | cons first rest => rfl

theorem Finished.rests {locals after : Locals} {result : Stmt}
    (h : Finished model visit R locals after result) :
    RestsAt model visit R locals after result := by
  obtain ⟨before, core, between, rfl, hcore, hbefore, hrests⟩ := h
  have hcore' : RestsAt model visit R between after core := by
    rw [← withSpan_span core]
    exact hrests core.span
  intro here next hR
  obtain ⟨mid, count, hfirst, hmid⟩ := hbefore here next hR
  obtain ⟨there, last, hsecond, hthere⟩ := hcore' mid count hmid
  refine ⟨there, last, ?_, hthere⟩
  cases before with
  | nil =>
    cases hfirst
    exact hsecond
  | cons first rest =>
    refine run_stmt_staged.mpr ⟨_, _, _, hfirst, hsecond, ?_⟩
    rw [restage_core hcore, withSpan_span]

/-- A statement with what was asked for at its place. -/
theorem Finished.of_inert {locals after : Locals} {before : List Stmt} {core : Stmt}
    (hinert : Inert model visit R before) (hcore : core.isStaged = false)
    (h : ∀ span, RestsAt model visit R locals after (core.withSpan span)) :
    Finished model visit R locals after (stage before core) :=
  ⟨before, core, locals, rfl, hcore, hinert locals, h⟩

/-- A walk leads to statements that the next walk leaves alone. -/
def Reaches (model : Model) (visit : Visit) (R : Locals → Locals → Prop) (statement : Stmt) : Prop :=
  ∀ (locals : Locals) (next : Nat) (result : Stmt) (point : Point),
    (stmt model visit statement).run ⟨locals, next⟩ = .ok (result, point) →
    Finished model visit R locals point.locals result

theorem stmts_rest {body result : List Stmt}
    (h : ∀ statement ∈ body, Reaches model visit R statement) {locals : Locals} {next : Nat}
    {point : Point} (hrun : (stmts model visit body).run ⟨locals, next⟩ = .ok (result, point)) :
    Rests model visit R locals point.locals result := by
  induction body generalizing locals next result with
  | nil =>
    cases hrun
    exact .nil locals
  | cons head rest ih =>
    obtain ⟨first, ⟨between, mid⟩, others, hfirst, hothers, rfl⟩ := run_stmts_cons.mp hrun
    exact .cons (h head (by simp) _ _ _ _ hfirst).rests
      (ih (fun other hm => h other (by simp [hm])) hothers)

theorem inFrame_rests (carries : Carries model R) {statement : Stmt}
    (h : Reaches model visit R statement) {kind : FrameKind} {locals : Locals} {next : Nat}
    {result : Stmt} {point : Point}
    (hrun : (inFrame kind (stmt model visit statement)).run ⟨locals, next⟩ = .ok (result, point)) :
    point.locals = locals ∧ ∀ (here : Locals) (count : Nat), R locals here →
      ∃ last, (inFrame kind (stmt model visit result)).run ⟨here, count⟩
        = .ok (result, ⟨here, last⟩) := by
  obtain ⟨inner, hinner, rfl⟩ := run_inFrame.mp hrun
  refine ⟨rfl, fun here count hR => ?_⟩
  obtain ⟨there, last, hagain, -⟩ := (h _ _ _ _ hinner).rests _ count (carries.push kind hR)
  exact ⟨last, run_inFrame.mpr ⟨_, hagain, rfl⟩⟩

theorem elseStmt_rests (carries : Carries model R) {elseBranch : Option Stmt}
    (h : ∀ branch, elseBranch = some branch → Reaches model visit R branch) {locals : Locals}
    {next : Nat} {result : Option Stmt} {point : Point}
    (hrun : (elseStmt model visit elseBranch).run ⟨locals, next⟩ = .ok (result, point)) :
    point.locals = locals ∧ ∀ (here : Locals) (count : Nat), R locals here →
      ∃ last, (elseStmt model visit result).run ⟨here, count⟩ = .ok (result, ⟨here, last⟩) := by
  cases elseBranch with
  | none =>
    cases hrun
    exact ⟨rfl, fun here count _ => ⟨count, rfl⟩⟩
  | some branch =>
    obtain ⟨walked, hbranch, rfl⟩ := run_elseStmt_some.mp hrun
    obtain ⟨hlocals, hagain⟩ := inFrame_rests carries (h branch rfl) hbranch
    refine ⟨hlocals, fun here count hR => ?_⟩
    obtain ⟨last, hlast⟩ := hagain here count hR
    exact ⟨last, run_elseStmt_some.mpr ⟨_, hlast, rfl⟩⟩

/-- One walk through a statement leaves nothing to the next. -/
theorem stmt_reaches (carries : Carries model R) (hvisit : Finishes model visit R)
    (statement : Stmt) : Reaches model visit R statement := by
  induction statement using Stmt.ind with
  | vars span kind decls =>
    intro locals next result point hrun
    obtain ⟨walked, before, hdecls, rfl⟩ := run_stmt_vars.mp hrun
    obtain ⟨hinert, hagain⟩ := varDecls_finished carries hvisit hdecls
    refine .of_inert hinert rfl fun place here count hR => ?_
    obtain ⟨there, hrun, hthere⟩ := hagain here count hR
    exact ⟨there, count, run_stmt_vars.mpr ⟨_, _, hrun, rfl⟩, hthere⟩
  | expr span value =>
    intro locals next result point hrun
    obtain ⟨walked, before, hvalue, rfl⟩ := run_stmt_expr.mp hrun
    obtain ⟨hlocals, hinert, hstill⟩ := atPoint_finished hvisit hvalue
    refine .of_inert hinert rfl fun place here count hR => ?_
    refine ⟨here, count, ?_, hlocals ▸ hR⟩
    exact run_stmt_expr.mpr ⟨_, _, run_atPoint_still (hstill here hR) count, rfl⟩
  | ret span value =>
    intro locals next result point hrun
    obtain ⟨walked, before, hvalue, rfl⟩ := run_stmt_ret.mp hrun
    obtain ⟨hlocals, hinert, hstill⟩ := atPointOption_finished hvisit hvalue
    refine .of_inert hinert rfl fun place here count hR => ?_
    refine ⟨here, count, ?_, hlocals ▸ hR⟩
    exact run_stmt_ret.mpr ⟨_, _, run_atPointOption_still (hstill here hR) count, rfl⟩
  | ifElse span condition thenBranch elseBranch hThen hElse =>
    intro locals next result point hrun
    obtain ⟨walked, before, ⟨_, n₁⟩, first, ⟨_, n₂⟩, second, hcondition, hthen, helse, rfl⟩ :=
      run_stmt_ifElse.mp hrun
    obtain ⟨rfl, hinert, hstill⟩ := atPoint_finished hvisit hcondition
    obtain ⟨rfl, hthen'⟩ := inFrame_rests carries hThen hthen
    obtain ⟨hlocals, helse'⟩ := elseStmt_rests carries hElse helse
    refine .of_inert hinert rfl fun place here count hR => ?_
    obtain ⟨count', hfirst⟩ := hthen' here count hR
    obtain ⟨count'', hsecond⟩ := helse' here count' hR
    have hhead := run_atPoint_still (hstill here hR) count
    refine ⟨here, count'', ?_, hlocals ▸ hR⟩
    exact run_stmt_ifElse.mpr ⟨_, _, _, _, _, _, hhead, hfirst, hsecond, rfl⟩
  | loop span condition body hBody =>
    intro locals next result point hrun
    obtain ⟨walked, before, ⟨_, n₁⟩, inner, hcondition, hbody, rfl⟩ := run_stmt_loop.mp hrun
    obtain ⟨rfl, hinert, hstill⟩ := atPoint_finished hvisit hcondition
    obtain ⟨hlocals, hagain⟩ := inFrame_rests carries hBody hbody
    refine .of_inert hinert rfl fun place here count hR => ?_
    obtain ⟨count', hinner⟩ := hagain here count hR
    have hhead := run_atPoint_still (hstill here hR) count
    exact ⟨here, count', run_stmt_loop.mpr ⟨_, _, _, _, hhead, hinner, rfl⟩, hlocals ▸ hR⟩
  | brk span | cont span =>
    intro locals next result point hrun
    cases hrun
    exact .of_inert .nil rfl fun place here count hR => ⟨here, count, rfl, hR⟩
  | block span body hBody =>
    intro locals next result point hrun
    obtain ⟨inner, hframe, rfl⟩ := run_stmt_block.mp hrun
    obtain ⟨end', hbody, rfl⟩ := run_inFrame.mp hframe
    have hnothing : Inert model visit R [] := .nil
    refine .of_inert hnothing rfl fun place here count hR => ?_
    obtain ⟨there, count', hinner, -⟩ := stmts_rest hBody hbody _ count (carries.push .block hR)
    have hframe' := run_inFrame.mpr ⟨_, hinner, rfl⟩
    exact ⟨here, count', run_stmt_block.mpr ⟨_, hframe', rfl⟩, hR⟩
  | staged span before body hBefore hBody =>
    intro locals next result point hrun
    obtain ⟨before', ⟨between, n₁⟩, body', hbefore, hbody, rfl⟩ := run_stmt_staged.mp hrun
    -- The stage of the statement behind is merged into this one.
    obtain ⟨more, core, mid, rfl, hcore, hmore, hrests⟩ := hBody _ _ _ _ hbody
    have hstage := (stmts_rest hBefore hbefore).append hmore
    refine ⟨before' ++ more, core.withSpan span, mid, restage_stage hcore span before' more, ?_,
      hstage, fun place => ?_⟩
    · rw [isStaged_withSpan, hcore]
    · rw [withSpan_withSpan]
      exact hrests place

/-- **One walk is enough.** A second walk leaves what the first has made as it is. -/
theorem body_again (carries : Carries model R) (hvisit : Finishes model visit R)
    {locals here : Locals} (hR : R locals here) {statements result : List Stmt}
    (h : body model visit locals statements = .ok result) :
    body model visit here result = .ok result := by
  obtain ⟨point, hrun⟩ := body_eq_ok.mp h
  obtain ⟨there, last, hagain, -⟩ :=
    stmts_rest (fun statement _ => stmt_reaches carries hvisit statement) hrun here 1 hR
  exact body_eq_ok.mpr ⟨_, hagain⟩

end Statements

end Walk

/-! ## The passes -/

namespace Receiver

variable {model : Model} {locals : Locals}

/-- An object is passed as it stands, or by a call with it as the only argument. -/
theorem argument_result {owner : String} {object receiver : Expr} {type : Ty}
    (h : argument model owner object type = .ok receiver) :
    receiver = object ∨
      ∃ name, receiver = .call object.span (.ident object.span name) none [object] := by
  have haddress (h : addressOf model object = .ok receiver) :
      ∃ name, receiver = .call object.span (.ident object.span name) none [object] := by
    unfold addressOf builtinCallee at h
    cases hbuiltin : model.builtin? .addressOf with
    | none =>
      rw [hbuiltin] at h
      cases h
    | some symbol =>
      rw [hbuiltin] at h
      cases h
      exact ⟨symbol.name, rfl⟩
  unfold argument at h
  split at h
  · exact .inl (Except.ok.inj h).symm
  · exact .inl (Except.ok.inj h).symm
  · split at h
    · exact .inl (Except.ok.inj h).symm
    · exact .inr (haddress h)
  · exact .inr (haddress h)

/-- A call that gets a receiver keeps its arguments and has the object in the first. -/
theorem injectCall_receives {value result : Expr} (h : injectCall model locals value = .ok result) :
    result = value ∨ ∃ span place object name typeArgs args owner type receiver,
      value = .call span (.property place object name) typeArgs args ∧
      argument model owner object type = .ok receiver ∧
      result = .receiverCall span owner name (receiver :: args) := by
  unfold injectCall at h
  split at h
  · split at h
    · exact .inl (Except.ok.inj h).symm
    · obtain ⟨target, -, h⟩ := Lowered.bind_eq_ok.mp h
      cases target with
      | none => exact .inl (Except.ok.inj h).symm
      | some owner =>
        obtain ⟨receiver, hreceiver, h⟩ := Lowered.bind_eq_ok.mp h
        exact .inr ⟨_, _, _, _, _, _, owner, _, receiver, rfl, hreceiver, (Except.ok.inj h).symm⟩
  · exact .inl (Except.ok.inj h).symm

/-- A receiver call is left alone, and so is the call that takes the address of its receiver. -/
theorem injecting_quiets (model : Model) (locals : Locals) (asked : List Stmt → Prop) :
    Walk.Quiets (injecting model locals) (injecting model locals) asked := by
  intro value result pending after hchildren hrun hasked
  obtain ⟨hresult, rfl⟩ := Lowered.run_lift.mp hrun
  refine ⟨?_, hasked⟩
  rcases injectCall_receives hresult with rfl | ⟨span, place, object, name, typeArgs, args, owner,
    type, receiver, rfl, hreceiver, rfl⟩
  · -- Nothing has been done here, and the second visit sees the same.
    refine Walk.still_iff.mpr ⟨?_, hchildren⟩
    rw [injecting, hresult]
    rfl
  · have hother (other : Expr) (hcall : other.isCall = false) :
        injecting model locals other = pure other := injecting_onlyCalls other hcall
    have hcallee := hchildren (.property place object name) (by simp [Expr.children])
    have hobject : Walk.Still (injecting model locals) object :=
      (Walk.still_iff.mp hcallee).2 object (by simp [Expr.children])
    -- A receiver call is no call to the second visit. Its arguments were finished before it, and
    -- the receiver is built from an object that was.
    refine Walk.still_iff.mpr ⟨hother _ rfl, List.forall_mem_cons.mpr ⟨?_, fun arg hm => ?_⟩⟩
    · rcases argument_result hreceiver with rfl | ⟨callee, rfl⟩
      · exact hobject
      · refine Walk.still_iff.mpr ⟨rfl, List.forall_mem_cons.mpr ⟨?_, by simpa using hobject⟩⟩
        exact Walk.still_iff.mpr ⟨hother _ rfl, by simp [Expr.children]⟩
    · exact hchildren arg (by simp [Expr.children, hm])

theorem run_idempotent {body result : List Stmt} (h : run model locals body = .ok result) :
    run model locals result = .ok result := by
  refine Walk.body_again (.eq model) (.of_quiets ?_ fun _ => rfl) rfl h
  rintro here _ rfl
  exact injecting_quiets model here _

theorem bindThis_bindThis (value : Expr) : bindThis (bindThis value) = bindThis value := by
  cases value <;> rfl

/-- The parameter is no mention of the current instance. -/
theorem binding_quiets (locals here : Locals) (asked : List Stmt → Prop) :
    Walk.Quiets (binding locals) (binding here) asked := by
  intro value result pending after hchildren hrun hasked
  obtain ⟨rfl, rfl⟩ := Lowered.run_pure.mp hrun
  refine ⟨Walk.still_iff.mpr ⟨?_, ?_⟩, hasked⟩
  · rw [binding, bindThis_bindThis]
  · cases value with
    | thisRef => exact nofun
    | _ => exact hchildren

theorem bindReceiver_idempotent {body result : List Stmt}
    (h : bindReceiver model locals body = .ok result) :
    bindReceiver model locals result = .ok result :=
  Walk.body_again (.eq model) (.of_quiets (fun locals here _ => binding_quiets locals here _)
    fun _ => rfl) rfl h

end Receiver

namespace Address

variable {model : Model}

/-- Bindings do not matter to operands that all have an address. -/
abbrev Anyhow : Locals → Locals → Prop := fun _ _ => True

theorem inert_declaration (span : Span) (name : String) (type : TypeNode) :
    Walk.Inert model (materializeCall model) Anyhow [declaration span name type] :=
  fun _ here next _ => ⟨here.declare name (model.typeFromNode type), next, rfl, trivial⟩

/-- An address call whose operand has an address is left alone, as is what is no address call. -/
theorem materializeCall_eq_pure {locals : Locals} {value : Expr} (h : ownOperands model value = []) :
    materializeCall model locals value = pure value := by
  unfold materializeCall
  split
  · rename_i span callee typeArgs operand
    rw [if_neg]
    intro hneeds
    rw [ownOperands, if_pos hneeds] at h
    cases h
  · rfl

theorem still_ident (model : Model) (here : Locals) (span : Span) (name : String) :
    Walk.Still (materializeCall model here) (.ident span name) :=
  Walk.still_iff.mpr ⟨rfl, nofun⟩

/-- In the place of an operand's call stands nothing that needs a variable. -/
theorem still_throughTemporary {here : Locals} {operand callee : Expr}
    (hoperand : Walk.Still (materializeCall model here) operand)
    (hcallee : Walk.Still (materializeCall model here) callee) (span : Span) (name : String)
    (typeArgs : Option (List TypeNode)) :
    Walk.Still (materializeCall model here) (throughTemporary span name operand callee typeArgs) := by
  have hname := still_ident model here operand.span name
  have hassigned : Walk.Still (materializeCall model here)
      (.binary operand.span .assign (.ident operand.span name) operand) :=
    Walk.still_iff.mpr ⟨rfl, by simp [Expr.children, hname, hoperand]⟩
  have hcall : Walk.Still (materializeCall model here)
      (.call span callee typeArgs [.ident operand.span name]) := by
    refine Walk.still_iff.mpr ⟨materializeCall_eq_pure ?_, by simp [Expr.children, hname, hcallee]⟩
    simp [ownOperands, Expr.isAddressable]
  have hcomma : Walk.Still (materializeCall model here)
      (.comma span [.binary operand.span .assign (.ident operand.span name) operand,
        .call span callee typeArgs [.ident operand.span name]]) :=
    Walk.still_iff.mpr ⟨rfl, by simp [Expr.children, hassigned, hcall]⟩
  exact Walk.still_iff.mpr ⟨rfl, List.forall_mem_singleton.mpr hcomma⟩

/-- A call on a variable is left alone. What is asked for is the declaration of the variable. -/
theorem materializeCall_quiets (model : Model) (locals here : Locals) :
    Walk.Quiets (materializeCall model locals) (materializeCall model here)
      (Walk.Inert model (materializeCall model) Anyhow) := by
  intro value result pending after hchildren hrun hasked
  cases hown : ownOperands model value with
  | nil =>
    rw [materializeCall_eq_pure hown] at hrun
    obtain ⟨rfl, rfl⟩ := Lowered.run_pure.mp hrun
    exact ⟨Walk.still_iff.mpr ⟨materializeCall_eq_pure hown, hchildren⟩, hasked⟩
  | cons first others =>
    unfold ownOperands at hown
    split at hown
    · rename_i span callee typeArgs operand
      split at hown
      · rename_i hneeds
        rw [materializeCall, if_pos hneeds] at hrun
        split at hrun
        · cases hrun
        · rename_i type htype
          obtain ⟨current, between, hget, hset⟩ := Lowered.run_bind.mp hrun
          obtain ⟨rfl, rfl⟩ := Lowered.run_get.mp hget
          obtain ⟨written, last, hset, hpure⟩ := Lowered.run_bind.mp hset
          obtain rfl := Lowered.run_set.mp hset
          obtain ⟨rfl, rfl⟩ := Lowered.run_pure.mp hpure
          -- The new declaration is walked with bindings of its own, which no operand looks at.
          refine ⟨?_, hasked.append (inert_declaration _ _ _)⟩
          exact still_throughTemporary (hchildren operand (by simp [Expr.children]))
            (hchildren callee (by simp [Expr.children])) _ _ _
      · cases hown
    · cases hown

theorem run_idempotent {locals : Locals} {body result : List Stmt}
    (h : run model locals body = .ok result) : run model locals result = .ok result :=
  Walk.body_again { push := fun _ _ => trivial, declare := fun _ _ => trivial }
    (.of_quiets (fun locals here _ => materializeCall_quiets model locals here) fun _ => trivial)
    trivial h

end Address

/-- **The passes over expressions are idempotent.** Each leaves its own result as it is. -/
theorem passes_idempotent (model : Model) (locals : Locals) (body result : List Stmt) :
    (Receiver.run model locals body = .ok result → Receiver.run model locals result = .ok result) ∧
    (Address.run model locals body = .ok result → Address.run model locals result = .ok result) ∧
    (Receiver.bindReceiver model locals body = .ok result →
      Receiver.bindReceiver model locals result = .ok result) :=
  ⟨Receiver.run_idempotent, Address.run_idempotent, Receiver.bindReceiver_idempotent⟩

/-! ## A pen made for one stroke -/

open Build in
/-- A statement with a stage, both with calls of methods. One is called on a pen that is made for it,
which has no address. -/
def madeStroke : List Stmt :=
  [.staged {} [exprStmt (methodCall thisRef "next" [])]
    (exprStmt (methodCall (call (ident "make") []) "stroke"
      [methodCall (ident "place") "next" []]))]

/-- The places where a node draws. -/
def nodeLocals : Locals := { Receiver.cursorLocals with thisClass := some "Node" }

theorem passes_idempotent_madeStroke : ∃ model injected threaded bound,
    Model.build Receiver.cursor [] = .ok model ∧
    Receiver.run model nodeLocals madeStroke = .ok injected ∧
    Receiver.run model nodeLocals injected = .ok injected ∧
    Address.run model nodeLocals injected = .ok threaded ∧
    Address.run model nodeLocals threaded = .ok threaded ∧
    Receiver.bindReceiver model nodeLocals threaded = .ok bound ∧
    Receiver.bindReceiver model nodeLocals bound = .ok bound := by
  obtain ⟨model, injected, threaded, bound, hmodel, hinjected, hthreaded, hbound⟩ :
      ∃ model injected threaded bound, Model.build Receiver.cursor [] = .ok model ∧
        Receiver.run model nodeLocals madeStroke = .ok injected ∧
        Address.run model nodeLocals injected = .ok threaded ∧
        Receiver.bindReceiver model nodeLocals threaded = .ok bound :=
    ⟨_, _, _, _, rfl, rfl, rfl, rfl⟩
  exact ⟨model, injected, threaded, bound, hmodel, hinjected,
    (passes_idempotent model nodeLocals madeStroke injected).1 hinjected, hthreaded,
    (passes_idempotent model nodeLocals injected threaded).2.1 hthreaded, hbound,
    (passes_idempotent model nodeLocals threaded bound).2.2 hbound⟩

end NativeLowering
