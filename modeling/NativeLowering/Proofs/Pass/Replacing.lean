import NativeLowering.Proofs.Address.Complete

/-!
# Passes that only replace expressions

Some visits ask for nothing: they put an expression in the place of another, or fail. A walk with
such a visit leaves everything else as it is. The statements of the body stay with their spans, none
of them gets a stage, and a variable is bound with the type of its new initial value
(`Stmt.Replaced`).

If the walk fails then at an expression of the body, with the bindings that the walk has come there
with (`Stmt.Reaches`). Both are said at once, of one run of the walk (`Walk.body_replaced`).
-/

set_option autoImplicit false

namespace NativeLowering

open Address (Unstaged UnstagedOption UnstagedAll)

/-! ## Either way -/

namespace Lowered

variable {α β : Type}

/-- The computation has a result that meets the first condition, or it fails with an error that
meets the second. -/
def Either (P : α → Prop) (F : LoweringError → Prop) : Lowered α → Prop
  | .ok value => P value
  | .error e => F e

variable {P P' : α → Prop} {Q : β → Prop} {F F' : LoweringError → Prop}

theorem Either.bind {first : Lowered α} {next : α → Lowered β} (h : Either P F first)
    (hnext : ∀ value, P value → Either Q F (next value)) : Either Q F (first >>= next) := by
  cases first with
  | ok value => exact hnext value h
  | error e => exact h

theorem Either.map {computed : Lowered α} {change : α → β} (h : Either P F computed)
    (hchange : ∀ value, P value → Q (change value)) : Either Q F (computed.map change) := by
  cases computed with
  | ok value => exact hchange value h
  | error e => exact h

theorem Either.imp {computed : Lowered α} (h : Either P F computed)
    (hresult : ∀ value, P value → P' value) (herror : ∀ e, F e → F' e) : Either P' F' computed := by
  cases computed with
  | ok value => exact hresult value h
  | error e => exact herror e h

/-- A failure of the first computation is one of the whole. -/
theorem Either.andThen {first : Lowered α} {next : α → Lowered β} (h : Either P F first)
    (herror : ∀ e, F e → F' e) (hnext : ∀ value, P value → Either Q F' (next value)) :
    Either Q F' (first >>= next) :=
  (h.imp (fun _ hvalue => hvalue) herror).bind hnext

/-- In a step with a state the computation leaves the state alone. -/
theorem Either.lift {σ : Type} {computed : Lowered α} (h : Either P F computed) (state : σ) :
    Either (fun (value, after) => P value ∧ after = state) F
      ((liftM computed : StateT σ Lowered α).run state) := by
  cases computed with
  | ok value => exact ⟨h, rfl⟩
  | error e => exact h

end Lowered

open Lowered (Either)

/-! ## What becomes of the statements -/

section Replacing

variable (model : Model) (R : Locals → Expr → Expr → Prop)

/-- Variables with new initial values. Each is bound for those after it. -/
inductive VariableDecl.ReplacedAll : Locals → List VariableDecl → List VariableDecl → Locals → Prop
  | nil {locals : Locals} : ReplacedAll locals [] [] locals
  | cons {locals after : Locals} {decl : VariableDecl} {init : Option Expr}
      {rest rest' : List VariableDecl} :
      Option.Rel (R locals) decl.init init →
      ReplacedAll (declareLocal model locals { decl with init }) rest rest' after →
      ReplacedAll locals (decl :: rest) ({ decl with init } :: rest') after

/-- The variables have the expression as an initial value, and the bindings are those there. -/
inductive VariableDecl.ReachesAll : Locals → List VariableDecl → Locals → Expr → Prop
  | head {locals : Locals} {decl : VariableDecl} {rest : List VariableDecl} {value : Expr} :
      decl.init = some value → ReachesAll locals (decl :: rest) locals value
  | tail {locals here : Locals} {decl : VariableDecl} {init : Option Expr}
      {rest : List VariableDecl} {value : Expr} :
      Option.Rel (R locals) decl.init init →
      ReachesAll (declareLocal model locals { decl with init }) rest here value →
      ReachesAll locals (decl :: rest) here value

namespace Stmt

mutual

/-- A statement with new expressions, each related to the one it replaces under the bindings at its
place, and the bindings behind the statement. Nothing else changes. -/
inductive Replaced : Locals → Stmt → Stmt → Locals → Prop
  | vars {locals after : Locals} {span : Span} {kind : VariableKind}
      {decls decls' : List VariableDecl} :
      VariableDecl.ReplacedAll model R locals decls decls' after →
      Replaced locals (.vars span kind decls) (.vars span kind decls') after
  | expr {locals : Locals} {span : Span} {value value' : Expr} : R locals value value' →
      Replaced locals (.expr span value) (.expr span value') locals
  | ret {locals : Locals} {span : Span} {value value' : Option Expr} :
      Option.Rel (R locals) value value' →
      Replaced locals (.ret span value) (.ret span value') locals
  | ifThen {locals inner : Locals} {span : Span} {condition condition' : Expr}
      {thenBranch thenBranch' : Stmt} :
      R locals condition condition' →
      Replaced (locals.push .block) thenBranch thenBranch' inner →
      Replaced locals (.ifElse span condition thenBranch none)
        (.ifElse span condition' thenBranch' none) locals
  | ifElse {locals inner other : Locals} {span : Span} {condition condition' : Expr}
      {thenBranch thenBranch' elseBranch elseBranch' : Stmt} :
      R locals condition condition' →
      Replaced (locals.push .block) thenBranch thenBranch' inner →
      Replaced (locals.push .block) elseBranch elseBranch' other →
      Replaced locals (.ifElse span condition thenBranch (some elseBranch))
        (.ifElse span condition' thenBranch' (some elseBranch')) locals
  | loop {locals inner : Locals} {span : Span} {condition condition' : Expr} {body body' : Stmt} :
      R locals condition condition' → Replaced (locals.push .loop) body body' inner →
      Replaced locals (.loop span condition body) (.loop span condition' body') locals
  | brk {locals : Locals} {span : Span} : Replaced locals (.brk span) (.brk span) locals
  | cont {locals : Locals} {span : Span} : Replaced locals (.cont span) (.cont span) locals
  | block {locals inner : Locals} {span : Span} {body body' : List Stmt} :
      ReplacedAll (locals.push .block) body body' inner →
      Replaced locals (.block span body) (.block span body') locals

inductive ReplacedAll : Locals → List Stmt → List Stmt → Locals → Prop
  | nil {locals : Locals} : ReplacedAll locals [] [] locals
  | cons {locals between after : Locals} {stmt stmt' : Stmt} {rest rest' : List Stmt} :
      Replaced locals stmt stmt' between → ReplacedAll between rest rest' after →
      ReplacedAll locals (stmt :: rest) (stmt' :: rest') after

end

mutual

/-- The statement has the expression, and the bindings are those there, when everything before it
has been replaced. -/
inductive Reaches : Locals → Stmt → Locals → Expr → Prop
  | vars {locals here : Locals} {span : Span} {kind : VariableKind} {decls : List VariableDecl}
      {value : Expr} :
      VariableDecl.ReachesAll model R locals decls here value →
      Reaches locals (.vars span kind decls) here value
  | expr {locals : Locals} {span : Span} {value : Expr} :
      Reaches locals (.expr span value) locals value
  | ret {locals : Locals} {span : Span} {value : Expr} :
      Reaches locals (.ret span (some value)) locals value
  | condition {locals : Locals} {span : Span} {condition : Expr} {thenBranch : Stmt}
      {elseBranch : Option Stmt} :
      Reaches locals (.ifElse span condition thenBranch elseBranch) locals condition
  | thenBranch {locals here : Locals} {span : Span} {condition value : Expr} {thenBranch : Stmt}
      {elseBranch : Option Stmt} :
      Reaches (locals.push .block) thenBranch here value →
      Reaches locals (.ifElse span condition thenBranch elseBranch) here value
  | elseBranch {locals here : Locals} {span : Span} {condition value : Expr}
      {thenBranch elseBranch : Stmt} :
      Reaches (locals.push .block) elseBranch here value →
      Reaches locals (.ifElse span condition thenBranch (some elseBranch)) here value
  | loopCondition {locals : Locals} {span : Span} {condition : Expr} {body : Stmt} :
      Reaches locals (.loop span condition body) locals condition
  | loopBody {locals here : Locals} {span : Span} {condition value : Expr} {body : Stmt} :
      Reaches (locals.push .loop) body here value →
      Reaches locals (.loop span condition body) here value
  | block {locals here : Locals} {span : Span} {body : List Stmt} {value : Expr} :
      ReachesAll (locals.push .block) body here value →
      Reaches locals (.block span body) here value

inductive ReachesAll : Locals → List Stmt → Locals → Expr → Prop
  | head {locals here : Locals} {stmt : Stmt} {rest : List Stmt} {value : Expr} :
      Reaches locals stmt here value → ReachesAll locals (stmt :: rest) here value
  | tail {locals between here : Locals} {stmt stmt' : Stmt} {rest : List Stmt} {value : Expr} :
      Replaced model R locals stmt stmt' between → ReachesAll between rest here value →
      ReachesAll locals (stmt :: rest) here value

end

end Stmt

end Replacing

/-! ## The walk -/

namespace Walk

variable {model : Model} {visit : Visit} {R : Locals → Expr → Expr → Prop}
  {F : Locals → Expr → LoweringError → Prop}

/-- A visit that asks for nothing: it gives an expression that is related to the one visited, or it
fails. -/
def Replaces (visit : Visit) (R : Locals → Expr → Expr → Prop)
    (F : Locals → Expr → LoweringError → Prop) : Prop :=
  ∀ locals value next, Either (fun (result, pending) => R locals value result ∧ pending = ⟨next, []⟩)
    (F locals value) ((expr (visit locals) value).run ⟨next, []⟩)

theorem inFrame_either {α : Type} {walk : StmtM α} {P : α × Point → Prop} {F : LoweringError → Prop}
    (kind : FrameKind) (point : Point)
    (h : Either P F (walk.run ⟨point.locals.push kind, point.next⟩)) :
    Either (fun (result, after) => ∃ inner, P (result, inner) ∧ after = ⟨point.locals, inner.next⟩) F
      ((inFrame kind walk).run point) := by
  unfold inFrame
  simp only [StateT.run_bind, StateT.run_get, StateT.run_modify, pure_bind]
  refine h.bind ?_
  rintro ⟨result, inner⟩ hresult
  exact ⟨inner, hresult, rfl⟩

/-- What becomes of a statement, and where the walk stops if it fails. -/
def StmtReplaced (model : Model) (visit : Visit) (R : Locals → Expr → Expr → Prop)
    (F : Locals → Expr → LoweringError → Prop) (statement : Stmt) : Prop :=
  ∀ point : Point, Either (fun (result, after) =>
      Stmt.Replaced model R point.locals statement result after.locals ∧ after.next = point.next)
    (fun e => ∃ here value, Stmt.Reaches model R point.locals statement here value ∧ F here value e)
    ((stmt model visit statement).run point)

theorem elseStmt_replaced {branch : Stmt} (h : StmtReplaced model visit R F branch) (point : Point) :
    Either (fun (result, after) => ∃ branch' inner, result = some branch' ∧
        Stmt.Replaced model R (point.locals.push .block) branch branch' inner ∧ after = point)
      (fun e => ∃ here value,
        Stmt.Reaches model R (point.locals.push .block) branch here value ∧ F here value e)
      ((elseStmt model visit (some branch)).run point) := by
  refine (inFrame_either .block point (h _)).bind ?_
  rintro ⟨branch', after⟩ ⟨inner, ⟨hbranch, hnext⟩, rfl⟩
  exact ⟨branch', inner.locals, rfl, hbranch, by rw [hnext]⟩

theorem stmts_replaced {body : List Stmt} (h : ∀ statement ∈ body, Unstaged statement →
      StmtReplaced model visit R F statement) (hplain : UnstagedAll body) (point : Point) :
    Either (fun (result, after) =>
        Stmt.ReplacedAll model R point.locals body result after.locals ∧ after.next = point.next)
      (fun e => ∃ here value, Stmt.ReachesAll model R point.locals body here value ∧ F here value e)
      ((stmts model visit body).run point) := by
  induction body generalizing point with
  | nil => exact ⟨.nil, rfl⟩
  | cons statement rest ih =>
    refine (h statement (by simp) hplain.1 point).andThen ?_ ?_
    · rintro e ⟨here, value, hreaches, he⟩
      exact ⟨here, value, .head hreaches, he⟩
    · rintro ⟨statement', between⟩ ⟨hstatement, hnext⟩
      refine (ih (fun other hm => h other (by simp [hm])) hplain.2 _).andThen ?_ ?_
      · rintro e ⟨here, value, hreaches, he⟩
        exact ⟨here, value, .tail hstatement hreaches, he⟩
      · rintro ⟨rest', after⟩ ⟨hrest, hlast⟩
        exact ⟨.cons hstatement hrest, hlast.trans hnext⟩

variable (hvisit : Replaces visit R F)
include hvisit

theorem atPoint_replaced (value : Expr) (point : Point) :
    Either (fun ((result, before), after) =>
        R point.locals value result ∧ before = [] ∧ after = point)
      (F point.locals value) ((atPoint visit value).run point) := by
  unfold atPoint
  simp only [StateT.run_bind, StateT.run_get, pure_bind]
  refine ((hvisit point.locals value point.next).lift point).bind ?_
  rintro ⟨⟨result, pending⟩, after⟩ ⟨⟨hresult, rfl⟩, rfl⟩
  exact ⟨hresult, rfl, rfl⟩

theorem atPointOption_replaced (value : Option Expr) (point : Point) :
    Either (fun ((result, before), after) =>
        Option.Rel (R point.locals) value result ∧ before = [] ∧ after = point)
      (fun e => ∃ inner, value = some inner ∧ F point.locals inner e)
      ((atPointOption visit value).run point) := by
  cases value with
  | none => exact ⟨.none, rfl, rfl⟩
  | some value =>
    refine (atPoint_replaced hvisit value point).andThen
      (fun e he => ⟨value, rfl, he⟩) ?_
    rintro ⟨⟨result, before⟩, after⟩ ⟨hresult, hbefore, hafter⟩
    exact ⟨.some hresult, hbefore, hafter⟩

theorem varDecl_replaced (decl : VariableDecl) (point : Point) :
    Either (fun ((result, before), after) => ∃ init, Option.Rel (R point.locals) decl.init init ∧
        result = { decl with init } ∧ before = [] ∧
        after = ⟨declareLocal model point.locals result, point.next⟩)
      (fun e => ∃ inner, decl.init = some inner ∧ F point.locals inner e)
      ((varDecl model visit decl).run point) := by
  refine (atPointOption_replaced hvisit decl.init point).bind ?_
  rintro ⟨⟨init, before⟩, after⟩ ⟨hinit, rfl, rfl⟩
  unfold declareLocal
  dsimp only
  cases hname : decl.name.ident? with
  | none => exact ⟨init, hinit, rfl, rfl, by simp only [hname]⟩
  | some name => exact ⟨init, hinit, rfl, rfl, by simp only [hname]⟩

theorem varDecls_replaced (decls : List VariableDecl) (point : Point) :
    Either (fun ((result, before), after) =>
        VariableDecl.ReplacedAll model R point.locals decls result after.locals ∧ before = [] ∧
          after.next = point.next)
      (fun e => ∃ here value, VariableDecl.ReachesAll model R point.locals decls here value ∧
        F here value e)
      ((varDecls model visit decls).run point) := by
  induction decls generalizing point with
  | nil => exact ⟨.nil, rfl, rfl⟩
  | cons decl rest ih =>
    refine (varDecl_replaced hvisit decl point).andThen ?_ ?_
    · rintro e ⟨value, hvalue, he⟩
      exact ⟨_, value, .head hvalue, he⟩
    · rintro ⟨⟨decl', before⟩, between⟩ ⟨init, hinit, rfl, rfl, rfl⟩
      refine (ih _).andThen ?_ ?_
      · rintro e ⟨here, value, hreaches, he⟩
        exact ⟨here, value, .tail hinit hreaches, he⟩
      · rintro ⟨⟨rest', more⟩, after⟩ ⟨hrest, rfl, hnext⟩
        exact ⟨.cons hinit hrest, rfl, hnext⟩

theorem stmt_replaced (statement : Stmt) : Unstaged statement →
    StmtReplaced model visit R F statement := by
  induction statement using Stmt.ind with
  | vars span kind decls =>
    intro _ point
    refine (varDecls_replaced hvisit decls point).andThen ?_ ?_
    · rintro e ⟨here, value, hreaches, he⟩
      exact ⟨here, value, .vars hreaches, he⟩
    · rintro ⟨⟨decls', before⟩, after⟩ ⟨hdecls, rfl, hnext⟩
      exact ⟨.vars hdecls, hnext⟩
  | expr span value =>
    intro _ point
    refine (atPoint_replaced hvisit value point).andThen
      (fun e he => ⟨_, value, .expr, he⟩) ?_
    rintro ⟨⟨value', before⟩, after⟩ ⟨hvalue, rfl, rfl⟩
    exact ⟨.expr hvalue, rfl⟩
  | ret span value =>
    intro _ point
    refine (atPointOption_replaced hvisit value point).andThen ?_ ?_
    · rintro e ⟨inner, rfl, he⟩
      exact ⟨_, inner, .ret, he⟩
    · rintro ⟨⟨value', before⟩, after⟩ ⟨hvalue, rfl, rfl⟩
      exact ⟨.ret hvalue, rfl⟩
  | ifElse span condition thenBranch elseBranch hThen hElse =>
    intro hplain point
    refine (atPoint_replaced hvisit condition point).andThen
      (fun e he => ⟨_, condition, .condition, he⟩) ?_
    rintro ⟨⟨condition', before⟩, between⟩ ⟨hcondition, rfl, rfl⟩
    refine (inFrame_either .block _ (hThen hplain.1 _)).andThen ?_ ?_
    · rintro e ⟨here, value, hreaches, he⟩
      exact ⟨here, value, .thenBranch hreaches, he⟩
    rintro ⟨thenBranch', after⟩ ⟨inner, ⟨hthen, hnext⟩, rfl⟩
    cases elseBranch with
    | none => exact ⟨.ifThen hcondition hthen, hnext⟩
    | some branch =>
      refine (elseStmt_replaced (hElse branch rfl hplain.2) _).andThen ?_ ?_
      · rintro e ⟨here, value, hreaches, he⟩
        exact ⟨here, value, .elseBranch hreaches, he⟩
      · rintro ⟨_, after⟩ ⟨branch', other, rfl, hother, rfl⟩
        exact ⟨.ifElse hcondition hthen hother, hnext⟩
  | loop span condition body hBody =>
    intro hplain point
    refine (atPoint_replaced hvisit condition point).andThen
      (fun e he => ⟨_, condition, .loopCondition, he⟩) ?_
    rintro ⟨⟨condition', before⟩, between⟩ ⟨hcondition, rfl, rfl⟩
    refine (inFrame_either .loop _ (hBody hplain _)).andThen ?_ ?_
    · rintro e ⟨here, value, hreaches, he⟩
      exact ⟨here, value, .loopBody hreaches, he⟩
    · rintro ⟨body', after⟩ ⟨inner, ⟨hbody, hnext⟩, rfl⟩
      exact ⟨.loop hcondition hbody, hnext⟩
  | brk span => exact fun _ point => ⟨.brk, rfl⟩
  | cont span => exact fun _ point => ⟨.cont, rfl⟩
  | block span body hBody =>
    intro hplain point
    refine (inFrame_either .block _ (stmts_replaced hBody hplain _)).andThen ?_ ?_
    · rintro e ⟨here, value, hreaches, he⟩
      exact ⟨here, value, .block hreaches, he⟩
    · rintro ⟨body', after⟩ ⟨inner, ⟨hbody, hnext⟩, rfl⟩
      exact ⟨.block hbody, hnext⟩
  | staged => exact fun hplain => hplain.elim

/-- A walk with a visit that asks for nothing replaces the expressions of the body, or it fails at
one of them. -/
theorem body_replaced {statements : List Stmt} (hplain : UnstagedAll statements) (locals : Locals) :
    Either (fun result => ∃ after, Stmt.ReplacedAll model R locals statements result after)
      (fun e => ∃ here value, Stmt.ReachesAll model R locals statements here value ∧ F here value e)
      (body model visit locals statements) := by
  have h := @stmts_replaced model _ _ _ _ (fun statement _ => stmt_replaced hvisit statement) hplain
    ⟨locals, 1⟩
  exact h.map fun (_, after) hresult => ⟨after.locals, hresult.1⟩

end Walk

end NativeLowering
