import NativeLowering.Proofs.Emit.LegibleText
import NativeLowering.Proofs.Emit.Records
import NativeLowering.Syntax.Build

/-!
# Statements line by line

A statement could be written directly: every line once, at the depth where it stands
(`Plain.stmt`). What really happens is that it is written into a buffer of its own, which is
trimmed, joined with what is staged before it and indented again, once for every statement around
it. For legible declarations the two are the same (`functionLike_plain`).

What is not legible can tell them apart: a name that begins with a blank loses it when the statement
around it is trimmed (`functionLike_trims`).
-/

set_option autoImplicit false

namespace NativeLowering

open Text (Unbroken Closes StartsLine FillsLine)

/-! ## Pages -/

/-- Lines of statements, with the lines they put at the top of the function and the bindings in
scope after them. -/
structure Page where
  hoisted : List String
  lines : List Line
  locals : Locals

namespace Page

def ofLine (depth : Nat) (text : String) (locals : Locals) : Page := ⟨[], [⟨depth, text⟩], locals⟩

def andThen (first second : Page) : Page :=
  ⟨first.hoisted ++ second.hoisted, first.lines ++ second.lines, second.locals⟩

/-- Lines in braces. The bindings made inside end with them. -/
def braced (depth : Nat) (locals : Locals) (inner : Page) : Page :=
  ⟨inner.hoisted, ⟨depth, "\x7b"⟩ :: inner.lines ++ [⟨depth, "\x7d"⟩], locals⟩

/-- The lines that much deeper. -/
def shift (depth : Nat) (page : Page) : Page :=
  { page with lines := page.lines.map (Line.shift depth) }

/-- A function with the lines as its body. -/
def function (layout : Layout) (signature : String) (body : Page) : String :=
  layout.joined (⟨0, signature⟩ :: ⟨0, "\x7b"⟩ :: body.hoisted.map (Line.mk 1) ++ body.lines ++
    [⟨0, "\x7d"⟩])

@[simp] theorem shift_locals (page : Page) (depth : Nat) :
    (page.shift depth).locals = page.locals := rfl

theorem shift_zero (page : Page) : page.shift 0 = page := by
  have hzero : Line.shift 0 = id := by
    funext line
    simp [Line.shift]
  rw [shift, hzero, List.map_id]

theorem shift_shift (page : Page) (depth more : Nat) :
    (page.shift more).shift depth = page.shift (depth + more) := by
  simp [shift, Function.comp_def, Line.shift, Nat.add_assoc]

theorem fills_shift {page : Page} (h : ∀ line ∈ page.lines, FillsLine line.text) (depth : Nat) :
    ∀ line ∈ (page.shift depth).lines, FillsLine line.text := by
  simpa [shift, Line.shift] using h

theorem shift_ofLine (depth : Nat) (text : String) (locals : Locals) :
    (ofLine 0 text locals).shift depth = ofLine depth text locals := rfl

theorem shift_andThen (first second : Page) (depth : Nat) :
    (first.andThen second).shift depth = (first.shift depth).andThen (second.shift depth) := by
  simp [shift, andThen]

theorem shift_braced (inner : Page) (locals : Locals) (depth : Nat) :
    (braced 0 locals (inner.shift 1)).shift depth
      = braced depth locals (inner.shift (depth + 1)) := by
  rw [← shift_shift]
  simp [shift, braced, Line.shift]

end Page

/-! ## Writing lines at their depth -/

namespace Plain

/-- A variable takes a line. One with function scope takes a line at the top of the function, and
another if it has a value to begin with. -/
def variableDecl (cx : Context) (depth : Nat) (kind : VariableKind) (locals : Locals)
    (decl : VariableDecl) : Lowered Page := do
  let name ← Emit.variableName decl
  let node ← Emit.variableType decl name
  let type ← cx.typePiece node
  let value ← Draft.initial (exprText cx) locals decl.init
  let locals := locals.declare name (cx.model.typeFromNode node)
  return match kind, value with
    | .varKind, none => ⟨[type ++ " " ++ name ++ ";"], [], locals⟩
    | .varKind, some value =>
      ⟨[type ++ " " ++ name ++ ";"], [⟨depth, name ++ " = " ++ value ++ ";"⟩], locals⟩
    | _, none => .ofLine depth (type ++ " " ++ name ++ ";") locals
    | _, some value => .ofLine depth (type ++ " " ++ name ++ " = " ++ value ++ ";") locals

def variableDecls (cx : Context) (depth : Nat) (kind : VariableKind) :
    Locals → List VariableDecl → Lowered Page
  | locals, [] => .ok ⟨[], [], locals⟩
  | locals, decl :: rest => do
    let first ← variableDecl cx depth kind locals decl
    let rest ← variableDecls cx depth kind first.locals rest
    return first.andThen rest

/-- The head of a conditional or a loop. -/
def head (cx : Context) (depth : Nat) (locals : Locals) (word : String) (condition : Expr) :
    Lowered Page := do
  let text ← exprText cx locals condition
  return .ofLine depth (word ++ " (" ++ text ++ ")") locals

/-- A branch or loop body: a single statement stands in braces like a block. -/
def branch (depth : Nat) (locals : Locals) (stmt : Stmt) (asBlock asSingle : Lowered Page) :
    Lowered Page :=
  if stmt.isBlock then asBlock else asSingle.map (Page.braced depth locals)

mutual

/-- The lines of a statement at a depth. -/
def stmt (cx : Context) : Nat → Locals → Stmt → Lowered Page
  | depth, locals, .vars _ kind decls => variableDecls cx depth kind locals decls
  | depth, locals, .expr _ value => do
    let text ← exprText cx locals value
    return .ofLine depth (text ++ ";") locals
  | depth, locals, .ret _ none => .ok (.ofLine depth "return;" locals)
  | depth, locals, .ret _ (some value) => do
    let text ← exprText cx locals value
    return .ofLine depth ("return " ++ text ++ ";") locals
  | depth, locals, .ifElse _ condition thenBranch elseBranch => do
    let first ← head cx depth locals "if" condition
    let second ← branch depth locals thenBranch (stmt cx depth locals thenBranch)
      (stmt cx (depth + 1) (locals.push .block) thenBranch)
    let third ← otherwise cx depth locals elseBranch
    return (first.andThen second).andThen third
  | depth, locals, .loop _ condition body => do
    let first ← head cx depth locals "while" condition
    let second ← branch depth locals body (stmt cx depth locals body)
      (stmt cx (depth + 1) (locals.push .loop) body)
    return first.andThen second
  | depth, locals, .brk _ => .ok (.ofLine depth "break;" locals)
  | depth, locals, .cont _ => .ok (.ofLine depth "continue;" locals)
  | depth, locals, .block _ body => do
    let inner ← stmts cx (depth + 1) (locals.push .block) body
    return inner.braced depth locals
  | depth, locals, .staged _ before body => do
    let first ← stmts cx depth locals before
    let second ← stmt cx depth first.locals body
    return first.andThen second

/-- The lines of the branch taken otherwise, if there is one. -/
def otherwise (cx : Context) (depth : Nat) (locals : Locals) : Option Stmt → Lowered Page
  | none => .ok ⟨[], [], locals⟩
  | some other => do
    let second ← branch depth locals other (stmt cx depth locals other)
      (stmt cx (depth + 1) (locals.push .block) other)
    return (Page.ofLine depth "else" locals).andThen second

/-- The lines of statements at a depth. -/
def stmts (cx : Context) (depth : Nat) : Locals → List Stmt → Lowered Page
  | locals, [] => .ok ⟨[], [], locals⟩
  | locals, first :: rest => do
    let first ← stmt cx depth locals first
    let rest ← stmts cx depth first.locals rest
    return first.andThen rest

end

/-- A function, method, constructor or destructor: its signature, and the lines of its body after
the passes, in braces. -/
def function (cx : Context) (shape : Emit.FunctionShape) : Lowered String := do
  let (params, locals) ← Emit.paramRecords cx (.start shape.thisClass) shape.params
  let body ← Emit.loweredBody cx locals shape.body
  let page ← stmts cx 1 locals body
  let record := FunctionRecord.new cx.layout shape.returnType shape.qualifier shape.name
  return page.function cx.layout ({ record with params }.signature true false)

end Plain

/-! ## Drafts and pages -/

/-- The draft, at a depth, has the lines of the page and nothing else. -/
structure Draft.Holds (layout : Layout) (depth : Nat) (draft : Draft) (page : Page) : Prop where
  before : draft.before = ""
  text : draft.text = layout.ended (page.shift depth).lines
  hoisted : draft.hoisted = page.hoisted
  locals : draft.locals = page.locals
  set : SetAt 0 page.lines
  fills : ∀ line ∈ page.hoisted, FillsLine line

/-- The draft of a statement that is still open has the lines of the page in two parts: those that
are staged before the statement, and its own, which may yet lack the last line ending. -/
structure Draft.Prepares (layout : Layout) (draft : Draft) (page : Page) : Prop where
  parts : ∃ earlier own, page.lines = earlier ++ own ∧ SetAt 0 earlier ∧ SetAt 0 own ∧
    draft.before = layout.ended earlier ∧ Text.trim draft.text = layout.joined own
  hoisted : draft.hoisted = page.hoisted
  locals : draft.locals = page.locals
  fills : ∀ line ∈ page.hoisted, FillsLine line

namespace Draft

variable {layout : Layout} {depth : Nat}

theorem holds_nothing (locals : Locals) : Holds layout depth (ofText "" locals) ⟨[], [], locals⟩ :=
  ⟨rfl, rfl, rfl, rfl, .nil, nofun⟩

theorem holds_line {text line : String} (htext : text = layout.ended [⟨0, line⟩])
    (hfills : FillsLine line) (locals : Locals) :
    Holds layout 0 (ofText text locals) (.ofLine 0 line locals) :=
  ⟨rfl, htext, rfl, rfl, .single hfills, nofun⟩

theorem Holds.andThen {first second : Draft} {page other : Page} (h : Holds layout depth first page)
    (h' : Holds layout depth second other) :
    Holds layout depth (first.andThen second) (page.andThen other) where
  before := by simp [Draft.andThen, h.before, h'.before]
  text := by
    rw [Page.shift_andThen, Page.andThen, layout.ended_append, ← h.text, ← h'.text]
    rfl
  hoisted := by simp [Draft.andThen, Page.andThen, h.hoisted, h'.hoisted]
  locals := h'.locals
  set := h.set.append h'.set
  fills := List.forall_mem_append.mpr ⟨h.fills, h'.fills⟩

theorem Holds.braced {inner : Draft} {page : Page} (h : Holds layout 1 inner page)
    (locals : Locals) :
    Holds layout 0 (inner.braced layout 0 locals) (Page.braced 0 locals (page.shift 1)) where
  before := h.before
  text := by
    rw [Page.shift_zero, Page.braced, ← List.singleton_append, List.append_assoc,
      layout.ended_append, layout.ended_append, ← h.text, ← layout.format_line (by decide),
      ← layout.format_line (by decide), ← String.append_assoc]
    rfl
  hoisted := h.hoisted
  locals := rfl
  set := by
    have hclose : FillsLine "\x7d" := by decide
    refine .cons (by decide) rfl (List.forall_mem_append.mpr ⟨Page.fills_shift h.set.fills 1, ?_⟩)
    exact List.forall_mem_singleton.mpr hclose
  fills := h.fills

theorem Holds.prepares {draft : Draft} {page : Page} (h : Holds layout 0 draft page) :
    Prepares layout draft page where
  parts := by
    refine ⟨[], page.lines, rfl, .nil, h.set, h.before, ?_⟩
    rw [h.text, Page.shift_zero, layout.trim_ended h.set]
  hoisted := h.hoisted
  locals := h.locals
  fills := h.fills

theorem prepares_line {text : String} (h : FillsLine text) (locals : Locals) :
    Prepares layout (ofText text locals) (.ofLine 0 text locals) where
  parts := by
    have hset : SetAt 0 [⟨0, text⟩] := .single h
    refine ⟨[], [⟨0, text⟩], rfl, .nil, hset, rfl, ?_⟩
    rw [← layout.trim_joined hset, layout.joined_singleton]
    rfl
  hoisted := rfl
  locals := rfl
  fills := nofun

/-- What is staged before a statement goes on the lines above it. -/
theorem Holds.stages {first second : Draft} {page other : Page} (h : Holds layout 0 first page)
    (h' : Prepares layout second other) :
    Prepares layout (first.asPrelude.andThen second) (page.andThen other) where
  parts := by
    obtain ⟨earlier, own, hlines, hearlier, hown, hbefore, htext⟩ := h'.parts
    refine ⟨page.lines ++ earlier, own, ?_, h.set.append hearlier, hown, ?_, ?_⟩
    · rw [Page.andThen, hlines, List.append_assoc]
    · have hfirst := h.text
      rw [Page.shift_zero] at hfirst
      rw [layout.ended_append, ← hbefore, ← hfirst]
      rfl
    · simpa [Draft.andThen, asPrelude] using htext
  hoisted := by simp [Draft.andThen, Page.andThen, asPrelude, h.hoisted, h'.hoisted]
  locals := h'.locals
  fills := List.forall_mem_append.mpr ⟨h.fills, h'.fills⟩

/-- Closing a statement puts its lines at the depth around it. -/
theorem Prepares.statement {draft : Draft} {page : Page} (h : Prepares layout draft page)
    (depth : Nat) : Holds layout depth (draft.statement layout depth) page := by
  obtain ⟨earlier, own, hlines, hearlier, hown, hbefore, htext⟩ := h.parts
  refine ⟨statement_before .., ?_, ?_, ?_, ?_, h.fills⟩
  · have hparts : ∀ part ∈ [earlier, own, []], ∀ line ∈ part, FillsLine line.text := by
      simpa using ⟨hearlier.fills, hown.fills⟩
    have htrim : [draft.before, draft.text, ""].map Text.trim
        = [earlier, own, []].map layout.joined := by
      simp only [List.map_cons, List.map_nil, hbefore, layout.trim_ended hearlier, htext]
      rfl
    have hformat := layout.format_joinParts hparts htrim depth
    rw [Page.shift, hlines]
    unfold Draft.statement
    dsimp only
    generalize Emit.joinParts layout [draft.before, draft.text, ""] = joined at hformat ⊢
    refine hformat.trans ?_
    simp
  · rw [statement_hoisted]
    exact h.hoisted
  · rw [statement_locals]
    exact h.locals
  · rw [hlines]
    exact hearlier.append hown

end Draft

/-! ## Statement by statement -/

/-- What is written of the statement are its lines. A block leaves no line unended. -/
def LineByLine (cx : Context) (stmt : Stmt) : Prop :=
  ∀ (locals : Locals) (draft : Draft), Draft.content cx (exprText cx) 0 locals stmt = .ok draft →
    ∃ page, (∀ depth, Plain.stmt cx depth locals stmt = .ok (page.shift depth)) ∧
      draft.Prepares cx.layout page ∧ (stmt.isBlock → draft.Holds cx.layout 0 page)

section Legible

variable {cx : Context} (h : Names.Legible cx.mangling cx.model)
include h

theorem initial_unbroken {locals : Locals} {init : Option Expr} {value : String}
    (hinit : ∀ written, init = some written → written.Legible)
    (hvalue : Draft.initial (exprText cx) locals init = .ok (some value)) : Unbroken value := by
  cases init with
  | none => cases hvalue
  | some written =>
    obtain ⟨text, htext, heq⟩ := Lowered.map_eq_ok.mp hvalue
    cases heq
    exact (exprText_starts h written (hinit written rfl) value htext).unbroken

theorem variableDecl_holds {kind : VariableKind} {locals : Locals} {decl : VariableDecl}
    {draft : Draft} (hdecl : decl.All Expr.Legible LegibleBinding)
    (hdraft : Draft.variableDecl cx (exprText cx) 0 kind locals decl = .ok draft) :
    ∃ page, (∀ depth, Plain.variableDecl cx depth kind locals decl = .ok (page.shift depth)) ∧
      draft.Holds cx.layout 0 page := by
  obtain ⟨⟨hlegible, htypes⟩, hinit⟩ := hdecl
  rw [Draft.variableDecl] at hdraft
  obtain ⟨name, hname, hdraft⟩ := Lowered.bind_eq_ok.mp hdraft
  obtain ⟨node, hnode, hdraft⟩ := Lowered.bind_eq_ok.mp hdraft
  obtain ⟨type, htype, hdraft⟩ := Lowered.bind_eq_ok.mp hdraft
  obtain ⟨value, hvalue, hdraft⟩ := Lowered.bind_eq_ok.mp hdraft
  obtain rfl := Lowered.pure_eq_ok.mp hdraft
  have hown : StartsLine name := by
    unfold Emit.variableName at hname
    split at hname
    · rename_i found hfound
      cases hname
      exact hlegible name (BindingName.eq_ident hfound)
    · cases hname
  have hwritten : StartsLine type := by
    unfold Emit.variableType at hnode
    split at hnode
    · rename_i found hfound
      cases hnode
      exact typePiece_starts h (htypes node hfound) type htype
    · cases hnode
  have hdeclared : StartsLine (type ++ " " ++ name) :=
    (hwritten.append (by decide)).append hown.unbroken
  have hline : FillsLine (type ++ " " ++ name ++ ";") := hdeclared.close (by decide) (by decide)
  simp only [Plain.variableDecl, hname, hnode, htype, hvalue, bind, Except.bind, pure, Except.pure,
    Except.ok.injEq]
  generalize locals.declare name (cx.model.typeFromNode node) = after
  have hoists (text : String) (lines : List Line) (htext : text = cx.layout.ended lines)
      (hset : SetAt 0 lines) :
      Draft.Holds cx.layout 0
        { Draft.ofText text after with hoisted := [type ++ " " ++ name ++ ";"] }
        ⟨[type ++ " " ++ name ++ ";"], lines, after⟩ := by
    refine ⟨rfl, ?_, rfl, rfl, hset, List.forall_mem_singleton.mpr hline⟩
    rw [Page.shift_zero]
    exact htext
  cases value with
  | none =>
    cases kind with
    | varKind =>
      exact ⟨⟨[type ++ " " ++ name ++ ";"], [], after⟩, fun _ => rfl, hoists "" [] rfl .nil⟩
    | letKind | constKind =>
      refine ⟨.ofLine 0 (type ++ " " ++ name ++ ";") after, fun _ => rfl, ?_⟩
      exact Draft.holds_line (cx.layout.format_line hline 0) hline after
  | some value =>
    have hunbroken := initial_unbroken h hinit hvalue
    have hinitialized {introduction : String} (hstarts : StartsLine introduction) :
        FillsLine (introduction ++ " = " ++ value ++ ";") ∧
          Draft.initialized cx.layout 0 introduction value
            = cx.layout.ended [⟨0, introduction ++ " = " ++ value ++ ";"⟩] := by
      have hbegun : StartsLine (introduction ++ " = ") := hstarts.append (by decide)
      refine ⟨(hbegun.append hunbroken).close (by decide) (by decide), ?_⟩
      exact cx.layout.ended_pieces hbegun.unbroken (by simp [List.getLast?_append]) (by decide)
        (by decide) .start rfl
    cases kind with
    | varKind =>
      obtain ⟨hfills, htext⟩ := hinitialized hown
      refine ⟨⟨[type ++ " " ++ name ++ ";"], [⟨0, name ++ " = " ++ value ++ ";"⟩], after⟩,
        fun _ => rfl, hoists _ _ htext (.single hfills)⟩
    | letKind | constKind =>
      obtain ⟨hfills, htext⟩ := hinitialized hdeclared
      refine ⟨.ofLine 0 (type ++ " " ++ name ++ " = " ++ value ++ ";") after, fun _ => rfl, ?_⟩
      exact Draft.holds_line htext hfills after

theorem variableDecls_hold {kind : VariableKind} : ∀ {decls : List VariableDecl} {locals : Locals}
    {draft : Draft}, (∀ decl ∈ decls, decl.All Expr.Legible LegibleBinding) →
    Draft.variableDecls cx (exprText cx) 0 kind locals decls = .ok draft →
    ∃ page, (∀ depth, Plain.variableDecls cx depth kind locals decls = .ok (page.shift depth)) ∧
      draft.Holds cx.layout 0 page
  | [], locals, draft, _, hdraft => by
    cases hdraft
    exact ⟨⟨[], [], locals⟩, fun _ => rfl, Draft.holds_nothing locals⟩
  | decl :: rest, locals, draft, hdecls, hdraft => by
    obtain ⟨hdecl, hrest⟩ := List.forall_mem_cons.mp hdecls
    obtain ⟨first, others, hfirst, hothers, rfl⟩ := Draft.variableDecls_cons_eq_ok.mp hdraft
    obtain ⟨page, hpage, hholds⟩ := variableDecl_holds h hdecl hfirst
    obtain ⟨other, hother, hholds'⟩ := variableDecls_hold hrest hothers
    refine ⟨page.andThen other, fun depth => ?_, hholds.andThen hholds'⟩
    rw [hholds.locals] at hother
    simp only [Plain.variableDecls, hpage, Page.shift_locals, hother, Page.shift_andThen, bind,
      Except.bind, pure, Except.pure]

theorem head_holds {locals : Locals} {condition : Expr} (hcondition : condition.Legible)
    {word : String} (hword : StartsLine word) {draft : Draft}
    (hdraft : Draft.head cx (exprText cx) 0 locals word condition = .ok draft) :
    ∃ page, (∀ depth, Plain.head cx depth locals word condition = .ok (page.shift depth)) ∧
      draft.Holds cx.layout 0 page := by
  obtain ⟨text, htext, rfl⟩ := Draft.head_eq_ok.mp hdraft
  have hunbroken := (exprText_starts h condition hcondition text htext).unbroken
  have hbegun : StartsLine (word ++ " (") := hword.append (by decide)
  have hfills : FillsLine (word ++ " (" ++ text ++ ")") :=
    (hbegun.append hunbroken).close (by decide) (by decide)
  refine ⟨.ofLine 0 (word ++ " (" ++ text ++ ")") locals, fun depth => ?_, ?_⟩
  · simp only [Plain.head, htext, Page.shift_ofLine, bind, Except.bind, pure, Except.pure]
  · refine Draft.holds_line ?_ hfills locals
    exact cx.layout.ended_pieces hbegun.unbroken (by simp [List.getLast?_append]) (by decide)
      (by decide) .inline rfl

omit h in
/-- A branch ends with its last line, whether it is a block or a single statement. -/
theorem branch_holds {stmt : Stmt} {locals inner : Locals} {draft : Draft}
    (hstmt : LineByLine cx stmt)
    (hdraft : Draft.branch cx 0 locals stmt (Draft.content cx (exprText cx) 0 locals stmt)
      (Draft.content cx (exprText cx) 0 inner stmt) = .ok draft) :
    ∃ page, (∀ depth, Plain.branch depth locals stmt (Plain.stmt cx depth locals stmt)
        (Plain.stmt cx (depth + 1) inner stmt) = .ok (page.shift depth)) ∧
      draft.Holds cx.layout 0 page := by
  unfold Plain.branch
  rcases Draft.branch_cases hdraft with ⟨_, _, _, rfl, hblock, -⟩ | ⟨single, hblock, hsingle, rfl⟩
  · obtain ⟨page, hpage, -, hholds⟩ := hstmt locals draft hblock
    refine ⟨page, fun depth => ?_, hholds rfl⟩
    rw [Stmt.isBlock, if_pos rfl]
    exact hpage depth
  · obtain ⟨page, hpage, hprepares, -⟩ := hstmt inner single hsingle
    refine ⟨.braced 0 locals (page.shift 1), fun depth => ?_, (hprepares.statement 1).braced locals⟩
    rw [hblock, if_neg Bool.false_ne_true, hpage, Page.shift_braced]
    rfl

omit h in
theorem stmts_hold_of_forall {body : List Stmt}
    (hbody : ∀ stmt ∈ body, LineByLine cx stmt) {written : Nat} {locals : Locals} {draft : Draft}
    (hdraft : Draft.stmts cx (exprText cx) written locals body = .ok draft) :
    ∃ page, (∀ depth, Plain.stmts cx depth locals body = .ok (page.shift depth)) ∧
      draft.Holds cx.layout written page := by
  induction body generalizing locals draft with
  | nil =>
    cases hdraft
    exact ⟨⟨[], [], locals⟩, fun _ => rfl, Draft.holds_nothing locals⟩
  | cons stmt rest ih =>
    obtain ⟨hstmt, hrest⟩ := List.forall_mem_cons.mp hbody
    obtain ⟨first, others, hfirst, hothers, rfl⟩ := Draft.stmts_cons_eq_ok.mp hdraft
    obtain ⟨page, hpage, hprepares, -⟩ := hstmt locals first hfirst
    obtain ⟨other, hother, hholds⟩ := ih hrest hothers
    refine ⟨page.andThen other, fun depth => ?_, (hprepares.statement written).andThen hholds⟩
    rw [hprepares.locals] at hother
    simp only [Plain.stmts, hpage, Page.shift_locals, hother, Page.shift_andThen, bind, Except.bind,
      pure, Except.pure]

omit h in
theorem otherwise_holds {branch : Option Stmt}
    (hbranch : ∀ stmt, branch = some stmt → LineByLine cx stmt) {locals : Locals} {draft : Draft}
    (hdraft : Draft.elseContent cx (exprText cx) 0 locals branch = .ok draft) :
    ∃ page, (∀ depth, Plain.otherwise cx depth locals branch = .ok (page.shift depth)) ∧
      draft.Holds cx.layout 0 page := by
  cases branch with
  | none =>
    cases hdraft
    exact ⟨⟨[], [], locals⟩, fun _ => rfl, Draft.holds_nothing locals⟩
  | some stmt =>
    have hword : FillsLine "else" := by decide
    obtain ⟨second, hsecond, rfl⟩ := Draft.elseContent_some_eq_ok.mp hdraft
    obtain ⟨page, hpage, hholds⟩ := branch_holds (hbranch stmt rfl) hsecond
    refine ⟨(Page.ofLine 0 "else" locals).andThen page, fun depth => ?_, ?_⟩
    · simp only [Plain.otherwise, hpage, Page.shift_andThen, Page.shift_ofLine, bind, Except.bind,
        pure, Except.pure]
    · exact (Draft.holds_line (cx.layout.format_line hword 0) hword locals).andThen hholds

omit h in
theorem word_lineByLine {stmt : Stmt} {word : String} (hword : FillsLine word)
    (hcontent : ∀ locals, Draft.content cx (exprText cx) 0 locals stmt
      = .ok (.ofText (cx.layout.format 0 .inline word) locals))
    (hprints : ∀ depth locals, Plain.stmt cx depth locals stmt = .ok (.ofLine depth word locals))
    (hblock : ¬ stmt.isBlock) : LineByLine cx stmt := by
  intro locals draft hdraft
  rw [hcontent, cx.layout.format_inline hword.unbroken hword.closes.getLast?_ne] at hdraft
  cases hdraft
  refine ⟨.ofLine 0 word locals, fun depth => hprints depth locals, ?_, fun h => absurd h hblock⟩
  exact Draft.prepares_line hword locals

theorem content_lineByLine (stmt : Stmt) :
    stmt.All Expr.Legible LegibleBinding → LineByLine cx stmt := by
  induction stmt using Stmt.ind with
  | vars span kind decls =>
    intro hstmt locals draft hdraft
    obtain ⟨page, hpage, hholds⟩ := variableDecls_hold h hstmt hdraft
    exact ⟨page, hpage, hholds.prepares, fun _ => hholds⟩
  | expr span value =>
    intro hstmt locals draft hdraft
    obtain ⟨text, htext, rfl⟩ := Draft.content_expr_eq_ok.mp hdraft
    have hfills : FillsLine (text ++ ";") :=
      (exprText_starts h value hstmt text htext).close (by decide) (by decide)
    refine ⟨.ofLine 0 (text ++ ";") locals, fun depth => ?_, ?_,
      fun hblock => absurd hblock Bool.false_ne_true⟩
    · simp only [Plain.stmt, htext, Page.shift_ofLine, bind, Except.bind, pure, Except.pure]
    · rw [cx.layout.format_inline (by decide) (by decide)]
      exact Draft.prepares_line hfills locals
  | ret span value =>
    intro hstmt
    cases value with
    | none => exact word_lineByLine (by decide) (fun _ => rfl) (fun _ _ => rfl) Bool.false_ne_true
    | some value =>
      intro locals draft hdraft
      obtain ⟨text, htext, rfl⟩ := Draft.content_ret_eq_ok.mp hdraft
      have hreturn : StartsLine "return " := by decide
      have hunbroken := (exprText_starts h value (hstmt value rfl) text htext).unbroken
      have hfills : FillsLine ("return " ++ text ++ ";") :=
        (hreturn.append hunbroken).close (by decide) (by decide)
      refine ⟨.ofLine 0 ("return " ++ text ++ ";") locals, fun depth => ?_, ?_,
      fun hblock => absurd hblock Bool.false_ne_true⟩
      · simp only [Plain.stmt, htext, Page.shift_ofLine, bind, Except.bind, pure, Except.pure]
      · rw [cx.layout.format_inline (by decide) (by decide),
          cx.layout.format_inline (by decide) (by decide)]
        exact Draft.prepares_line hfills locals
  | brk span | cont span =>
    intro hstmt
    exact word_lineByLine (by decide) (fun _ => rfl) (fun _ _ => rfl) Bool.false_ne_true
  | ifElse span condition thenBranch elseBranch hThen hElse =>
    intro hstmt locals draft hdraft
    obtain ⟨hcondition, hthen, helse⟩ := hstmt
    have hother : ∀ stmt, elseBranch = some stmt → LineByLine cx stmt := by
      rintro stmt rfl
      exact hElse stmt rfl helse
    obtain ⟨first, second, third, hfirst, hsecond, hthird, rfl⟩ :=
      Draft.content_ifElse_eq_ok.mp hdraft
    obtain ⟨page, hpage, hholds⟩ := head_holds h hcondition (by decide) hfirst
    obtain ⟨page', hpage', hholds'⟩ := branch_holds (hThen hthen) hsecond
    obtain ⟨page'', hpage'', hholds''⟩ := otherwise_holds hother hthird
    have hall := (hholds.andThen hholds').andThen hholds''
    refine ⟨(page.andThen page').andThen page'', fun depth => ?_, hall.prepares, fun _ => hall⟩
    simp only [Plain.stmt, hpage, hpage', hpage'', Page.shift_andThen, bind, Except.bind, pure,
      Except.pure]
  | loop span condition body hBody =>
    intro hstmt locals draft hdraft
    obtain ⟨hcondition, hbody⟩ := hstmt
    obtain ⟨first, second, hfirst, hsecond, rfl⟩ := Draft.content_loop_eq_ok.mp hdraft
    obtain ⟨page, hpage, hholds⟩ := head_holds h hcondition (by decide) hfirst
    obtain ⟨page', hpage', hholds'⟩ := branch_holds (hBody hbody) hsecond
    have hall := hholds.andThen hholds'
    refine ⟨page.andThen page', fun depth => ?_, hall.prepares, fun _ => hall⟩
    simp only [Plain.stmt, hpage, hpage', Page.shift_andThen, bind, Except.bind, pure, Except.pure]
  | block span body hBody =>
    intro hstmt locals draft hdraft
    have hbody : ∀ stmt ∈ body, LineByLine cx stmt := by
      intro stmt hmem
      exact hBody stmt hmem (Stmt.allList_iff.mp hstmt stmt hmem)
    obtain ⟨inner, hinner, rfl⟩ := Draft.content_block_eq_ok.mp hdraft
    obtain ⟨page, hpage, hholds⟩ := stmts_hold_of_forall hbody hinner
    have hall := hholds.braced locals
    refine ⟨.braced 0 locals (page.shift 1), fun depth => ?_, hall.prepares, fun _ => hall⟩
    simp only [Plain.stmt, hpage, Page.shift_braced, bind, Except.bind, pure, Except.pure]
  | staged span before body hBefore hBody =>
    intro hstmt locals draft hdraft
    have hbefore : ∀ stmt ∈ before, LineByLine cx stmt := by
      intro stmt hmem
      exact hBefore stmt hmem (Stmt.allList_iff.mp hstmt.1 stmt hmem)
    obtain ⟨first, second, hfirst, hsecond, rfl⟩ := Draft.content_staged_eq_ok.mp hdraft
    obtain ⟨page, hpage, hholds⟩ := stmts_hold_of_forall hbefore hfirst
    obtain ⟨page', hpage', hprepares, -⟩ := hBody hstmt.2 first.locals second hsecond
    rw [hholds.locals] at hpage'
    refine ⟨page.andThen page', fun depth => ?_, hholds.stages hprepares,
      fun hblock => absurd hblock Bool.false_ne_true⟩
    simp only [Plain.stmt, hpage, Page.shift_locals, hpage', Page.shift_andThen, bind, Except.bind,
      pure, Except.pure]

/-- **Statements are written line by line.** -/
theorem stmts_hold {body : List Stmt} (hbody : Stmt.AllList Expr.Legible LegibleBinding body)
    {depth : Nat} {locals : Locals} {draft : Draft}
    (hdraft : Draft.stmts cx (exprText cx) depth locals body = .ok draft) :
    ∃ page, (∀ depth, Plain.stmts cx depth locals body = .ok (page.shift depth)) ∧
      draft.Holds cx.layout depth page := by
  have hstmts := Stmt.allList_iff.mp hbody
  exact stmts_hold_of_forall (fun stmt hmem => content_lineByLine h stmt (hstmts stmt hmem)) hdraft

end Legible

/-! ## Functions -/

theorem Locals.legible_start {owner : Option String}
    (howner : ∀ name, owner = some name → StartsLine name) : (Locals.start owner).Legible := by
  refine ⟨howner, ?_⟩
  intro frame hframe
  obtain rfl := List.mem_singleton.mp hframe
  nofun

namespace Emit

variable {cx : Context}

theorem paramRecords_legible [cx.model.Typed] : ∀ {params : List Param} {locals after : Locals}
    {records : List ParamRecord}, locals.Legible →
    (∀ param ∈ params, ∀ node, param.type = some node → node.Legible) →
    paramRecords cx locals params = .ok (records, after) → after.Legible
  | [], locals, after, records, hlocals, _, hrecords => by
    cases hrecords
    exact hlocals
  | first :: rest, locals, after, records, hlocals, hparams, hrecords => by
    obtain ⟨hfirst, hrest⟩ := List.forall_mem_cons.mp hparams
    rw [paramRecords] at hrecords
    obtain ⟨⟨record, between⟩, hrecord, hrecords⟩ := Lowered.bind_eq_ok.mp hrecords
    obtain ⟨⟨others, last⟩, hothers, hrecords⟩ := Lowered.bind_eq_ok.mp hrecords
    cases hrecords
    refine paramRecords_legible ?_ hrest hothers
    rw [paramRecord] at hrecord
    obtain ⟨name, -, hrecord⟩ := Lowered.bind_eq_ok.mp hrecord
    obtain ⟨node, hnode, hrecord⟩ := Lowered.bind_eq_ok.mp hrecord
    obtain ⟨type, -, hrecord⟩ := Lowered.bind_eq_ok.mp hrecord
    obtain ⟨default, -, hrecord⟩ := Lowered.bind_eq_ok.mp hrecord
    cases hrecord
    refine hlocals.declare name ?_
    unfold paramType at hnode
    split at hnode
    · rename_i found hfound
      cases hnode
      exact Names.Legible.annotation (hfirst node hfound)
    · cases hnode

theorem text_appendLines {lines : List String} (h : ∀ line ∈ lines, FillsLine line)
    (buffer : Buffer) :
    (buffer.appendLines lines).text
      = buffer.text ++ buffer.layout.ended (lines.map (Line.mk buffer.depth)) := by
  induction lines generalizing buffer with
  | nil => simp [Layout.ended]
  | cons line rest ih =>
    obtain ⟨hline, hrest⟩ := List.forall_mem_cons.mp h
    have hfirst : (buffer.append line .line).text
        = buffer.text ++ buffer.layout.ended [⟨buffer.depth, line⟩] := by
      rw [← buffer.layout.format_line hline]
      rfl
    refine (ih hrest (buffer.append line .line)).trans ?_
    rw [hfirst, String.append_assoc]
    exact congrArg (buffer.text ++ ·) (buffer.layout.ended_append _ _).symm

/-- A record prints as the page that its draft holds. -/
theorem print_recordOf {shape : FunctionShape} {params : List ParamRecord} {draft : Draft}
    {page : Page} (h : draft.Holds cx.layout 1 page) :
    (recordOf cx shape params draft).print = (page.shift 1).function cx.layout
      ((recordOf cx shape params draft).signature true false) := by
  have hhoisted : ∀ line ∈ page.hoisted.map (Line.mk 1), FillsLine line.text := by
    simpa using h.fills
  have hlines := Page.fills_shift h.set.fills 1
  have htop : Text.trimEnd (recordOf cx shape params draft).hoisted.text
      = cx.layout.joined (page.hoisted.map (Line.mk 1)) := by
    rw [← cx.layout.trimEnd_ended hhoisted, recordOf, h.hoisted, text_appendLines h.fills]
    simp [Buffer.atDepth]
  have hbody : Text.trimEnd (recordOf cx shape params draft).body.text
      = cx.layout.joined (page.shift 1).lines := by
    rw [← cx.layout.trimEnd_ended hlines, recordOf, ← h.text]
    simp [Buffer.atDepth, Buffer.write]
  have hopen : FillsLine "\x7b" := by decide
  have hclose : FillsLine "\x7d" := by decide
  have hparts : ∀ part ∈ [[Line.mk 0 "\x7b"], page.hoisted.map (Line.mk 1), (page.shift 1).lines,
      [Line.mk 0 "\x7d"]], ∀ line ∈ part, FillsLine line.text := by
    simp only [List.forall_mem_cons, List.not_mem_nil, IsEmpty.forall_iff, implies_true, and_true]
    exact ⟨hopen, hhoisted, hlines, hclose⟩
  have hjoined := cx.layout.intercalate_cons_joined hparts
    ((recordOf cx shape params draft).signature true false) (by simp)
  have hfilter (first second : String) : ["\x7b", first, second, "\x7d"].filter (· ≠ "")
      = "\x7b" :: [first, second].filter (· ≠ "") ++ ["\x7d"] := by
    have happend := List.filter_append (p := (· ≠ "")) [first, second] ["\x7d"]
    exact congrArg ("\x7b" :: ·) happend
  simp only [List.map_cons, List.map_nil, Layout.joined_singleton, hfilter] at hjoined
  rw [FunctionRecord.print, htop, hbody]
  refine hjoined.trans ?_
  simp [Page.function, Page.shift]

/-- **A declaration is written line by line.** What is written of a function, method, constructor
or destructor, if its names and those that the model knows are legible, is its signature, and in
braces its hoisted variables and the lines of its body, each at its depth. -/
theorem functionLike_plain [cx.model.Typed] {session after : Session} {shape : FunctionShape}
    {span : Span} (hmodel : Names.Legible cx.mangling cx.model) (hshape : shape.Legible)
    (hidle : Idle cx session) (hgives : Gives (functionLike cx shape span) session () after) :
    ∃ record, Placed session record shape.visibility after ∧
      Plain.function cx shape = .ok record.print := by
  obtain ⟨record, hrecord, hplaced⟩ := functionLike_gives hidle hgives
  obtain ⟨params, locals, lowered, draft, hparams, hlowered, hdraft, rfl⟩ :=
    functionRecordWith_eq_ok.mp hrecord
  have hlocals : locals.Legible :=
    paramRecords_legible (Locals.legible_start hshape.owner) hshape.params hparams
  have hbody := hmodel.passes hlocals hshape.body hlowered
  obtain ⟨page, hpage, hholds⟩ := stmts_hold hmodel hbody hdraft
  refine ⟨_, hplaced, ?_⟩
  rw [print_recordOf hholds]
  simp only [Plain.function, hparams, hlowered, hpage, bind, Except.bind, pure, Except.pure]
  rfl

/-! ## Calls of native functions -/

/-- Functions that native code provides, one of them under a name of its own. -/
def natives (name : String) : Program :=
  ⟨[Build.declaredFunction "addressof" [] (Build.keyword .number),
    Build.declaredFunction "make" [] (Build.keyword .number),
    Build.decorated (Build.declaredFunction "puts" [] Build.void)
      [Build.decorator "extern_c" [Build.string name]]]⟩

/-- A function without parameters that calls them. -/
def caller (body : List Stmt) : FunctionShape :=
  { returnType := some "void", qualifier := none, name := "tscc_main", params := [], body
    thisClass := none, visibility := none }

/-- A hoisted variable, and a loop around lone statements, one of which needs a stage. -/
def countdown : List Stmt :=
  [Build.varVar "count" (some (Build.keyword .number)) (some (Build.number "3")),
    Build.loop (Build.ident "count") (Build.ifElse (Build.ident "count")
      (Build.exprStmt (Build.call (Build.ident "puts")
        [Build.call (Build.ident "addressof") [Build.call (Build.ident "make") []]]))
      (some Build.brk))]

theorem countdown_legible : (caller countdown).Legible where
  owner := nofun
  params := nofun
  body := by
    have hcount : StartsLine "count" := by decide
    have hputs : StartsLine "puts" := by decide
    have haddress : StartsLine "addressof" := by decide
    have hmake : StartsLine "make" := by decide
    have hmade : (Build.call (Build.ident "make") []).Legible := ⟨hmake, trivial, trivial⟩
    refine ⟨?_, ⟨hcount, hcount, ?_, trivial⟩, trivial⟩
    · intro decl hdecl
      obtain rfl := List.mem_singleton.mp hdecl
      refine ⟨⟨?_, ?_⟩, ?_⟩
      · rintro own ⟨⟩
        exact hcount
      · rintro node ⟨⟩
        trivial
      · rintro value ⟨⟩
        show StartsLine "3"
        decide
    · exact ⟨hputs, trivial, ⟨haddress, trivial, hmade, trivial⟩, trivial⟩

theorem functionLike_plain_countdown : ∃ model after record,
    Model.build (natives "puts") [] = .ok model ∧
      Gives (functionLike ⟨model, {}⟩ (caller countdown) {}) (.start {}) () after ∧
      Placed (.start {}) record none after ∧
      Plain.function ⟨model, {}⟩ (caller countdown) = .ok record.print := by
  have hready : (Tables.build (Model.sources (natives "puts") [])).toOption.map (fun tables =>
      (decide (tables.Legible Spelling.mangling),
        ((functionLike ⟨tables.names.model, {}⟩ (caller countdown) {}).run (.start {})).1.toOption))
      = some (true, some ()) := by decide +kernel
  rw [Model.build_eq]
  cases hbuild : Tables.build (Model.sources (natives "puts") []) with
  | error e =>
    rw [hbuild] at hready
    cases hready
  | ok tables =>
    rw [hbuild] at hready
    obtain ⟨hlegible, hwritten⟩ := Prod.mk.inj (Option.some.inj hready)
    cases hrun : (functionLike ⟨tables.names.model, {}⟩ (caller countdown) {}).run (.start {}) with
    | mk result after =>
      rw [hrun] at hwritten
      cases result with
      | error e => cases hwritten
      | ok value =>
        obtain ⟨record, hplaced, hplain⟩ := @functionLike_plain ⟨tables.names.model, {}⟩
          tables.names.model.typed _ _ _ _ (of_decide_eq_true hlegible).names countdown_legible
          ⟨rfl, rfl⟩ hrun
        exact ⟨tables.names.model, after, record, rfl, hrun, hplaced, hplain⟩

/-- What is written of the caller, and its lines. -/
def callerTexts (name : String) (body : List Stmt) : Option (List String × String) := do
  let model ← (Model.build (natives name) []).toOption
  let plain ← (Plain.function ⟨model, {}⟩ (caller body)).toOption
  let (_, after) := (functionLike ⟨model, {}⟩ (caller body) {}).run (.start {})
  return (after.functions.map FunctionRecord.print, plain)

/-- The only name in the body is a word. But the function that it calls is written under a name
that begins with a blank, and a statement does not keep the blanks around it. -/
theorem functionLike_trims :
    "puts".toList.any Text.isBlank = false ∧
    (caller [Build.exprStmt (Build.call (Build.ident "puts") [])]).Legible ∧
    callerTexts " puts" [Build.exprStmt (Build.call (Build.ident "puts") [])] = some
      (["void tscc_main()\n\x7b\n    puts();\n\x7d"], "void tscc_main()\n\x7b\n     puts();\n\x7d")
    := by
  have hword : "puts".toList.any Text.isBlank = false := by decide
  have hputs : StartsLine "puts" := Text.startsLine_of_word (by decide) hword
  exact ⟨hword, ⟨nofun, nofun, ⟨hputs, trivial, trivial⟩, trivial⟩, by decide +kernel⟩

end Emit

end NativeLowering
