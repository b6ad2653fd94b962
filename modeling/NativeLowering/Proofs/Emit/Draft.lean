import NativeLowering.Proofs.Emit.Balance
import NativeLowering.Proofs.Success
import NativeLowering.Proofs.Syntax.Induction

/-!
# What writing statements adds to a session

Statements are written through open scopes, staged buffers and an open function. What they add in
the end is little: text at the end of the current buffer, text before the open statement, lines of
hoisted variables, and bindings. `Draft` holds these four, and `Draft.content` and `Draft.stmts`
compute them from the statements alone, with no session in sight. `content_writes` and
`stmts_writes` say that a successful run adds exactly that, and that a failing run reports the error
of the computation.

The drafts take the text of expressions as a parameter. Writing uses `exprText`; a comparison of
two bodies can put another spelling in its place and keep everything else.
-/

set_option autoImplicit false

namespace NativeLowering

/-- The text of an expression at a point of a body. -/
abbrev Spell := Locals → Expr → Lowered String

/-- What writing statements adds to a session. -/
structure Draft where
  /-- What the current buffer gains. -/
  text : String
  /-- What goes before the open statement. -/
  before : String
  /-- The lines that the hoisted variables gain. -/
  hoisted : List String
  /-- The bindings in scope afterwards. -/
  locals : Locals

namespace Draft

def ofText (text : String) (locals : Locals) : Draft :=
  { text, before := "", hoisted := [], locals }

def andThen (first second : Draft) : Draft :=
  { text := first.text ++ second.text, before := first.before ++ second.before
    hoisted := first.hoisted ++ second.hoisted, locals := second.locals }

/-- The same, with the text before the open statement. -/
def asPrelude (draft : Draft) : Draft := { draft with text := "", before := draft.text }

/-- A statement, from its parts: they are joined and put on lines at the given depth. -/
def statement (layout : Layout) (depth : Nat) (parts : Draft) : Draft :=
  { parts with
    before := ""
    text := match Emit.joinParts layout [parts.before, parts.text, ""] with
      | none => ""
      | some text => layout.format depth .line text }

@[simp] theorem statement_before (layout : Layout) (depth : Nat) (parts : Draft) :
    (parts.statement layout depth).before = "" := by rw [statement]

@[simp] theorem statement_hoisted (layout : Layout) (depth : Nat) (parts : Draft) :
    (parts.statement layout depth).hoisted = parts.hoisted := by rw [statement]

@[simp] theorem statement_locals (layout : Layout) (depth : Nat) (parts : Draft) :
    (parts.statement layout depth).locals = parts.locals := by rw [statement]

theorem andThen_locals (first second : Draft) : (first.andThen second).locals = second.locals := by
  rw [andThen]

/-- Lines in braces. The bindings made inside end with them. -/
def braced (layout : Layout) (depth : Nat) (locals : Locals) (inner : Draft) : Draft :=
  { inner with
    locals
    text := layout.format depth .line "\x7b" ++ inner.text ++ layout.format depth .line "\x7d" }

def initialized (layout : Layout) (depth : Nat) (introduction value : String) : String :=
  layout.format depth .start (introduction ++ " = ") ++ value ++ layout.format depth .finish ";"

def initial (spell : Spell) (locals : Locals) : Option Expr → Lowered (Option String)
  | none => .ok none
  | some init => (spell locals init).map some

def variableDecl (cx : Context) (spell : Spell) (depth : Nat) (kind : VariableKind)
    (locals : Locals) (decl : VariableDecl) : Lowered Draft := do
  let name ← Emit.variableName decl
  let node ← Emit.variableType decl name
  let type ← cx.typePiece node
  let value ← initial spell locals decl.init
  let plain := ofText "" (locals.declare name (cx.model.typeFromNode node))
  return match kind, value with
    | .varKind, none => { plain with hoisted := [type ++ " " ++ name ++ ";"] }
    | .varKind, some value =>
      { plain with
        hoisted := [type ++ " " ++ name ++ ";"], text := initialized cx.layout depth name value }
    | _, some value =>
      { plain with text := initialized cx.layout depth (type ++ " " ++ name) value }
    | _, none => { plain with text := cx.layout.format depth .line (type ++ " " ++ name ++ ";") }

def variableDecls (cx : Context) (spell : Spell) (depth : Nat)
    (kind : VariableKind) : Locals → List VariableDecl → Lowered Draft
  | locals, [] => .ok (ofText "" locals)
  | locals, decl :: rest => do
    let first ← variableDecl cx spell depth kind locals decl
    let rest ← variableDecls cx spell depth kind first.locals rest
    return first.andThen rest

/-- The head of a conditional or a loop. -/
def head (cx : Context) (spell : Spell) (depth : Nat) (locals : Locals)
    (word : String) (condition : Expr) : Lowered Draft := do
  let text ← spell locals condition
  return ofText (cx.layout.format depth .inline (word ++ " (") ++ text ++
    cx.layout.format depth .finish ")") locals

/-- A branch or loop body: a block as it is, a single statement in braces. -/
def branch (cx : Context) (depth : Nat) (locals : Locals) (stmt : Stmt)
    (asBlock asSingle : Lowered Draft) : Lowered Draft :=
  if stmt.isBlock then asBlock
  else asSingle.map fun single =>
    braced cx.layout depth locals (statement cx.layout (depth + 1) single)

mutual

/-- What writing the content of a statement adds. -/
def content (cx : Context) (spell : Spell) :
    Nat → Locals → Stmt → Lowered Draft
  | depth, locals, .vars _ kind decls => variableDecls cx spell depth kind locals decls
  | depth, locals, .expr _ value => do
    let text ← spell locals value
    return ofText (text ++ cx.layout.format depth .inline ";") locals
  | depth, locals, .ret _ none => .ok (ofText (cx.layout.format depth .inline "return;") locals)
  | depth, locals, .ret _ (some value) => do
    let text ← spell locals value
    return ofText (cx.layout.format depth .inline "return " ++ text ++
      cx.layout.format depth .inline ";") locals
  | depth, locals, .ifElse _ condition thenBranch elseBranch => do
    let first ← head cx spell depth locals "if" condition
    let second ← branch cx depth locals thenBranch (content cx spell depth locals thenBranch)
      (content cx spell 0 (locals.push .block) thenBranch)
    let third ← elseContent cx spell depth locals elseBranch
    return (first.andThen second).andThen third
  | depth, locals, .loop _ condition body => do
    let first ← head cx spell depth locals "while" condition
    let second ← branch cx depth locals body (content cx spell depth locals body)
      (content cx spell 0 (locals.push .loop) body)
    return first.andThen second
  | depth, locals, .brk _ => .ok (ofText (cx.layout.format depth .inline "break;") locals)
  | depth, locals, .cont _ => .ok (ofText (cx.layout.format depth .inline "continue;") locals)
  | depth, locals, .block _ body => do
    let inner ← stmts cx spell (depth + 1) (locals.push .block) body
    return braced cx.layout depth locals inner
  | depth, locals, .staged _ before body => do
    let first ← stmts cx spell 0 locals before
    let second ← content cx spell depth first.locals body
    return first.asPrelude.andThen second

/-- What writing the branch taken otherwise adds, if there is one. -/
def elseContent (cx : Context) (spell : Spell) (depth : Nat) (locals : Locals) :
    Option Stmt → Lowered Draft
  | none => .ok (ofText "" locals)
  | some stmt => do
    let second ← branch cx depth locals stmt (content cx spell depth locals stmt)
      (content cx spell 0 (locals.push .block) stmt)
    return (ofText (cx.layout.format depth .line "else") locals).andThen second

/-- What writing statements adds. -/
def stmts (cx : Context) (spell : Spell) (depth : Nat) :
    Locals → List Stmt → Lowered Draft
  | locals, [] => .ok (ofText "" locals)
  | locals, stmt :: rest => do
    let first ← content cx spell 0 locals stmt
    let rest ← stmts cx spell depth first.locals rest
    return (statement cx.layout depth first).andThen rest

end

theorem andThen_assoc (first second third : Draft) :
    (first.andThen second).andThen third = first.andThen (second.andThen third) := by
  simp [andThen, String.append_assoc]

/-! ## Taking a draft apart

A draft is there exactly if the drafts of its parts are. What is proved of all that has been written
goes by these equivalences, one for each form, and does not open the computation again. -/

section Parts

variable {cx : Context} {spell : Spell} {depth : Nat} {locals : Locals} {span : Span} {draft : Draft}

-- The equations of the computation are made here, once for all forms.
attribute [local simp] content elseContent stmts

theorem variableDecls_cons_eq_ok {kind : VariableKind} {decl : VariableDecl}
    {rest : List VariableDecl} :
    variableDecls cx spell depth kind locals (decl :: rest) = .ok draft ↔
      ∃ first others, variableDecl cx spell depth kind locals decl = .ok first ∧
        variableDecls cx spell depth kind first.locals rest = .ok others ∧
        draft = first.andThen others := by
  simp only [variableDecls, Lowered.bind_eq_ok, Lowered.pure_eq_ok, exists_and_left]

theorem head_eq_ok {word : String} {condition : Expr} :
    head cx spell depth locals word condition = .ok draft ↔
      ∃ text, spell locals condition = .ok text ∧
        draft = ofText (cx.layout.format depth .inline (word ++ " (") ++ text ++
          cx.layout.format depth .finish ")") locals := by
  simp only [head, Lowered.bind_eq_ok, Lowered.pure_eq_ok]

theorem content_expr_eq_ok {value : Expr} :
    content cx spell depth locals (.expr span value) = .ok draft ↔
      ∃ text, spell locals value = .ok text ∧
        draft = ofText (text ++ cx.layout.format depth .inline ";") locals := by
  simp only [content, Lowered.bind_eq_ok, Lowered.pure_eq_ok]

theorem content_ret_eq_ok {value : Expr} :
    content cx spell depth locals (.ret span (some value)) = .ok draft ↔
      ∃ text, spell locals value = .ok text ∧
        draft = ofText (cx.layout.format depth .inline "return " ++ text ++
          cx.layout.format depth .inline ";") locals := by
  simp only [content, Lowered.bind_eq_ok, Lowered.pure_eq_ok]

theorem content_ifElse_eq_ok {condition : Expr} {thenBranch : Stmt} {elseBranch : Option Stmt} :
    content cx spell depth locals (.ifElse span condition thenBranch elseBranch) = .ok draft ↔
      ∃ first second third, head cx spell depth locals "if" condition = .ok first ∧
        branch cx depth locals thenBranch (content cx spell depth locals thenBranch)
          (content cx spell 0 (locals.push .block) thenBranch) = .ok second ∧
        elseContent cx spell depth locals elseBranch = .ok third ∧
        draft = (first.andThen second).andThen third := by
  simp only [content, Lowered.bind_eq_ok, Lowered.pure_eq_ok, exists_and_left]

theorem content_loop_eq_ok {condition : Expr} {body : Stmt} :
    content cx spell depth locals (.loop span condition body) = .ok draft ↔
      ∃ first second, head cx spell depth locals "while" condition = .ok first ∧
        branch cx depth locals body (content cx spell depth locals body)
          (content cx spell 0 (locals.push .loop) body) = .ok second ∧
        draft = first.andThen second := by
  simp only [content, Lowered.bind_eq_ok, Lowered.pure_eq_ok, exists_and_left]

theorem content_block_eq_ok {body : List Stmt} :
    content cx spell depth locals (.block span body) = .ok draft ↔
      ∃ inner, stmts cx spell (depth + 1) (locals.push .block) body = .ok inner ∧
        draft = braced cx.layout depth locals inner := by
  simp only [content, Lowered.bind_eq_ok, Lowered.pure_eq_ok]

theorem content_staged_eq_ok {before : List Stmt} {body : Stmt} :
    content cx spell depth locals (.staged span before body) = .ok draft ↔
      ∃ first second, stmts cx spell 0 locals before = .ok first ∧
        content cx spell depth first.locals body = .ok second ∧
        draft = first.asPrelude.andThen second := by
  simp only [content, Lowered.bind_eq_ok, Lowered.pure_eq_ok, exists_and_left]

theorem elseContent_some_eq_ok {stmt : Stmt} :
    elseContent cx spell depth locals (some stmt) = .ok draft ↔
      ∃ second, branch cx depth locals stmt (content cx spell depth locals stmt)
          (content cx spell 0 (locals.push .block) stmt) = .ok second ∧
        draft = (ofText (cx.layout.format depth .line "else") locals).andThen second := by
  simp only [elseContent, Lowered.bind_eq_ok, Lowered.pure_eq_ok]

theorem stmts_cons_eq_ok {stmt : Stmt} {rest : List Stmt} :
    stmts cx spell depth locals (stmt :: rest) = .ok draft ↔
      ∃ first others, content cx spell 0 locals stmt = .ok first ∧
        stmts cx spell depth first.locals rest = .ok others ∧
        draft = (statement cx.layout depth first).andThen others := by
  simp only [stmts, Lowered.bind_eq_ok, Lowered.pure_eq_ok, exists_and_left]

/-- A branch is a block as it is, or a single statement that has been put in braces. -/
theorem branch_cases {stmt : Stmt} {asSingle : Lowered Draft}
    (h : branch cx depth locals stmt (content cx spell depth locals stmt) asSingle = .ok draft) :
    (∃ span body inner, stmt = .block span body ∧
      content cx spell depth locals (.block span body) = .ok draft ∧
      stmts cx spell (depth + 1) (locals.push .block) body = .ok inner ∧
      draft = braced cx.layout depth locals inner) ∨
    ∃ single, stmt.isBlock = false ∧ asSingle = .ok single ∧
      draft = braced cx.layout depth locals (statement cx.layout (depth + 1) single) := by
  unfold branch at h
  cases hblock : stmt.isBlock with
  | true =>
    rw [hblock, if_pos rfl] at h
    cases stmt with
    | block span body =>
      obtain ⟨inner, hinner, hdraft⟩ := content_block_eq_ok.mp h
      exact .inl ⟨span, body, inner, rfl, h, hinner, hdraft⟩
    | _ => cases hblock
  | false =>
    rw [hblock, if_neg Bool.false_ne_true] at h
    obtain ⟨single, hsingle, hdraft⟩ := Lowered.map_eq_ok.mp h
    exact .inr ⟨single, rfl, hsingle, hdraft⟩

end Parts

end Draft

/-! ## Adding a draft to a session -/

namespace Buffer

def appendLines (buffer : Buffer) (lines : List String) : Buffer :=
  lines.foldl (fun buffer line => buffer.append line .line) buffer

@[simp] theorem appendLines_append (buffer : Buffer) (first second : List String) :
    (buffer.appendLines first).appendLines second = buffer.appendLines (first ++ second) := by
  simp [appendLines, List.foldl_append]

@[simp] theorem appendLines_nil (buffer : Buffer) : buffer.appendLines [] = buffer := rfl

end Buffer

/-- The open function once lines are hoisted and the bindings have changed. -/
def OpenFunction.add (current : OpenFunction) (hoisted : List String) (locals : Locals) :
    OpenFunction :=
  { current with
    locals
    record := { current.record with hoisted := current.record.hoisted.appendLines hoisted } }

/-- The session once a draft is written into its open function. -/
def Session.add (session : Session) (current : OpenFunction) (draft : Draft) : Session :=
  { session with
    current := session.current.write draft.text
    stages := session.stages.modifyHead fun stage =>
      { stage with before := stage.before.write draft.before }
    openFunction := some (current.add draft.hoisted draft.locals) }

/-- The buffers of the session that statements go to have the layout of the context, and what goes
before the open statement is not indented. -/
structure Session.Ready (session : Session) (cx : Context) : Prop where
  layout : session.layout = cx.layout
  current : session.current.layout = cx.layout
  before : ∀ stage ∈ session.stages.head?, stage.before.layout = cx.layout ∧ stage.before.depth = 0

section Adding

variable {cx : Context} {session : Session} {current : OpenFunction}

theorem OpenFunction.add_add (hoisted more : List String) (locals others : Locals) :
    (current.add hoisted locals).add more others = current.add (hoisted ++ more) others := by
  simp [OpenFunction.add]

theorem OpenFunction.add_nil : current.add [] current.locals = current := by
  simp [OpenFunction.add]

theorem Session.add_add (first second : Draft) :
    (session.add current first).add (current.add first.hoisted first.locals) second
      = session.add current (first.andThen second) := by
  simp [Session.add, OpenFunction.add_add, Draft.andThen, List.modifyHead_modifyHead,
    Function.comp_def]

/-- What has nothing to say before the open statement leaves the stages alone. -/
theorem Session.add_eq {draft : Draft} (h : draft.before = "") :
    session.add current draft
      = { session with
          current := session.current.write draft.text
          openFunction := some (current.add draft.hoisted draft.locals) } := by
  have hstages : session.stages.modifyHead (fun stage =>
      { stage with before := stage.before.write draft.before }) = session.stages := by
    cases session.stages with
    | nil => rfl
    | cons stage rest => simp [h]
  rw [Session.add, hstages]

theorem Session.add_ofText (hopen : session.openFunction = some current) (text : String) :
    session.add current (.ofText text current.locals)
      = { session with current := session.current.write text } := by
  rw [Session.add_eq rfl]
  simp only [Draft.ofText, OpenFunction.add_nil, ← hopen]

theorem Session.Ready.add (h : session.Ready cx) (draft : Draft) :
    (session.add current draft).Ready cx := by
  refine ⟨h.layout, h.current, fun stage hs => ?_⟩
  cases hst : session.stages with
  | nil =>
    simp [Session.add, hst] at hs
  | cons stage' rest =>
    have hb := h.before stage' (by simp [hst])
    simp only [Session.add, hst, List.modifyHead_cons, List.head?_cons, Option.mem_def,
      Option.some.injEq] at hs
    subst hs
    exact hb

theorem Session.Ready.opened (h : session.Ready cx) :
    (Emit.opened session).Ready cx := by
  refine ⟨h.layout, h.layout, ?_⟩
  intro stage hstage
  simp only [Emit.opened, List.head?_cons, Option.mem_def, Option.some.injEq] at hstage
  subst hstage
  exact ⟨h.layout, rfl⟩

theorem Session.Ready.preluding {stage : Stage} {stages : List Stage} (h : session.Ready cx)
    (hstages : session.stages = stage :: stages) :
    (Emit.preluding session stage stages).Ready cx := by
  obtain ⟨hlayout, -⟩ := h.before stage (by simp [hstages])
  refine ⟨h.layout, hlayout, ?_⟩
  intro other hother
  simp only [Emit.preluding, List.head?_cons, Option.mem_def, Option.some.injEq] at hother
  subst hother
  exact ⟨h.layout, rfl⟩

end Adding

/-! ## Steps that write a draft

`Writes` is what all the steps of writing a statement have in common. If the step succeeds, it adds
the draft; no frame but the innermost changes, so that closing a frame restores the bindings around
it. If the step fails, then with the error of the draft, and not because something it has to close
is missing. Text can go before a statement only while one is open, so this is said of sessions with
a least number of open statements. -/

namespace Emit

def Adds (cx : Context) (step : Emit Unit) (draft : Nat → Locals → Lowered Draft) : Prop :=
  ∀ (session after : Session) (current : OpenFunction), session.Ready cx →
    session.openFunction = some current → Gives step session () after →
    ∃ added, draft session.current.depth current.locals = .ok added ∧
      after = session.add current added ∧ added.locals.pop.2 = current.locals.pop.2

def Reports (cx : Context) (least : Nat) (step : Emit Unit)
    (draft : Nat → Locals → Lowered Draft) : Prop :=
  ∀ (session : Session) (current : OpenFunction) (e : LoweringError), session.Ready cx →
    least ≤ session.stages.length → session.openFunction = some current → Fails step session e →
    draft session.current.depth current.locals = .error e

/-- With that many open statements, the step writes what the draft says. -/
structure Writes (cx : Context) (least : Nat) (step : Emit Unit)
    (draft : Nat → Locals → Lowered Draft) : Prop where
  moves : Balanced step
  adds : Adds cx step draft
  reports : Reports cx least step draft

section Writing

variable {cx : Context} {least : Nat}

theorem Writes.congr {step : Emit Unit} {draft draft' : Nat → Locals → Lowered Draft}
    (h : Writes cx least step draft)
    (heq : ∀ depth locals, draft depth locals = draft' depth locals) :
    Writes cx least step draft' := by
  obtain rfl : draft = draft' := funext fun depth => funext fun locals => heq depth locals
  exact h

theorem Adds.seq {first second : Emit Unit} {draft draft' : Nat → Locals → Lowered Draft}
    (h : Adds cx first draft) (h' : Adds cx second draft') :
    Adds cx (do first; second) fun depth locals => do
      let one ← draft depth locals
      let two ← draft' depth one.locals
      return one.andThen two := by
  intro session after current hready hopen hgives
  obtain ⟨_, between, hfirst, hsecond⟩ := gives_bind.mp hgives
  obtain ⟨one, hone, rfl, hlocals⟩ := h _ _ _ hready hopen hfirst
  obtain ⟨two, htwo, rfl, hlocals'⟩ := h' _ _ _ (hready.add one) rfl hsecond
  refine ⟨one.andThen two, ?_, Session.add_add one two, hlocals'.trans hlocals⟩
  have htwo' : draft' session.current.depth one.locals = .ok two := htwo
  simp only [hone, htwo', bind, Except.bind, pure, Except.pure]

theorem Writes.seq {first second : Emit Unit} {draft draft' : Nat → Locals → Lowered Draft}
    (h : Writes cx least first draft) (h' : Writes cx least second draft') :
    Writes cx least (do first; second) fun depth locals => do
      let one ← draft depth locals
      let two ← draft' depth one.locals
      return one.andThen two := by
  refine ⟨h.moves.bind fun _ => h'.moves, h.adds.seq h'.adds, ?_⟩
  intro session current e hready hleast hopen hfails
  rcases fails_bind.mp hfails with hfirst | ⟨_, between, hfirst, hsecond⟩
  · simp only [h.reports _ _ _ hready hleast hopen hfirst, bind, Except.bind]
  · obtain ⟨one, hone, rfl, -⟩ := h.adds _ _ _ hready hopen hfirst
    have htwo : draft' session.current.depth one.locals = .error e :=
      h'.reports _ _ _ (hready.add one) (by simpa [Session.add] using hleast) rfl hsecond
    simp only [hone, htwo, bind, Except.bind]

/-- A step that cannot fail reports nothing. -/
theorem Adds.writes {step : Emit Unit} {draft : Nat → Locals → Lowered Draft}
    (h : Adds cx step draft) (hmoves : Balanced step)
    (hgives : ∀ session, session.openFunction.isSome = true → ∃ after, Gives step session () after) :
    Writes cx least step draft := by
  refine ⟨hmoves, h, ?_⟩
  intro session current e _ _ hopen hfails
  obtain ⟨after, hgives⟩ := hgives session (by rw [hopen]; rfl)
  exact absurd hfails hgives.not_fails

theorem adds_pure : Adds cx (pure ()) fun _ locals => .ok (.ofText "" locals) := by
  intro session after current hready hopen hgives
  obtain ⟨-, rfl⟩ := gives_pure.mp hgives
  refine ⟨.ofText "" current.locals, rfl, ?_, rfl⟩
  rw [Session.add_ofText hopen, Buffer.write_empty]

theorem writes_pure : Writes cx least (pure ()) fun _ locals => .ok (.ofText "" locals) :=
  adds_pure.writes (balanced_pure ()) fun session _ => ⟨session, gives_pure.mpr ⟨rfl, rfl⟩⟩

theorem adds_append (text : String) (mode : AppendMode) :
    Adds cx (append text mode) fun depth locals =>
      .ok (.ofText (cx.layout.format depth mode text) locals) := by
  intro session after current hready hopen hgives
  refine ⟨_, rfl, ?_, rfl⟩
  rw [Session.add_ofText hopen, ← hready.current]
  exact gives_append.mp hgives

theorem writes_append (text : String) (mode : AppendMode) :
    Writes cx least (append text mode) fun depth locals =>
      .ok (.ofText (cx.layout.format depth mode text) locals) :=
  (adds_append text mode).writes (balanced_append text mode) fun _ _ => ⟨_, gives_append.mpr rfl⟩

theorem adds_expr (value : Expr) :
    Adds cx (expr cx value) fun _ locals =>
      (exprText cx locals value).map fun text => .ofText text locals := by
  intro session after current hready hopen hgives
  obtain ⟨text, htext, rfl⟩ := (gives_expr hopen).mp hgives
  rw [hready.current, Context.laidOut_self] at htext
  refine ⟨.ofText text current.locals, ?_, ?_, rfl⟩
  · simp only [htext, Except.map]
  · rw [Session.add_ofText hopen]

theorem writes_expr (value : Expr) :
    Writes cx least (expr cx value) fun _ locals =>
      (exprText cx locals value).map fun text => .ofText text locals := by
  refine ⟨balanced_expr cx value, adds_expr value, ?_⟩
  intro session current e hready hleast hopen hfails
  have htext := (fails_expr hopen).mp hfails
  rw [hready.current, Context.laidOut_self] at htext
  simp only [htext, Except.map]

/-- A step that leaves the session as it was comes before. What it computes may depend on the
session, but not on which of the ready ones it is. -/
theorem Writes.computed {α : Type} {step : Emit α} {computed : Session → Lowered α}
    {own : Lowered α} {next : α → Emit Unit} {draft : α → Nat → Locals → Lowered Draft}
    (hrun : ∀ session, step.run session = (computed session, session))
    (hown : ∀ session : Session, session.Ready cx → computed session = own)
    (h : ∀ value, Writes cx least (next value) (draft value)) :
    Writes cx least (step >>= next) fun depth locals =>
      own >>= fun value => draft value depth locals := by
  refine ⟨.computed hrun fun value => (h value).moves, ?_, ?_⟩
  · intro session after current hready hopen hgives
    obtain ⟨value, between, hstep, hnext⟩ := gives_bind.mp hgives
    obtain ⟨hvalue, rfl⟩ := (gives_computed (hrun session)).mp hstep
    obtain ⟨added, hadded, hrest⟩ := (h value).adds _ _ _ hready hopen hnext
    refine ⟨added, ?_, hrest⟩
    simp only [← hown _ hready, hvalue, bind, Except.bind, hadded]
  · intro session current e hready hleast hopen hfails
    rcases (fails_computed_bind (hrun session)).mp hfails with hvalue | ⟨value, hvalue, hnext⟩
    · simp only [← hown _ hready, hvalue, bind, Except.bind]
    · have herror := (h value).reports _ _ _ hready hleast hopen hnext
      simp only [← hown _ hready, hvalue, bind, Except.bind, herror]

theorem Writes.lift {α : Type} {result : Lowered α} {next : α → Emit Unit}
    {draft : α → Nat → Locals → Lowered Draft}
    (h : ∀ value, Writes cx least (next value) (draft value)) :
    Writes cx least (do let value ← liftM result; next value) fun depth locals =>
      result >>= fun value => draft value depth locals :=
  .computed (fun _ => rfl) (fun _ _ => rfl) h

theorem Writes.type {node : TypeNode} {next : String → Emit Unit}
    {draft : String → Nat → Locals → Lowered Draft}
    (h : ∀ type, Writes cx least (next type) (draft type)) :
    Writes cx least (do let type ← typeString cx node; next type) fun depth locals =>
      cx.typePiece node >>= fun type => draft type depth locals :=
  .computed (run_typeString node)
    (fun session hready => by rw [hready.layout, Context.laidOut_self]) h

theorem adds_hoist (line : String) (span : Span) :
    Adds cx (hoist line span) fun _ locals =>
      .ok { Draft.ofText "" locals with hoisted := [line] } := by
  intro session after current hready hopen hgives
  obtain ⟨found, hfound, rfl⟩ := gives_onRecord.mp hgives
  obtain rfl : found = current := Option.some.inj (hfound.symm.trans hopen)
  refine ⟨_, rfl, ?_, rfl⟩
  rw [Session.add_eq rfl]
  simp only [Draft.ofText, Buffer.write_empty]
  rfl

theorem writes_hoist (line : String) (span : Span) :
    Writes cx least (hoist line span) fun _ locals =>
      .ok { Draft.ofText "" locals with hoisted := [line] } := by
  refine (adds_hoist line span).writes (balanced_onRecord span _) ?_
  intro session hopen
  obtain ⟨current, hcurrent⟩ := Option.isSome_iff_exists.mp hopen
  exact ⟨_, gives_onRecord.mpr ⟨current, hcurrent, rfl⟩⟩

theorem pop_declare (locals : Locals) (name : String) (type : Ty) :
    (locals.declare name type).pop.2 = locals.pop.2 := by
  unfold Locals.declare Locals.pop
  cases hf : locals.frames with
  | nil => simp [hf]
  | cons frame frames => simp

theorem pop_push (locals : Locals) (kind : FrameKind) : (locals.push kind).pop.2 = locals := rfl

theorem adds_declare (name : String) (type : Ty) (span : Span) :
    Adds cx (onLocals span fun locals => locals.declare name type) fun _ locals =>
      .ok (.ofText "" (locals.declare name type)) := by
  intro session after current hready hopen hgives
  obtain ⟨found, hfound, rfl⟩ := gives_onLocals.mp hgives
  obtain rfl : found = current := Option.some.inj (hfound.symm.trans hopen)
  refine ⟨_, rfl, ?_, pop_declare found.locals name type⟩
  rw [Session.add_eq rfl]
  simp only [Draft.ofText, Buffer.write_empty]
  rfl

theorem writes_declare (name : String) (type : Ty) (span : Span) :
    Writes cx least (onLocals span fun locals => locals.declare name type) fun _ locals =>
      .ok (.ofText "" (locals.declare name type)) := by
  refine (adds_declare name type span).writes
    (moves_onLocals span fun locals => Locals.depth_declare locals name type) ?_
  intro session hopen
  obtain ⟨current, hcurrent⟩ := Option.isSome_iff_exists.mp hopen
  exact ⟨_, gives_onLocals.mpr ⟨current, hcurrent, rfl⟩⟩

theorem writes_initialized (introduction : String) (init : Expr) :
    Writes cx least (initialized cx introduction init) fun depth locals =>
      (exprText cx locals init).map fun text =>
        .ofText (Draft.initialized cx.layout depth introduction text) locals := by
  refine ((writes_append _ .start).seq ((writes_expr init).seq (writes_append ";" .finish))).congr ?_
  intro depth locals
  dsimp only [bind, Except.bind, pure, Except.pure, Draft.ofText]
  cases exprText cx locals init with
  | error e => rfl
  | ok text => simp [Except.map, Draft.andThen, Draft.initialized, String.append_assoc]

theorem writes_variableDecl (kind : VariableKind) (decl : VariableDecl) :
    Writes cx least (variableDecl cx kind decl) fun depth locals =>
      Draft.variableDecl cx (exprText cx) depth kind locals decl := by
  refine Writes.lift fun name => Writes.lift fun node => Writes.type fun type => ?_
  have hdeclare : Writes cx least _ _ := writes_declare name (cx.model.typeFromNode node) decl.span
  have hhoist : Writes cx least _ _ := writes_hoist (type ++ " " ++ name ++ ";") decl.span
  cases hi : decl.init with
  | none =>
    cases kind with
    | varKind =>
      refine (hhoist.seq hdeclare).congr fun depth locals => ?_
      simp [bind, Except.bind, pure, Except.pure, Draft.initial, Draft.andThen, Draft.ofText]
    | letKind | constKind =>
      refine ((writes_append (type ++ " " ++ name ++ ";") .line).seq hdeclare).congr
        fun depth locals => ?_
      simp [bind, Except.bind, pure, Except.pure, Draft.initial, Draft.andThen, Draft.ofText]
  | some init =>
    cases kind with
    | varKind =>
      refine (hhoist.seq ((writes_initialized name init).seq hdeclare)).congr fun depth locals => ?_
      cases ht : exprText cx locals init <;>
        simp [bind, Except.bind, pure, Except.pure, Except.map, Draft.initial, Draft.andThen,
          Draft.ofText, ht]
    | letKind | constKind =>
      refine ((writes_initialized (type ++ " " ++ name) init).seq hdeclare).congr
        fun depth locals => ?_
      cases ht : exprText cx locals init <;>
        simp [bind, Except.bind, pure, Except.pure, Except.map, Draft.initial, Draft.andThen,
          Draft.ofText, ht]

theorem writes_variableDecls (kind : VariableKind) : ∀ decls : List VariableDecl,
    Writes cx least (variableDecls cx kind decls) fun depth locals =>
      Draft.variableDecls cx (exprText cx) depth kind locals decls
  | [] => writes_pure
  | decl :: rest => (writes_variableDecl kind decl).seq (writes_variableDecls kind rest)

theorem writes_head (word : String) (condition : Expr) :
    Writes cx least (head cx word condition) fun depth locals =>
      Draft.head cx (exprText cx) depth locals word condition := by
  refine ((writes_append _ .inline).seq
    ((writes_expr condition).seq (writes_append ")" .finish))).congr fun depth locals => ?_
  cases ht : exprText cx locals condition <;>
    simp [bind, Except.bind, pure, Except.pure, Except.map, Draft.head, Draft.andThen,
      Draft.ofText, ht, String.append_assoc]

theorem Adds.asStatement {step : Emit Unit} {draft : Nat → Locals → Lowered Draft}
    (h : Adds cx step draft) :
    Adds cx (asStatement step) fun depth locals =>
      (draft 0 locals).map (Draft.statement cx.layout depth) := by
  intro session after current hready hopen hgives
  obtain ⟨inner, hstep, hpop⟩ := gives_asStatement.mp hgives
  obtain ⟨added, hadded, rfl, hlocals⟩ := h _ _ _ hready.opened hopen hstep
  obtain ⟨next, outer, stage, stages, hnext, hstages, rfl⟩ := gives_popStatement.mp hpop
  have hadded' : draft 0 current.locals = .ok added := hadded
  refine ⟨added.statement cx.layout session.current.depth, ?_, ?_, ?_⟩
  · simp only [hadded', Except.map]
  · simp only [Session.add, opened, List.cons.injEq, List.modifyHead_cons] at hnext hstages
    obtain ⟨rfl, rfl⟩ := hnext
    obtain ⟨rfl, rfl⟩ := hstages
    have hbefore : (added.statement cx.layout session.current.depth).before = "" := rfl
    rw [Session.add_eq hbefore]
    simp only [Session.add, opened, Draft.statement, appendParts, Buffer.write, Buffer.new,
      Buffer.atDepth, String.empty_append, hready.layout]
    cases joinParts cx.layout [added.before, added.text, ""] with
    | none => simp
    | some text => simp [Buffer.append, Buffer.write, hready.current]
  · rw [Draft.statement_locals]
    exact hlocals

/-- Inside a statement one is open, whatever is open around it. -/
theorem Writes.asStatement {step : Emit Unit} {draft : Nat → Locals → Lowered Draft}
    (h : Writes cx 1 step draft) :
    Writes cx least (asStatement step) fun depth locals =>
      (draft 0 locals).map (Draft.statement cx.layout depth) := by
  refine ⟨h.moves.asStatement, h.adds.asStatement, ?_⟩
  intro session current e hready hleast hopen hfails
  have hstep : Fails step (opened session) e :=
    h.moves.fails_asStatement (by rw [hopen]; rfl) hfails
  have herror : draft 0 current.locals = .error e :=
    h.reports _ _ _ hready.opened (by simp [opened]) hopen hstep
  simp only [herror, Except.map]

theorem Adds.inPrelude {step : Emit Unit} {draft : Nat → Locals → Lowered Draft}
    (h : Adds cx step draft)
    (hbefore : ∀ depth locals added, draft depth locals = .ok added → added.before = "") :
    Adds cx (inPrelude step) fun _ locals => (draft 0 locals).map Draft.asPrelude := by
  intro session after current hready hopen hgives
  obtain ⟨stage, stages, inner, next, outer, newStage, newStages, hstages, hstep, hnext, hnew,
    rfl⟩ := gives_inPrelude.mp hgives
  obtain ⟨-, hdepth⟩ := hready.before stage (by simp [hstages])
  obtain ⟨added, hadded, rfl, hlocals⟩ := h _ _ current (hready.preluding hstages) hopen hstep
  have hadded' : draft 0 current.locals = .ok added := by
    rw [← hdepth]
    exact hadded
  refine ⟨added.asPrelude, by simp only [hadded', Except.map], ?_, hlocals⟩
  rw [Session.add_eq (hbefore _ _ _ hadded')] at hnext hnew
  simp only [preluding, List.cons.injEq] at hnext hnew
  obtain ⟨rfl, rfl⟩ := hnext
  obtain ⟨rfl, rfl⟩ := hnew
  simp [Session.add, preluding, Draft.asPrelude, hstages]

theorem Writes.inPrelude {step : Emit Unit} {draft : Nat → Locals → Lowered Draft}
    (h : Writes cx 1 step draft)
    (hbefore : ∀ depth locals added, draft depth locals = .ok added → added.before = "") :
    Writes cx 1 (inPrelude step) fun _ locals => (draft 0 locals).map Draft.asPrelude := by
  refine ⟨h.moves.inPrelude, h.adds.inPrelude hbefore, ?_⟩
  intro session current e hready hleast hopen hfails
  obtain ⟨stage, stages, hstages⟩ := List.exists_cons_of_length_pos hleast
  obtain ⟨-, hdepth⟩ := hready.before stage (by simp [hstages])
  have hstep : Fails step (preluding session stage stages) e :=
    h.moves.fails_inPrelude (by rw [hopen]; rfl) hstages hfails
  have herror : draft stage.before.depth current.locals = .error e :=
    h.reports _ _ _ (hready.preluding hstages) (by simp [preluding]) hopen hstep
  rw [hdepth] at herror
  simp only [herror, Except.map]

/-- The session inside braces. -/
def bracing (session : Session) (current : OpenFunction) (kind : FrameKind) : Session :=
  { session with
    current := (session.current.append "\x7b" .line).indent
    openFunction := some { current with locals := current.locals.push kind } }

theorem gives_braced {span : Span} {kind : FrameKind} {step : Emit Unit} {session after : Session}
    {current : OpenFunction} (hopen : session.openFunction = some current)
    (h : Gives (braced span kind step) session () after) :
    ∃ inner last, Gives step (bracing session current kind) () inner ∧
      inner.openFunction = some last ∧
      after = { inner with
        current := inner.current.dedent.append "\x7d" .line
        openFunction := some { last with locals := last.locals.pop.2 } } := by
  simp only [braced, gives_bind, gives_append, gives_indent, gives_dedent, gives_onLocals] at h
  obtain ⟨_, _, rfl, _, _, rfl, _, _, ⟨found, hfound, rfl⟩, _, inner, hstep, _, _,
    ⟨last, hlast, rfl⟩, _, _, rfl, rfl⟩ := h
  obtain rfl : found = current := Option.some.inj (hfound.symm.trans hopen)
  exact ⟨inner, last, hstep, hlast, rfl⟩

theorem Adds.braced {step : Emit Unit} {draft : Nat → Locals → Lowered Draft}
    (h : Adds cx step draft) (span : Span) (kind : FrameKind) :
    Adds cx (braced span kind step) fun depth locals =>
      (draft (depth + 1) (locals.push kind)).map (Draft.braced cx.layout depth locals) := by
  intro session after current hready hopen hgives
  obtain ⟨inner, last, hstep, hlast, rfl⟩ := gives_braced hopen hgives
  have hready' : (bracing session current kind).Ready cx :=
    ⟨hready.layout, hready.current, hready.before⟩
  obtain ⟨added, hadded, rfl, hlocals⟩ := h _ _ _ hready' rfl hstep
  have hadded' : draft (session.current.depth + 1) (current.locals.push kind) = .ok added := hadded
  refine ⟨added.braced cx.layout session.current.depth current.locals, ?_, ?_, rfl⟩
  · simp only [hadded', Except.map]
  · simp only [Session.add, Option.some.injEq] at hlast
    subst hlast
    simp only [pop_push] at hlocals
    simp [Session.add, bracing, OpenFunction.add, Draft.braced, hlocals, Buffer.append,
      Buffer.write, Buffer.indent, Buffer.dedent, hready.current, String.append_assoc]

/-- Braces can be put around a step in an open function, and closed after it. -/
theorem Moves.fails_braced {span : Span} {kind : FrameKind} {step : Emit Unit} {session : Session}
    {current : OpenFunction} {e : LoweringError} (h : Balanced step)
    (hopen : session.openFunction = some current)
    (hfails : Fails (Emit.braced span kind step) session e) :
    Fails step (bracing session current kind) e := by
  simp only [Emit.braced, fails_bind] at hfails
  rcases hfails with hfails | ⟨_, _, hbrace, hfails⟩
  · exact absurd hfails not_fails_modify
  obtain rfl := gives_append.mp hbrace
  rcases hfails with hfails | ⟨_, _, hindent, hfails⟩
  · exact absurd hfails not_fails_modify
  obtain rfl := gives_indent.mp hindent
  rcases hfails with hfails | ⟨_, _, hpush, hfails⟩
  · exact absurd hfails (not_fails_onFunction hopen)
  obtain ⟨found, hfound, rfl⟩ := gives_onLocals.mp hpush
  obtain rfl : found = current := Option.some.inj (hfound.symm.trans hopen)
  rcases hfails with hfails | ⟨_, inner, hstep, hfails⟩
  · exact hfails
  -- From here on nothing can fail: the function is still open.
  obtain ⟨last, hlast⟩ := Option.isSome_iff_exists.mp (h _ _ _ rfl hstep).1.isOpen
  rcases hfails with hfails | ⟨_, _, -, hfails⟩
  · exact absurd hfails (not_fails_onFunction hlast)
  rcases hfails with hfails | ⟨_, _, -, hfails⟩
  · exact absurd hfails not_fails_modify
  · exact absurd hfails not_fails_modify

theorem Writes.braced {step : Emit Unit} {draft : Nat → Locals → Lowered Draft}
    (h : Writes cx least step draft) (span : Span) (kind : FrameKind) :
    Writes cx least (braced span kind step) fun depth locals =>
      (draft (depth + 1) (locals.push kind)).map (Draft.braced cx.layout depth locals) := by
  refine ⟨h.moves.braced span kind, h.adds.braced span kind, ?_⟩
  intro session current e hready hleast hopen hfails
  have hready' : (bracing session current kind).Ready cx :=
    ⟨hready.layout, hready.current, hready.before⟩
  have herror : draft (session.current.depth + 1) (current.locals.push kind) = .error e :=
    h.reports _ _ _ hready' hleast rfl (h.moves.fails_braced hopen hfails)
  simp only [herror, Except.map]

/-! ## Statement by statement -/

theorem stmts_before {spell : Spell} : ∀ {body : List Stmt} {depth : Nat} {locals : Locals}
    {added : Draft}, Draft.stmts cx spell depth locals body = .ok added → added.before = ""
  | [], _, _, _, h => by
    cases h
    rfl
  | stmt :: rest, depth, locals, added, h => by
    obtain ⟨first, others, -, hothers, rfl⟩ := Draft.stmts_cons_eq_ok.mp h
    simp [Draft.andThen, Draft.statement, stmts_before hothers]

theorem stmts_writes_of_forall {body : List Stmt}
    (h : ∀ stmt ∈ body, Writes cx 1 (content cx stmt) fun depth locals =>
      Draft.content cx (exprText cx) depth locals stmt) :
    Writes cx least (stmts cx body) fun depth locals =>
      Draft.stmts cx (exprText cx) depth locals body := by
  induction body with
  | nil => exact writes_pure
  | cons stmt rest ih =>
    refine ((h stmt (by simp)).asStatement.seq (ih fun other hm => h other (by simp [hm]))).congr
      fun depth locals => ?_
    rw [Draft.stmts]
    cases Draft.content cx (exprText cx) 0 locals stmt <;>
      simp only [Except.map, bind, Except.bind, pure, Except.pure, Draft.statement]

theorem branch_writes {stmt : Stmt} (kind : FrameKind)
    (h : Writes cx 1 (content cx stmt) fun depth locals =>
      Draft.content cx (exprText cx) depth locals stmt) :
    Writes cx 1 (if stmt.isBlock then content cx stmt
        else braced stmt.span kind (asStatement (content cx stmt))) fun depth locals =>
      Draft.branch cx depth locals stmt (Draft.content cx (exprText cx) depth locals stmt)
        (Draft.content cx (exprText cx) 0 (locals.push kind) stmt) := by
  unfold Draft.branch
  by_cases hb : stmt.isBlock = true
  · simp only [hb, if_true]
    exact h
  · simp only [hb]
    refine (h.asStatement.braced stmt.span kind).congr fun depth locals => ?_
    cases Draft.content cx (exprText cx) 0 (locals.push kind) stmt <;> simp [Except.map]

/-- The head of a conditional or a loop binds nothing. -/
theorem head_locals {spell : Spell} {depth : Nat} {locals : Locals} {word : String}
    {condition : Expr} {added : Draft}
    (h : Draft.head cx spell depth locals word condition = .ok added) : added.locals = locals := by
  obtain ⟨text, -, rfl⟩ := Draft.head_eq_ok.mp h
  rfl

/-- What a branch binds ends with it. -/
theorem branch_locals {spell : Spell} {depth : Nat} {locals : Locals} {stmt : Stmt}
    {asSingle : Lowered Draft} {added : Draft}
    (h : Draft.branch cx depth locals stmt (Draft.content cx spell depth locals stmt) asSingle
      = .ok added) : added.locals = locals := by
  rcases Draft.branch_cases h with ⟨_, _, inner, -, -, -, rfl⟩ | ⟨single, -, -, rfl⟩
  · rfl
  · rfl

theorem bind_congr_ok {first : Lowered Draft} {next next' : Draft → Lowered Draft}
    (h : ∀ added, first = .ok added → next added = next' added) :
    (first >>= next) = first >>= next' := by
  cases first with
  | error e => rfl
  | ok added => exact h added rfl

theorem content_ifElse (span : Span) (condition : Expr) (thenBranch : Stmt)
    (elseBranch : Option Stmt) :
    content cx (.ifElse span condition thenBranch elseBranch) = (do
      head cx "if" condition
      (do
        if thenBranch.isBlock then content cx thenBranch
        else braced thenBranch.span .block (asStatement (content cx thenBranch)))
      elseContent cx elseBranch) := by
  rw [content]
  cases thenBranch.isBlock <;> simp

theorem else_writes {elseBranch : Option Stmt}
    (h : ∀ stmt, elseBranch = some stmt → Writes cx 1 (content cx stmt) fun depth locals =>
      Draft.content cx (exprText cx) depth locals stmt) :
    Writes cx 1 (elseContent cx elseBranch) fun depth locals =>
      Draft.elseContent cx (exprText cx) depth locals elseBranch := by
  cases elseBranch with
  | none => exact writes_pure
  | some stmt => exact (writes_append "else" .line).seq (branch_writes .block (h stmt rfl))

theorem content_writes (stmt : Stmt) :
    Writes cx 1 (content cx stmt) fun depth locals =>
      Draft.content cx (exprText cx) depth locals stmt := by
  induction stmt using Stmt.ind with
  | vars span kind decls => exact writes_variableDecls kind decls
  | expr span value =>
    refine ((writes_expr value).seq (writes_append ";" .inline)).congr fun depth locals => ?_
    rw [Draft.content]
    cases exprText cx locals value <;>
      simp [bind, Except.bind, pure, Except.pure, Except.map, Draft.andThen, Draft.ofText]
  | ret span value =>
    cases value with
    | none => exact writes_append "return;" .inline
    | some value =>
      refine ((writes_append "return " .inline).seq
        ((writes_expr value).seq (writes_append ";" .inline))).congr fun depth locals => ?_
      rw [Draft.content]
      cases ht : exprText cx locals value <;>
        simp [bind, Except.bind, pure, Except.pure, Except.map, Draft.andThen, Draft.ofText, ht,
          String.append_assoc]
  | brk span => exact writes_append "break;" .inline
  | cont span => exact writes_append "continue;" .inline
  | ifElse span condition thenBranch elseBranch hThen hElse =>
    rw [content_ifElse]
    refine ((writes_head "if" condition).seq
      ((branch_writes .block hThen).seq (else_writes hElse))).congr fun depth locals => ?_
    rw [Draft.content]
    refine bind_congr_ok fun first hfirst => ?_
    rw [head_locals hfirst, bind_assoc]
    refine bind_congr_ok fun second hsecond => ?_
    rw [branch_locals hsecond, bind_assoc]
    refine bind_congr_ok fun third _ => ?_
    rw [pure_bind, Draft.andThen_assoc]
  | loop span condition body hBody =>
    refine ((writes_head "while" condition).seq (branch_writes .loop hBody)).congr
      fun depth locals => ?_
    rw [Draft.content]
    refine bind_congr_ok fun first hfirst => ?_
    rw [head_locals hfirst]
  | block span body hBody =>
    refine ((stmts_writes_of_forall hBody).braced span .block).congr fun depth locals => ?_
    rw [Draft.content]
    cases Draft.stmts cx (exprText cx) (depth + 1) (locals.push .block) body <;>
      simp only [Except.map, bind, Except.bind, pure, Except.pure]
  | staged span before body hBefore hBody =>
    refine (((stmts_writes_of_forall hBefore).inPrelude fun _ _ _ => stmts_before).seq hBody).congr
      fun depth locals => ?_
    rw [Draft.content]
    cases Draft.stmts cx (exprText cx) 0 locals before <;>
      simp only [Except.map, bind, Except.bind, Draft.asPrelude]

/-- **Writing statements adds their draft.** -/
theorem stmts_writes (least : Nat) (body : List Stmt) :
    Writes cx least (stmts cx body) fun depth locals =>
      Draft.stmts cx (exprText cx) depth locals body :=
  stmts_writes_of_forall fun stmt _ => content_writes stmt

end Writing

end Emit

end NativeLowering
