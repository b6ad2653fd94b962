import NativeLowering.Proofs.Cleanup.Marked
import NativeLowering.Proofs.Ending
import NativeLowering.Proofs.Pass.Replacing
import NativeLowering.Proofs.Scoping.Passes
import NativeLowering.Proofs.Scoping.Reframed

/-!
# Braces around single branches make no difference

A branch that is a single statement may as well be a block of that statement (`braced`). The other
passes commute with the change (`Walk.body_braced`), and what is written is the same
(`Draft.stmts_braced`), for writing puts braces around a single branch anyway.

The two routes do not meet the same frames. A walk opens one frame for a branch and another for a
block, and what is written in a loop stands in the frame of the loop or in that of its block. Nothing
looks at that (`Locals.Reframed`).

A body with stages is another matter. A walk drops a stage with nothing in it, so a branch that was
no block becomes one, and only on the one side. The walks are those of bodies without stages.
-/

set_option autoImplicit false

namespace NativeLowering

open Address (Unstaged UnstagedOption UnstagedAll)
open Cleanup (braced bracedOption bracedAll)
open Lowered (InStep)

namespace Lowered

variable {α β γ : Type}

theorem inStep_eq (computed : Lowered α) :
    InStep (fun value value' => value' = value) computed computed := by
  cases computed with
  | ok value => exact .ok rfl
  | error e => exact .error e

theorem map_map (computed : Lowered α) (change : α → β) (more : β → γ) :
    (computed.map change).map more = computed.map (more ∘ change) := by
  cases computed <;> rfl

end Lowered

/-! ## Branches -/

namespace Cleanup

/-- A branch or the body of a loop, always as a block. -/
def bracedBranch (branch : Stmt) : Stmt :=
  if branch.isBlock then braced branch else .block branch.span [braced branch]

@[simp] theorem isBlock_braced (stmt : Stmt) : (braced stmt).isBlock = stmt.isBlock := by
  cases stmt <;> rfl

@[simp] theorem span_braced (stmt : Stmt) : (braced stmt).span = stmt.span := by
  cases stmt <;> rfl

theorem braced_ifElse (span : Span) (condition : Expr) (first : Stmt) (second : Option Stmt) :
    braced (.ifElse span condition first second)
      = .ifElse span condition (bracedBranch first) (bracedOption second) := by
  rw [braced, bracedBranch]

theorem braced_loop (span : Span) (condition : Expr) (body : Stmt) :
    braced (.loop span condition body) = .loop span condition (bracedBranch body) := by
  rw [braced, bracedBranch]

theorem bracedOption_some (branch : Stmt) :
    bracedOption (some branch) = some (bracedBranch branch) := by
  rw [bracedOption, bracedBranch]

/-- What runs before a statement keeps its place in front of it. -/
theorem braced_stage {before : List Stmt} (hbefore : bracedAll before = before) (stmt : Stmt) :
    braced (Walk.stage before stmt) = Walk.stage before (braced stmt) := by
  cases before with
  | nil => rfl
  | cons first rest => rw [Walk.stage, braced, hbefore, Walk.stage, span_braced]

theorem bracedAll_eq_map (stmts : List Stmt) : bracedAll stmts = stmts.map braced := by
  induction stmts with
  | nil => rfl
  | cons stmt rest ih => rw [bracedAll, ih, List.map_cons]

/-- Statements without branches stay. -/
theorem bracedAll_of_forall {stmts : List Stmt} (h : ∀ stmt ∈ stmts, braced stmt = stmt) :
    bracedAll stmts = stmts := by
  rw [bracedAll_eq_map, List.map_congr_left h, List.map_id']

theorem unstaged_bracedBranch {branch : Stmt} (h : Unstaged (braced branch) ↔ Unstaged branch) :
    Unstaged (bracedBranch branch) ↔ Unstaged branch := by
  unfold bracedBranch
  by_cases hb : branch.isBlock = true
  · rw [if_pos hb]
    exact h
  · rw [if_neg hb]
    simp only [Unstaged, UnstagedAll, and_true, h]

theorem unstagedAll_bracedAll_of_forall {stmts : List Stmt}
    (h : ∀ stmt ∈ stmts, Unstaged (braced stmt) ↔ Unstaged stmt) :
    UnstagedAll (bracedAll stmts) ↔ UnstagedAll stmts := by
  induction stmts with
  | nil => exact Iff.rfl
  | cons stmt rest ih =>
    exact and_congr (h stmt (by simp)) (ih fun other hm => h other (by simp [hm]))

theorem unstaged_braced (stmt : Stmt) : Unstaged (braced stmt) ↔ Unstaged stmt := by
  induction stmt using Stmt.ind with
  | vars | expr | ret | brk | cont | staged => exact Iff.rfl
  | ifElse span condition first second hFirst hSecond =>
    rw [braced_ifElse]
    apply and_congr (unstaged_bracedBranch hFirst)
    cases second with
    | none => exact Iff.rfl
    | some branch =>
      rw [bracedOption_some]
      exact unstaged_bracedBranch (hSecond branch rfl)
  | loop span condition body hBody =>
    rw [braced_loop]
    exact unstaged_bracedBranch hBody
  | block span body hBody => exact unstagedAll_bracedAll_of_forall hBody

theorem unstagedAll_bracedAll (stmts : List Stmt) :
    UnstagedAll (bracedAll stmts) ↔ UnstagedAll stmts :=
  unstagedAll_bracedAll_of_forall fun stmt _ => unstaged_braced stmt

end Cleanup

open Cleanup (bracedBranch bracedOption_some braced_ifElse braced_loop braced_stage)

/-! ## The walks -/

namespace Walk

/-- Two walks have come equally far, with the same variables in scope. -/
structure Point.Reframed (point other : Point) : Prop where
  locals : point.locals.Reframed other.locals
  next : other.next = point.next

/-- A visit that looks at the variables in scope and not at their frames, and asks for statements
without branches. -/
structure Frameless (visit : Visit) : Prop where
  reframed : ∀ {locals other : Locals}, locals.Reframed other → visit other = visit locals
  asks : ∀ locals value, Asks (fun stmt => braced stmt = stmt) (visit locals value)

section Abreast

variable {α β γ δ : Type} {R : α → β → Prop}

/-- From points that have come equally far both steps come equally far, with related results, or both
fail with the same error. -/
def Abreast (R : α → β → Prop) (first : StmtM α) (second : StmtM β) : Prop :=
  ∀ point other, point.Reframed other →
    InStep (fun entry entry' => R entry.1 entry'.1 ∧ entry.2.Reframed entry'.2) (first.run point)
      (second.run other)

theorem Abreast.pure {result : α} {result' : β} (h : R result result') :
    Abreast R (pure result) (pure result') := fun _ _ hpoint => .ok ⟨h, hpoint⟩

theorem Abreast.bind {S : γ → δ → Prop} {first : StmtM α} {second : StmtM β} {next : α → StmtM γ}
    {next' : β → StmtM δ} (h : Abreast R first second)
    (hnext : ∀ result result', R result result' → Abreast S (next result) (next' result')) :
    Abreast S (first >>= next) (second >>= next') := by
  intro point other hpoint
  exact (h point other hpoint).bind fun entry entry' hentry => hnext _ _ hentry.1 _ _ hentry.2

theorem run_inFrame_eq (kind : FrameKind) (walk : StmtM α) (point : Point) :
    (inFrame kind walk).run point = (walk.run ⟨point.locals.push kind, point.next⟩).map
      fun entry => (entry.1, ⟨point.locals, entry.2.next⟩) := by
  unfold inFrame
  simp only [StateT.run_bind, StateT.run_get, StateT.run_modify, pure_bind]
  cases walk.run ⟨point.locals.push kind, point.next⟩ <;> rfl

theorem Abreast.inFrame {first : StmtM α} {second : StmtM β} (h : Abreast R first second)
    (kind otherKind : FrameKind) :
    Abreast R (inFrame kind first) (inFrame otherKind second) := by
  intro point other hpoint
  rw [run_inFrame_eq, run_inFrame_eq]
  have hinner := h ⟨point.locals.push kind, point.next⟩ ⟨other.locals.push otherKind, other.next⟩
    ⟨hpoint.locals.push kind otherKind, hpoint.next⟩
  apply hinner.map
  intro entry entry' hentry
  exact ⟨hentry.1, hpoint.locals, hentry.2.next⟩

/-- A frame inside the frame makes no difference. -/
theorem Abreast.inFrames {first : StmtM α} {second : StmtM β} (h : Abreast R first second)
    (kind otherKind inner : FrameKind) :
    Abreast R (Walk.inFrame kind first) (Walk.inFrame otherKind (Walk.inFrame inner second)) := by
  intro point other hpoint
  rw [run_inFrame_eq, run_inFrame_eq, run_inFrame_eq]
  have hinner := h ⟨point.locals.push kind, point.next⟩
    ⟨(other.locals.push otherKind).push inner, other.next⟩
    ⟨(hpoint.locals.push kind otherKind).pushOther inner, hpoint.next⟩
  rw [Lowered.map_map]
  apply hinner.map
  intro entry entry' hentry
  exact ⟨hentry.1, hpoint.locals, hentry.2.next⟩

theorem inFrame_map (kind : FrameKind) (change : α → β) (walk : StmtM α) :
    inFrame kind (change <$> walk) = change <$> inFrame kind walk := by
  apply StateT.ext
  intro point
  rw [StateT.run_map, run_inFrame_eq, run_inFrame_eq, StateT.run_map]
  cases walk.run ⟨point.locals.push kind, point.next⟩ <;> rfl

end Abreast

section Bracing

variable {model : Model} {visit : Visit} (hvisit : Frameless visit)
include hvisit

/-- Both walks get the same, and ask for the same. -/
theorem atPoint_abreast (value : Expr) :
    Abreast (fun entry entry' => entry' = entry ∧ bracedAll entry.2 = entry.2) (atPoint visit value)
      (atPoint visit value) := by
  rintro ⟨locals, _⟩ ⟨other, number⟩ ⟨hlocals, rfl⟩
  have hsame : (atPoint visit value).run ⟨other, number⟩
      = ((atPoint visit value).run ⟨locals, number⟩).map
        fun entry => (entry.1, ⟨other, entry.2.next⟩) := by
    unfold atPoint
    simp only [StateT.run_bind, StateT.run_get, pure_bind, hvisit.reframed hlocals]
    cases (expr (visit locals) value).run ⟨number, []⟩ <;> rfl
  rw [hsame]
  cases hrun : (atPoint visit value).run ⟨locals, number⟩ with
  | error e => exact .error e
  | ok entry =>
    obtain ⟨⟨result, before⟩, after⟩ := entry
    obtain ⟨last, hvalue, rfl⟩ := run_atPoint.mp hrun
    refine .ok ⟨⟨rfl, ?_⟩, hlocals, rfl⟩
    apply Cleanup.bracedAll_of_forall
    exact expr_asks (hvisit.asks locals) value _ _ _ hvalue (List.forall_mem_nil _)

theorem atPointOption_abreast (value : Option Expr) :
    Abreast (fun entry entry' => entry' = entry ∧ bracedAll entry.2 = entry.2)
      (atPointOption visit value) (atPointOption visit value) := by
  cases value with
  | none => exact .pure ⟨rfl, rfl⟩
  | some value =>
    refine (atPoint_abreast hvisit value).bind ?_
    rintro ⟨result, before⟩ _ ⟨rfl, hbefore⟩
    exact .pure ⟨rfl, hbefore⟩

theorem varDecl_abreast [model.Typed] (decl : VariableDecl) :
    Abreast (fun entry entry' => entry' = entry ∧ bracedAll entry.2 = entry.2)
      (varDecl model visit decl) (varDecl model visit decl) := by
  refine (atPointOption_abreast hvisit decl.init).bind ?_
  rintro ⟨init, before⟩ _ ⟨rfl, hbefore⟩
  intro point other hpoint
  dsimp only
  cases decl.name.ident? with
  | none => exact .ok ⟨⟨rfl, hbefore⟩, hpoint⟩
  | some name =>
    refine .ok ⟨⟨rfl, hbefore⟩, ?_, hpoint.next⟩
    show (point.locals.declare name (model.declaredType point.locals { decl with init })).Reframed
      (other.locals.declare name (model.declaredType other.locals { decl with init }))
    rw [hpoint.locals.declaredType]
    exact hpoint.locals.declare name _

theorem varDecls_abreast [model.Typed] (decls : List VariableDecl) :
    Abreast (fun entry entry' => entry' = entry ∧ bracedAll entry.2 = entry.2)
      (varDecls model visit decls) (varDecls model visit decls) := by
  induction decls with
  | nil => exact .pure ⟨rfl, rfl⟩
  | cons decl rest ih =>
    refine (varDecl_abreast hvisit decl).bind ?_
    rintro ⟨first, before⟩ _ ⟨rfl, hbefore⟩
    refine ih.bind ?_
    rintro ⟨others, more⟩ _ ⟨rfl, hmore⟩
    refine .pure ⟨rfl, ?_⟩
    dsimp only at hbefore hmore ⊢
    rw [Cleanup.bracedAll_eq_map] at hbefore hmore ⊢
    rw [List.map_append, hbefore, hmore]

omit hvisit

/-- The walk leaves a statement where it is, and a block a block. -/
structure Bracing (stmt result result' : Stmt) : Prop where
  braced : result' = braced result
  isBlock : result.isBlock = stmt.isBlock
  span : result.span = stmt.span

theorem Bracing.staged {before : List Stmt} (hbefore : bracedAll before = before)
    {stmt result result' : Stmt} (hplain : stmt.isBlock = false) (h : Bracing stmt result result') :
    Bracing stmt (stage before result) (stage before result') := by
  refine ⟨?_, ?_, ?_⟩
  · rw [braced_stage hbefore, h.braced]
  · cases before with
    | nil => exact h.isBlock
    | cons => exact hplain.symm
  · cases before with
    | nil => exact h.span
    | cons => exact h.span

/-- A single branch is walked in one frame and its block in two. -/
theorem branch_abreast {branch : Stmt}
    (h : Abreast (Bracing branch) (stmt model visit branch) (stmt model visit (braced branch)))
    (kind : FrameKind) :
    Abreast (fun result result' => result' = bracedBranch result)
      (inFrame kind (stmt model visit branch))
      (inFrame kind (stmt model visit (bracedBranch branch))) := by
  by_cases hb : branch.isBlock = true
  · rw [bracedBranch, if_pos hb]
    refine Abreast.inFrame ?_ kind kind
    rw [← bind_pure (stmt model visit branch), ← bind_pure (stmt model visit (braced branch))]
    refine h.bind fun result result' hresult => .pure ?_
    rw [bracedBranch, if_pos (hresult.isBlock.trans hb), hresult.braced]
  · rw [bracedBranch, if_neg hb]
    have hsingle : Abreast (fun result results => results = [braced result] ∧
        result.isBlock = branch.isBlock ∧ result.span = branch.span)
        (stmt model visit branch) (stmts model visit [braced branch]) := by
      rw [stmts, ← bind_pure (stmt model visit branch)]
      refine h.bind fun result result' hresult => .pure ?_
      exact ⟨by rw [hresult.braced], hresult.isBlock, hresult.span⟩
    have hblock : stmt model visit (.block branch.span [braced branch])
        = Stmt.block branch.span <$> inFrame .block (stmts model visit [braced branch]) := by
      rw [stmt, map_eq_pure_bind]
    rw [hblock, inFrame_map, map_eq_pure_bind, ← bind_pure (inFrame kind (stmt model visit branch))]
    refine (hsingle.inFrames kind kind .block).bind ?_
    rintro result _ ⟨rfl, hisBlock, hspan⟩
    refine .pure ?_
    rw [bracedBranch, hisBlock, if_neg hb, hspan]

theorem stmts_abreast {body : List Stmt} (h : ∀ statement ∈ body, Unstaged statement →
      Abreast (Bracing statement) (stmt model visit statement) (stmt model visit (braced statement)))
    (hplain : UnstagedAll body) :
    Abreast (fun result result' => result' = bracedAll result) (stmts model visit body)
      (stmts model visit (bracedAll body)) := by
  induction body with
  | nil => exact .pure rfl
  | cons statement rest ih =>
    refine (h statement (by simp) hplain.1).bind fun first first' hfirst => ?_
    refine (ih (fun other hm => h other (by simp [hm])) hplain.2).bind ?_
    rintro others _ rfl
    exact .pure (by rw [bracedAll, hfirst.braced])

include hvisit

variable [model.Typed]

theorem stmt_abreast (statement : Stmt) : Unstaged statement →
    Abreast (Bracing statement) (stmt model visit statement)
      (stmt model visit (braced statement)) := by
  -- An expression is visited alike on both sides. Where a branch is braced, the walk goes through a
  -- frame more on one side than on the other (`branch_abreast`).
  induction statement using Stmt.ind with
  | vars span kind decls =>
    intro _
    refine (varDecls_abreast hvisit decls).bind ?_
    rintro ⟨results, before⟩ _ ⟨rfl, hbefore⟩
    exact .pure (.staged hbefore rfl ⟨rfl, rfl, rfl⟩)
  | expr span value =>
    intro _
    refine (atPoint_abreast hvisit value).bind ?_
    rintro ⟨result, before⟩ _ ⟨rfl, hbefore⟩
    exact .pure (.staged hbefore rfl ⟨rfl, rfl, rfl⟩)
  | ret span value =>
    intro _
    refine (atPointOption_abreast hvisit value).bind ?_
    rintro ⟨result, before⟩ _ ⟨rfl, hbefore⟩
    exact .pure (.staged hbefore rfl ⟨rfl, rfl, rfl⟩)
  | ifElse span condition first second hFirst hSecond =>
    intro hplain
    rw [braced_ifElse, stmt, stmt]
    refine (atPoint_abreast hvisit condition).bind ?_
    rintro ⟨condition', before⟩ _ ⟨rfl, hbefore⟩
    refine (branch_abreast (hFirst hplain.1) .block).bind ?_
    rintro first' _ rfl
    have hsecond : Abreast (fun result result' => result' = bracedOption result)
        (elseStmt model visit second) (elseStmt model visit (bracedOption second)) := by
      cases second with
      | none => exact .pure rfl
      | some branch =>
        rw [bracedOption_some, elseStmt, elseStmt]
        refine (branch_abreast (hSecond branch rfl hplain.2) .block).bind ?_
        rintro branch' _ rfl
        exact .pure (bracedOption_some branch').symm
    refine hsecond.bind ?_
    rintro second' _ rfl
    exact .pure (.staged hbefore rfl ⟨(braced_ifElse ..).symm, rfl, rfl⟩)
  | loop span condition body hBody =>
    intro hplain
    rw [braced_loop, stmt, stmt]
    refine (atPoint_abreast hvisit condition).bind ?_
    rintro ⟨condition', before⟩ _ ⟨rfl, hbefore⟩
    refine (branch_abreast (hBody hplain) .loop).bind ?_
    rintro body' _ rfl
    exact .pure (.staged hbefore rfl ⟨(braced_loop ..).symm, rfl, rfl⟩)
  | brk span => exact fun _ => .pure ⟨rfl, rfl, rfl⟩
  | cont span => exact fun _ => .pure ⟨rfl, rfl, rfl⟩
  | block span body hBody =>
    intro hplain
    rw [braced, stmt, stmt]
    refine ((stmts_abreast hBody hplain).inFrame .block .block).bind ?_
    rintro body' _ rfl
    exact .pure ⟨by rw [braced], rfl, rfl⟩
  | staged => exact fun hplain => hplain.elim

/-- **The walks commute with braces.** Where a walk goes through a body, it goes through the body with
a block in place of every single branch, and leaves the same but for the blocks; and where it fails
it fails with the same error. -/
theorem body_braced {statements : List Stmt} (hplain : UnstagedAll statements) {locals : Locals}
    (hopen : locals.Open) :
    body model visit locals (bracedAll statements)
      = (body model visit locals statements).map bracedAll := by
  have hstmts : Abreast (fun result result' => result' = bracedAll result)
      (stmts model visit statements) (stmts model visit (bracedAll statements)) :=
    stmts_abreast (fun statement _ => stmt_abreast hvisit statement) hplain
  have h := hstmts ⟨locals, 1⟩ ⟨locals, 1⟩ ⟨.refl hopen, rfl⟩
  apply InStep.eq_map
  exact h.map fun entry entry' hentry => hentry.1

end Bracing

end Walk

/-- Injecting receivers asks for nothing. -/
theorem Receiver.injecting_frameless (model : Model) [model.Typed] :
    Walk.Frameless fun locals value => (liftM (Receiver.injectCall model locals value)) where
  reframed h := by
    funext value
    rw [h.injectCall]
  asks locals value := .lift _

/-- What the operands ask for are declarations. -/
theorem Address.materializeCall_frameless (model : Model) [model.Typed] :
    Walk.Frameless (Address.materializeCall model) where
  reframed h := funext fun value => h.materializeCall model value
  asks locals value := by
    unfold Address.materializeCall
    split
    · split
      · split
        · intro pending after result hrun
          cases hrun
        · intro pending after result hrun hbefore
          cases hrun
          exact List.forall_mem_append.mpr ⟨hbefore, List.forall_mem_singleton.mpr rfl⟩
      · exact .pure _
    · exact .pure _

/-! ## What is written -/

namespace Draft

/-- The drafts are the same but for the frames of the bindings after them. -/
structure Reframed (draft other : Draft) : Prop where
  text : other.text = draft.text
  before : other.before = draft.before
  hoisted : other.hoisted = draft.hoisted
  locals : draft.locals.Reframed other.locals

section Reframing

variable {draft other first first' second second' : Draft}

theorem Reframed.ofText {locals others : Locals} (h : locals.Reframed others) (text : String) :
    (ofText text locals).Reframed (ofText text others) := ⟨rfl, rfl, rfl, h⟩

theorem Reframed.andThen (h : first.Reframed first') (h' : second.Reframed second') :
    (first.andThen second).Reframed (first'.andThen second') where
  text := by rw [Draft.andThen, Draft.andThen, h.text, h'.text]
  before := by rw [Draft.andThen, Draft.andThen, h.before, h'.before]
  hoisted := by rw [Draft.andThen, Draft.andThen, h.hoisted, h'.hoisted]
  locals := h'.locals

/-- Nothing after a draft leaves the draft. -/
theorem andThen_nothing (draft : Draft) : draft.andThen (ofText "" draft.locals) = draft := by
  simp [andThen, Draft.ofText]

/-- A block of one statement is written like the statement in braces. -/
theorem content_lone (cx : Context) (spell : Spell) (depth : Nat) (locals : Locals) (span : Span)
    (stmt : Stmt) :
    content cx spell depth locals (.block span [stmt])
      = (content cx spell 0 (locals.push .block) stmt).map fun single =>
          Draft.braced cx.layout depth locals (Draft.statement cx.layout (depth + 1) single) := by
  simp only [content, stmts]
  cases content cx spell 0 (locals.push .block) stmt with
  | error e => rfl
  | ok single =>
    show Except.ok (Draft.braced cx.layout depth locals ((Draft.statement cx.layout (depth + 1)
      single).andThen (ofText "" single.locals))) = _
    rw [← statement_locals cx.layout (depth + 1) single, andThen_nothing]
    rfl

theorem Reframed.asPrelude (h : draft.Reframed other) : draft.asPrelude.Reframed other.asPrelude :=
  ⟨rfl, h.text, h.hoisted, h.locals⟩

theorem Reframed.statement (h : draft.Reframed other) (layout : Layout) (depth : Nat) :
    (draft.statement layout depth).Reframed (other.statement layout depth) where
  text := by rw [Draft.statement, Draft.statement, h.text, h.before]
  before := by rw [statement_before, statement_before]
  hoisted := by rw [statement_hoisted, statement_hoisted, h.hoisted]
  locals := by
    rw [statement_locals, statement_locals]
    exact h.locals

theorem Reframed.braced (h : draft.Reframed other) {locals others : Locals}
    (hlocals : locals.Reframed others) (layout : Layout) (depth : Nat) :
    (draft.braced layout depth locals).Reframed (other.braced layout depth others) where
  text := by rw [Draft.braced, Draft.braced, h.text]
  before := h.before
  hoisted := h.hoisted
  locals := hlocals

end Reframing

section Bracing

variable {cx : Context} {passes : PassSet} {spell spell' : Spell}
  (hspell : ∀ {locals other : Locals}, locals.Reframed other → spell' other = spell locals)

/-- What is written of a part of a body, wherever the variables in scope are the same. -/
def Alike (first second : Locals → Lowered Draft) : Prop :=
  ∀ locals other, locals.Reframed other → InStep Reframed (first locals) (second other)

include hspell

theorem variableDecl_alike (depth : Nat) (kind : VariableKind) (decl : VariableDecl) :
    Alike (variableDecl cx spell depth kind · decl)
      (variableDecl (cx.withPasses passes) spell' depth kind · decl) := by
  intro locals other h
  have hinitial : initial spell' other decl.init = initial spell locals decl.init := by
    cases decl.init with
    | none => rfl
    | some init => rw [initial, initial, hspell h]
  dsimp only
  unfold variableDecl
  rw [hinitial]
  refine (Lowered.inStep_eq (Emit.variableName decl)).bind ?_
  rintro _ name rfl
  refine (Lowered.inStep_eq (Emit.variableType decl name)).bind ?_
  rintro _ node rfl
  refine (Lowered.inStep_eq (cx.typePiece node)).bind ?_
  rintro _ type rfl
  refine (Lowered.inStep_eq (initial spell locals decl.init)).bind ?_
  rintro _ value rfl
  have hafter := h.declare name (cx.model.typeFromNode node)
  cases kind <;> cases value <;> exact .ok ⟨rfl, rfl, rfl, hafter⟩

theorem variableDecls_alike (depth : Nat) (kind : VariableKind) (decls : List VariableDecl) :
    Alike (variableDecls cx spell depth kind · decls)
      (variableDecls (cx.withPasses passes) spell' depth kind · decls) := by
  induction decls with
  | nil => exact fun locals other h => .ok (.ofText h "")
  | cons decl rest ih =>
    intro locals other h
    refine (variableDecl_alike hspell depth kind decl locals other h).bind fun first first' hfirst => ?_
    exact (ih _ _ hfirst.locals).bind fun others others' hothers => .ok (hfirst.andThen hothers)

theorem head_alike (depth : Nat) (word : String) (condition : Expr) :
    Alike (head cx spell depth · word condition)
      (head (cx.withPasses passes) spell' depth · word condition) := by
  intro locals other h
  dsimp only
  unfold head
  rw [hspell h]
  refine (Lowered.inStep_eq (spell locals condition)).bind ?_
  rintro _ text rfl
  exact .ok (.ofText h _)

omit hspell in
/-- A single branch is written in braces, and its block is written so too. -/
theorem branch_alike {branch : Stmt} (h : ∀ depth, Alike (content cx spell depth · branch)
      (content (cx.withPasses passes) spell' depth · (Cleanup.braced branch)))
    (depth : Nat) (kind : FrameKind) :
    Alike (fun locals => Draft.branch cx depth locals branch (content cx spell depth locals branch)
        (content cx spell 0 (locals.push kind) branch))
      fun locals => Draft.branch (cx.withPasses passes) depth locals (bracedBranch branch)
        (content (cx.withPasses passes) spell' depth locals (bracedBranch branch))
        (content (cx.withPasses passes) spell' 0 (locals.push kind) (bracedBranch branch)) := by
  intro locals other hlocals
  by_cases hb : branch.isBlock = true
  · have hb' : (Cleanup.braced branch).isBlock = true := by rw [Cleanup.isBlock_braced, hb]
    simp only [bracedBranch, if_pos hb, Draft.branch, if_pos hb']
    exact h depth locals other hlocals
  · simp only [bracedBranch, if_neg hb, Draft.branch]
    show InStep Reframed _ (content (cx.withPasses passes) spell' depth other
      (.block branch.span [Cleanup.braced branch]))
    rw [content_lone]
    apply (h 0 _ _ (hlocals.push kind .block)).map
    intro single single' hsingle
    exact (hsingle.statement cx.layout (depth + 1)).braced hlocals cx.layout depth

omit hspell in
theorem stmts_alike_of_forall {body : List Stmt} (h : ∀ stmt ∈ body, ∀ depth,
      Alike (content cx spell depth · stmt)
        (content (cx.withPasses passes) spell' depth · (Cleanup.braced stmt)))
    (depth : Nat) :
    Alike (stmts cx spell depth · body)
      (stmts (cx.withPasses passes) spell' depth · (Cleanup.bracedAll body)) := by
  induction body with
  | nil => exact fun locals other hlocals => .ok (.ofText hlocals "")
  | cons stmt rest ih =>
    intro locals other hlocals
    refine (h stmt (by simp) 0 locals other hlocals).bind fun first first' hfirst => ?_
    have hrest := ih (fun other hm => h other (by simp [hm])) _ _ hfirst.locals
    exact hrest.bind fun others others' hothers => .ok ((hfirst.statement cx.layout depth).andThen hothers)

theorem content_alike (stmt : Stmt) : ∀ depth, Alike (content cx spell depth · stmt)
    (content (cx.withPasses passes) spell' depth · (Cleanup.braced stmt)) := by
  induction stmt using Stmt.ind with
  | vars span kind decls => exact fun depth => variableDecls_alike hspell depth kind decls
  | expr span value =>
    intro depth locals other h
    simp only [Cleanup.braced, content, hspell h]
    refine (Lowered.inStep_eq (spell locals value)).bind ?_
    rintro _ text rfl
    exact .ok (.ofText h _)
  | ret span value =>
    intro depth locals other h
    cases value with
    | none => exact .ok (.ofText h _)
    | some value =>
      simp only [Cleanup.braced, content, hspell h]
      refine (Lowered.inStep_eq (spell locals value)).bind ?_
      rintro _ text rfl
      exact .ok (.ofText h _)
  | brk span => exact fun depth locals other h => .ok (.ofText h _)
  | cont span => exact fun depth locals other h => .ok (.ofText h _)
  | ifElse span condition first second hFirst hSecond =>
    intro depth locals other h
    simp only [braced_ifElse, content]
    refine (head_alike hspell depth "if" condition locals other h).bind fun one one' hone => ?_
    refine (branch_alike hFirst depth .block locals other h).bind fun two two' htwo => ?_
    have hthird : InStep Reframed (elseContent cx spell depth locals second)
        (elseContent (cx.withPasses passes) spell' depth other (bracedOption second)) := by
      cases second with
      | none => exact .ok (.ofText h "")
      | some branch =>
        rw [bracedOption_some, elseContent, elseContent]
        refine (branch_alike (hSecond branch rfl) depth .block locals other h).bind ?_
        exact fun three three' hthree => .ok (.andThen (.ofText h _) hthree)
    exact hthird.bind fun three three' hthree => .ok ((hone.andThen htwo).andThen hthree)
  | loop span condition body hBody =>
    intro depth locals other h
    simp only [braced_loop, content]
    refine (head_alike hspell depth "while" condition locals other h).bind fun one one' hone => ?_
    refine (branch_alike hBody depth .loop locals other h).bind fun two two' htwo => ?_
    exact .ok (hone.andThen htwo)
  | block span body hBody =>
    intro depth locals other h
    simp only [Cleanup.braced, content]
    refine (stmts_alike_of_forall hBody (depth + 1) _ _ (h.push .block .block)).bind ?_
    exact fun inner inner' hinner => .ok (hinner.braced h cx.layout depth)
  | staged span before body hBefore hBody =>
    intro depth locals other h
    simp only [Cleanup.braced, content]
    refine (stmts_alike_of_forall hBefore 0 locals other h).bind fun first first' hfirst => ?_
    refine (hBody depth _ _ hfirst.locals).bind fun second second' hsecond => ?_
    exact .ok (hfirst.asPrelude.andThen hsecond)

end Bracing

/-- **Braces around single branches are written anyway.** Whichever passes are selected, the body with
a block in place of every single branch is written like the body, or fails with the same error. -/
theorem stmts_braced (cx : Context) [cx.model.Typed] (passes : PassSet) (depth : Nat)
    {locals : Locals} (hopen : locals.Open) (body : List Stmt) :
    InStep Reframed (stmts cx (exprText cx) depth locals body)
      (stmts (cx.withPasses passes) (exprText (cx.withPasses passes)) depth locals
        (Cleanup.bracedAll body)) := by
  have hspell {locals other : Locals} (h : locals.Reframed other) :
      exprText (cx.withPasses passes) other = exprText cx locals :=
    funext fun value => exprText_reframed h passes value
  exact stmts_alike_of_forall (fun stmt _ => content_alike hspell stmt) depth locals locals
    (.refl hopen)

end Draft

end NativeLowering
