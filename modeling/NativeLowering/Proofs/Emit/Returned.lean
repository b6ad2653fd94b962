import NativeLowering.Proofs.Emit.Draft
import NativeLowering.Proofs.Emit.FlatText

/-!
# Statements with either line ending

A flat body is written once with line feeds and once with carriage returns before them. A statement
is trimmed, joined with what goes before it and laid out again inside every block around it, and
each time the carriage returns of the one run are taken off and put back. So the drafts of the two
runs differ in the carriage returns only, and where one run fails the other fails alike
(`content_returns`).
-/

set_option autoImplicit false

namespace NativeLowering

open Lowered (InStep Same Ensures ensures_fail ensures_ok)
open NativeLowering.Expr (Meets)

/-! ## Drafts -/

/-- The second draft is the first with a carriage return in each line ending. -/
structure Draft.Returns (draft draft' : Draft) : Prop where
  text : Text.Returns draft.text draft'.text
  before : Text.Returns draft.before draft'.before
  hoisted : Same AllFlat draft.hoisted draft'.hoisted
  locals : draft'.locals = draft.locals

namespace Draft

theorem returns_ofText {text text' : String} (h : Text.Returns text text') (locals : Locals) :
    Returns (ofText text locals) (ofText text' locals) :=
  ⟨h, Text.returns_empty, ⟨rfl, List.forall_mem_nil _⟩, rfl⟩

namespace Returns

variable {draft draft' : Draft} (h : Returns draft draft')
include h

theorem andThen {second second' : Draft} (hsecond : Returns second second') :
    Returns (draft.andThen second) (draft'.andThen second') where
  text := h.text.append hsecond.text
  before := h.before.append hsecond.before
  hoisted := by
    refine ⟨?_, ?_⟩
    · simp only [Draft.andThen, h.hoisted.1, hsecond.hoisted.1]
    · exact List.forall_mem_append.mpr ⟨h.hoisted.2, hsecond.hoisted.2⟩
  locals := hsecond.locals

theorem asPrelude : Returns draft.asPrelude draft'.asPrelude where
  text := Text.returns_empty
  before := h.text
  hoisted := h.hoisted
  locals := h.locals

variable {layout : Layout} (hnewline : layout.newline = "\n")
include hnewline

/-- A statement is laid out again, with the same carriage returns. -/
theorem statement (depth : Nat) :
    Returns (draft.statement layout depth) (draft'.statement layout.returned depth) where
  text := by
    have hjoined : Emit.joinParts layout.returned [draft'.before, draft'.text, ""]
        = (Emit.joinParts layout [draft.before, draft.text, ""]).map Text.returned := by
      rw [h.before.returned, h.text.returned]
      exact Layout.joinParts_returned hnewline [draft.before, draft.text, ""]
    have hparts : ∀ part ∈ [draft.before, draft.text, ""], Text.Returnless part := by
      simp [h.before.returnless, h.text.returnless, Text.returnless_empty]
    unfold Draft.statement
    dsimp only
    rw [hjoined]
    cases htext : Emit.joinParts layout [draft.before, draft.text, ""] with
    | none => exact Text.returns_empty
    | some text =>
      have hreturnless := Layout.returnless_joinParts hnewline hparts htext
      exact Text.Returns.format ⟨hreturnless, rfl⟩ hnewline depth .line
  before := by
    rw [statement_before, statement_before]
    exact Text.returns_empty
  hoisted := by
    rw [statement_hoisted, statement_hoisted]
    exact h.hoisted
  locals := by
    rw [statement_locals, statement_locals]
    exact h.locals

theorem braced (depth : Nat) (locals : Locals) :
    Returns (draft.braced layout depth locals) (draft'.braced layout.returned depth locals) where
  text := by
    have hopen : Text.Flat "\x7b" := by decide
    have hclose : Text.Flat "\x7d" := by decide
    exact ((hopen.returns.format hnewline depth .line).append h.text).append
      (hclose.returns.format hnewline depth .line)
  before := h.before
  hoisted := h.hoisted
  locals := rfl

end Returns

theorem initialized_returns {layout : Layout} (hnewline : layout.newline = "\n") (depth : Nat)
    {introduction value : String} (hintroduction : Text.Flat introduction)
    (hvalue : Text.Flat value) :
    Text.Returns (initialized layout depth introduction value)
      (initialized layout.returned depth introduction value) := by
  have hstart : Text.Flat (introduction ++ " = ") := hintroduction.append (by decide)
  have hend : Text.Flat ";" := by decide
  exact ((hstart.returns.format hnewline depth .start).append hvalue.returns).append
    (hend.returns.format hnewline depth .finish)

end Draft

/-! ## Statements -/

namespace Emit

section Statements

variable {cx : Context} (hcx : cx.Flat) (hnewline : cx.layout.newline = "\n")
include hcx

/-- What may be absent is the same in both runs, and flat. -/
theorem optionText_same {locals : Locals} {value : Option Expr}
    (hvalue : ∀ own, value = some own → own.Meets flatNodes) :
    InStep (Same fun text => ∀ own, text = some own → Text.Flat own)
      (Draft.initial (exprText cx) locals value)
      (Draft.initial (exprText cx.returned) locals value) := by
  cases value with
  | none => exact .ok ⟨rfl, fun own hown => by cases hown⟩
  | some value =>
    refine (exprText_same hcx value (hvalue value rfl)).map fun _ text htext => ?_
    obtain ⟨rfl, htext⟩ := htext
    refine ⟨rfl, fun own hown => ?_⟩
    cases hown
    exact htext

include hnewline

theorem variableDecl_returns (depth : Nat) (kind : VariableKind) (locals : Locals)
    {decl : VariableDecl} (hdecl : decl.All (Meets flatNodes) FlatBinding) :
    InStep Draft.Returns (Draft.variableDecl cx (exprText cx) depth kind locals decl)
      (Draft.variableDecl cx.returned (exprText cx.returned) depth kind locals decl) := by
  obtain ⟨⟨hflat, htypes⟩, hinit⟩ := hdecl
  have hnames : (variableName decl).Ensures Text.Flat := by
    unfold variableName
    split
    · rename_i found hfound
      exact ensures_ok (hflat found (BindingName.eq_ident hfound))
    · exact ensures_fail _ _
  have hnodes (name : String) : (variableType decl name).Ensures TypeNode.Flat := by
    unfold variableType
    split
    · rename_i found hfound
      exact ensures_ok (htypes found hfound)
    · exact ensures_fail _ _
  refine hnames.inStep.bind fun _ name hname => ?_
  obtain ⟨rfl, hname⟩ := hname
  refine (hnodes name).inStep.bind fun _ node hnode => ?_
  obtain ⟨rfl, hnode⟩ := hnode
  refine (typePiece_same hcx hnode).bind fun _ type htype => ?_
  obtain ⟨rfl, htype⟩ := htype
  refine (optionText_same hcx hinit).bind fun _ value hvalue => .ok ?_
  obtain ⟨rfl, hvalue⟩ := hvalue
  have hdeclared : Text.Flat (type ++ " " ++ name) := (htype.append (by decide)).append hname
  have hline : Text.Flat (type ++ " " ++ name ++ ";") := hdeclared.append (by decide)
  have hhoisted : Same AllFlat [type ++ " " ++ name ++ ";"] [type ++ " " ++ name ++ ";"] :=
    ⟨rfl, List.forall_mem_singleton.mpr hline⟩
  have hplain := Draft.returns_ofText Text.returns_empty
    (locals.declare name (cx.model.typeFromNode node))
  cases value with
  | none =>
    cases kind with
    | varKind => exact { hplain with hoisted := hhoisted }
    | letKind | constKind =>
      exact { hplain with text := hline.returns.format hnewline depth .line }
  | some value =>
    have hinitialized {introduction : String} (h : Text.Flat introduction) :=
      Draft.initialized_returns hnewline depth h (hvalue value rfl)
    cases kind with
    | varKind => exact { hplain with hoisted := hhoisted, text := hinitialized hname }
    | letKind | constKind => exact { hplain with text := hinitialized hdeclared }

theorem variableDecls_return (depth : Nat) (kind : VariableKind) {decls : List VariableDecl}
    (hdecls : ∀ decl ∈ decls, decl.All (Meets flatNodes) FlatBinding) : ∀ locals : Locals,
    InStep Draft.Returns (Draft.variableDecls cx (exprText cx) depth kind locals decls)
      (Draft.variableDecls cx.returned (exprText cx.returned) depth kind locals decls) := by
  induction decls with
  | nil =>
    intro locals
    exact .ok (Draft.returns_ofText Text.returns_empty locals)
  | cons decl rest ih =>
    intro locals
    obtain ⟨hdecl, hrest⟩ := List.forall_mem_cons.mp hdecls
    refine (variableDecl_returns hcx hnewline depth kind locals hdecl).bind
      fun first first' hfirst => ?_
    rw [hfirst.locals]
    exact (ih hrest first.locals).bind fun _ _ hlast => .ok (hfirst.andThen hlast)

theorem head_returns (depth : Nat) (locals : Locals) {word : String} (hword : Text.Flat word)
    {condition : Expr} (hcondition : condition.Meets flatNodes) :
    InStep Draft.Returns (Draft.head cx (exprText cx) depth locals word condition)
      (Draft.head cx.returned (exprText cx.returned) depth locals word condition) := by
  refine (exprText_same hcx condition hcondition).bind fun _ text htext => .ok ?_
  obtain ⟨rfl, htext⟩ := htext
  have hopen : Text.Flat (word ++ " (") := hword.append (by decide)
  have hclose : Text.Flat ")" := by decide
  exact Draft.returns_ofText (((hopen.returns.format hnewline depth .inline).append
    htext.returns).append (hclose.returns.format hnewline depth .finish)) locals

omit hcx in
theorem branch_returns (depth : Nat) (locals : Locals) (branch : Stmt)
    {asBlock asBlock' asSingle asSingle' : Lowered Draft}
    (hblock : InStep Draft.Returns asBlock asBlock')
    (hsingle : InStep Draft.Returns asSingle asSingle') :
    InStep Draft.Returns (Draft.branch cx depth locals branch asBlock asSingle)
      (Draft.branch cx.returned depth locals branch asBlock' asSingle') := by
  unfold Draft.branch
  split
  · exact hblock
  · exact hsingle.map fun _ _ h => (h.statement hnewline (depth + 1)).braced hnewline depth locals

omit hcx in
theorem stmts_return_of_forall {body : List Stmt}
    (h : ∀ stmt ∈ body, ∀ (depth : Nat) (locals : Locals),
      InStep Draft.Returns (Draft.content cx (exprText cx) depth locals stmt)
        (Draft.content cx.returned (exprText cx.returned) depth locals stmt)) :
    ∀ (depth : Nat) (locals : Locals),
      InStep Draft.Returns (Draft.stmts cx (exprText cx) depth locals body)
        (Draft.stmts cx.returned (exprText cx.returned) depth locals body) := by
  induction body with
  | nil =>
    intro depth locals
    rw [Draft.stmts, Draft.stmts]
    exact .ok (Draft.returns_ofText Text.returns_empty locals)
  | cons stmt rest ih =>
    intro depth locals
    obtain ⟨hstmt, hrest⟩ := List.forall_mem_cons.mp h
    rw [Draft.stmts, Draft.stmts]
    refine (hstmt 0 locals).bind fun first first' hfirst => ?_
    rw [hfirst.locals]
    exact (ih hrest depth first.locals).bind fun _ _ hlast =>
      .ok ((hfirst.statement hnewline depth).andThen hlast)

/-- **Writing a statement** adds the same with either line ending, up to the line endings. -/
theorem content_returns (stmt : Stmt) : stmt.All (Meets flatNodes) FlatBinding →
    ∀ (depth : Nat) (locals : Locals),
      InStep Draft.Returns (Draft.content cx (exprText cx) depth locals stmt)
        (Draft.content cx.returned (exprText cx.returned) depth locals stmt) := by
  have hword {word : String} (hword : Text.Flat word) (depth : Nat) (mode : AppendMode) :
      Text.Returns (cx.layout.format depth mode word) (cx.returned.layout.format depth mode word) :=
    hword.returns.format hnewline depth mode
  have hsemicolon (depth : Nat) := hword (by decide : Text.Flat ";") depth .inline
  induction stmt using Stmt.ind with
  | vars span kind decls =>
    intro hall depth locals
    rw [Draft.content, Draft.content]
    exact variableDecls_return hcx hnewline depth kind hall locals
  | expr span value =>
    intro hall depth locals
    rw [Draft.content, Draft.content]
    refine (exprText_same hcx value hall).bind fun _ text htext => .ok ?_
    obtain ⟨rfl, htext⟩ := htext
    exact Draft.returns_ofText (htext.returns.append (hsemicolon depth)) locals
  | ret span value =>
    intro hall depth locals
    cases value with
    | none =>
      rw [Draft.content, Draft.content]
      exact .ok (Draft.returns_ofText (hword (by decide) depth .inline) locals)
    | some value =>
      rw [Draft.content, Draft.content]
      refine (exprText_same hcx value (hall value rfl)).bind fun _ text htext => .ok ?_
      obtain ⟨rfl, htext⟩ := htext
      have hreturn := hword (by decide : Text.Flat "return ") depth .inline
      exact Draft.returns_ofText ((hreturn.append htext.returns).append (hsemicolon depth)) locals
  | brk span =>
    intro _ depth locals
    rw [Draft.content, Draft.content]
    exact .ok (Draft.returns_ofText (hword (by decide) depth .inline) locals)
  | cont span =>
    intro _ depth locals
    rw [Draft.content, Draft.content]
    exact .ok (Draft.returns_ofText (hword (by decide) depth .inline) locals)
  | ifElse span condition thenBranch elseBranch hThen hElse =>
    intro hall depth locals
    obtain ⟨hcondition, hthen, helse⟩ := hall
    rw [Draft.content, Draft.content]
    refine (head_returns hcx hnewline depth locals (by decide) hcondition).bind fun _ _ hhead => ?_
    refine (branch_returns hnewline depth locals thenBranch (hThen hthen depth locals)
      (hThen hthen 0 (locals.push .block))).bind fun _ _ hfirst => ?_
    have hsecond : InStep Draft.Returns
        (Draft.elseContent cx (exprText cx) depth locals elseBranch)
        (Draft.elseContent cx.returned (exprText cx.returned) depth locals elseBranch) := by
      cases elseBranch with
      | none =>
        rw [Draft.elseContent, Draft.elseContent]
        exact .ok (Draft.returns_ofText Text.returns_empty locals)
      | some branch =>
        have hbranch := hElse branch rfl helse
        rw [Draft.elseContent, Draft.elseContent]
        refine (branch_returns hnewline depth locals branch (hbranch depth locals)
          (hbranch 0 (locals.push .block))).bind fun _ _ hlast => .ok ?_
        exact (Draft.returns_ofText (hword (by decide) depth .line) locals).andThen hlast
    exact hsecond.bind fun _ _ hlast => .ok ((hhead.andThen hfirst).andThen hlast)
  | loop span condition body hBody =>
    intro hall depth locals
    rw [Draft.content, Draft.content]
    refine (head_returns hcx hnewline depth locals (by decide) hall.1).bind fun _ _ hhead => ?_
    exact (branch_returns hnewline depth locals body (hBody hall.2 depth locals)
      (hBody hall.2 0 (locals.push .loop))).bind fun _ _ hlast => .ok (hhead.andThen hlast)
  | block span body hBody =>
    intro hall depth locals
    have hstmts := Stmt.allList_iff.mp hall
    rw [Draft.content, Draft.content]
    exact (stmts_return_of_forall hnewline (fun stmt hm => hBody stmt hm (hstmts stmt hm))
      (depth + 1) (locals.push .block)).bind fun _ _ hinner =>
        .ok (hinner.braced hnewline depth locals)
  | staged span before body hBefore hBody =>
    intro hall depth locals
    have hstmts := Stmt.allList_iff.mp hall.1
    rw [Draft.content, Draft.content]
    refine (stmts_return_of_forall hnewline (fun stmt hm => hBefore stmt hm (hstmts stmt hm))
      0 locals).bind fun first first' hfirst => ?_
    rw [hfirst.locals]
    exact (hBody hall.2 depth first.locals).bind fun _ _ hlast =>
      .ok (hfirst.asPrelude.andThen hlast)

end Statements

end Emit

end NativeLowering
