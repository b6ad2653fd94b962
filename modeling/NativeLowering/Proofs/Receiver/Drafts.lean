import NativeLowering.Proofs.Receiver.Text

/-!
# Drafts of a method's body and of its receiver function's

The comparison of expressions carries over to statements (`stmts_bound`). A draft has text in two
places, after the open statement's beginning and before it, and both are weighed together, since a
statement is put together from both.
-/

set_option autoImplicit false

namespace NativeLowering

/-- The text of a draft, and what it puts before the open statement. -/
def Draft.parts (draft : Draft) : String × String := (draft.text, draft.before)

namespace Receiver

open Stmt (AllList AllOption mapList mapOption)

/-- A statement whose expressions are all carried. -/
abbrev CarriedStmt (whole : Prop) (model : Model) (owner : String) (stmt : Stmt) : Prop :=
  stmt.All (Carried whole model owner) fun _ _ => True

/-- A body whose expressions are all carried. -/
abbrev CarriedBody (whole : Prop) (model : Model) (owner : String) (body : List Stmt) : Prop :=
  AllList (Carried whole model owner) (fun _ _ => True) body

def weightParts (parts : String × String) : Nat := weight parts.1 + weight parts.2

/-- What the drafts of the three bodies have in common. -/
structure SameDraft (owner : String) (good fine : Prop) (first second third : Draft) : Prop where
  kept : second.locals = first.locals
  hoisted : third.hoisted = second.hoisted
  locals : Rebinding owner first.locals third.locals
  parts : Outweighs weightParts good fine second.parts third.parts

section Drafts

variable {cx : Context} {owner word : String} {locals locals' : Locals} {whole : Prop}
  {good fine good' fine' : Prop} {first second third : Draft}

/-- A statement weighs what its parts weigh: blanks do not count. -/
theorem weight_statement (layout : Layout) (depth : Nat) (draft : Draft) :
    weight (draft.statement layout depth).text = weight draft.text + weight draft.before := by
  have hjoined := Emit.count_joinParts telling_solid layout [draft.before, draft.text, ""]
  have hsum : ([draft.before, draft.text, ""].map (Text.count telling)).sum
      = weight draft.text + weight draft.before := by
    simp only [List.map_cons, List.map_nil, List.sum_cons, List.sum_nil, Text.count_empty, weight]
    omega
  rw [hsum] at hjoined
  rw [← hjoined, Draft.statement]
  cases Emit.joinParts layout [draft.before, draft.text, ""] with
  | none => rfl
  | some text => exact weight_format layout depth .line text

namespace SameDraft

theorem mono (h : SameDraft owner good fine first second third) (hgood : good' → good)
    (hfine : fine → fine') : SameDraft owner good' fine' first second third :=
  ⟨h.kept, h.hoisted, h.locals, h.parts.mono hgood hfine⟩

theorem ofText (h : Rebinding owner locals locals') {text text' text'' : String}
    (htext : Outweighs weight good fine text' text'') :
    SameDraft owner good fine (.ofText text locals) (.ofText text' locals)
      (.ofText text'' locals') where
  kept := rfl
  hoisted := rfl
  locals := h
  parts := htext.map (fun text => (text, "")) 0 fun _ => rfl

/-- What does not depend on the body. -/
theorem fixed (h : Rebinding owner locals locals') (text text' : String) (hfine : fine) :
    SameDraft owner good fine (.ofText text locals) (.ofText text' locals)
      (.ofText text' locals') := .ofText h (.refl _ hfine)

theorem andThen {more more' more'' : Draft} (h : SameDraft owner good fine first second third)
    (h' : SameDraft owner good' fine' more more' more'') :
    SameDraft owner (good ∧ good') (fine ∧ fine') (first.andThen more) (second.andThen more')
      (third.andThen more'') where
  kept := h'.kept
  hoisted := by simp only [Draft.andThen, h.hoisted, h'.hoisted]
  locals := h'.locals
  parts := by
    refine h.parts.both h'.parts (fun one two => (one.1 ++ two.1, one.2 ++ two.2))
      fun one two => ?_
    simp only [weightParts, weight_append]
    omega

theorem asPrelude (h : SameDraft owner good fine first second third) (hsecond : second.before = "")
    (hthird : third.before = "") :
    SameDraft owner good fine first.asPrelude second.asPrelude third.asPrelude where
  kept := h.kept
  hoisted := h.hoisted
  locals := h.locals
  parts := by
    have hparts := h.parts.map (v := weightParts) Prod.swap 0 fun parts => by
      simp only [weightParts, Prod.fst_swap, Prod.snd_swap]
      omega
    simp only [Draft.parts, hsecond, hthird] at hparts
    exact hparts

theorem statement (h : SameDraft owner good fine first second third) (layout : Layout)
    (depth : Nat) :
    SameDraft owner good fine (first.statement layout depth) (second.statement layout depth)
      (third.statement layout depth) where
  kept := by rw [Draft.statement_locals, h.kept, Draft.statement_locals]
  hoisted := by rw [Draft.statement_hoisted, h.hoisted, Draft.statement_hoisted]
  locals := by
    rw [Draft.statement_locals, Draft.statement_locals]
    exact h.locals
  parts := by
    have hempty : weight "" = 0 := by decide
    have hweight (draft : Draft) :
        weightParts (draft.statement layout depth).parts = weightParts draft.parts := by
      rw [weightParts, Draft.parts, weight_statement, Draft.statement_before, hempty]
      rfl
    refine ⟨fun hgood => ?_, ?_, fun hle => ?_⟩
    · have hsame := h.parts.same hgood
      simp only [Draft.parts, Prod.mk.injEq] at hsame
      simp only [Draft.parts, Draft.statement, hsame.1, hsame.2]
    · rw [hweight, hweight]
      exact h.parts.le
    · rw [hweight, hweight] at hle
      exact h.parts.fine hle

theorem braced (h : SameDraft owner good fine first second third)
    (hlocals : Rebinding owner locals locals') (layout : Layout) (depth : Nat) :
    SameDraft owner good fine (first.braced layout depth locals) (second.braced layout depth locals)
      (third.braced layout depth locals') where
  kept := rfl
  hoisted := h.hoisted
  locals := hlocals
  parts := by
    refine h.parts.map (fun parts => (layout.format depth .line "\x7b" ++ parts.1 ++
      layout.format depth .line "\x7d", parts.2)) (weight "\x7b" + weight "\x7d") fun parts => ?_
    simp only [weightParts, weight_append, weight_format]
    omega

end SameDraft

/-! ## Variables -/

theorem initialized_bound {text text' : String} (h : Outweighs weight good fine text text')
    (layout : Layout) (depth : Nat) (introduction : String) :
    Outweighs weight good fine (Draft.initialized layout depth introduction text)
      (Draft.initialized layout depth introduction text') := h.within _ _

theorem variableDecl_bound [cx.model.Typed] (h : Rebinding owner locals locals') (depth : Nat)
    (kind : VariableKind) {decl : VariableDecl}
    (hdecl : decl.All (Fits whole cx.model owner (NotOwn cx.model owner)) Declarable) :
    Agree (SameDraft owner (decl.All (Carried True cx.model owner) fun _ _ => True)
        (decl.All (Carried False cx.model owner) fun _ _ => True))
      (Draft.variableDecl cx (exprTextAs cx word) depth kind locals decl)
      (Draft.variableDecl cx (exprTextAs cx Spelling.receiver) depth kind locals decl)
      (Draft.variableDecl cx (exprText cx) depth kind locals' (decl.mapExprs bound)) := by
  obtain ⟨span, binding, type, init⟩ := decl
  obtain ⟨⟨hbinding, -⟩, hinit⟩ := hdecl
  unfold Draft.variableDecl
  cases binding with
  | objectPattern => exact .fail _ _
  | arrayPattern => exact .fail _ _
  | ident name =>
    have hname : name ≠ Spelling.receiver := fun heq => hbinding (congrArg some heq)
    cases type with
    | none => exact .fail _ _
    | some node =>
      have hlocals := h.declare hname (cx.model.typeFromNode_ne_module node)
      refine Agree.bindSelf fun _ hdeclared => ?_
      refine Agree.bindSelf fun _ hnode => ?_
      refine Agree.bindSelf fun written _ => ?_
      cases hdeclared
      cases hnode
      cases init with
      | none =>
        cases kind <;> exact .ok ⟨rfl, rfl, hlocals, .refl _ ⟨trivial, nofun⟩⟩
      | some value =>
        have hvalue : Agree (fun init init' init'' => ∃ text text' text'', init = some text ∧
            init' = some text' ∧ init'' = some text'' ∧
            Outweighs weight (Carried True cx.model owner value)
              (Carried False cx.model owner value) text' text'')
            (Draft.initial (exprTextAs cx word) locals (some value))
            (Draft.initial (exprTextAs cx Spelling.receiver) locals (some value))
            (Draft.initial (exprText cx) locals' (some (bound value))) :=
          (fits_bound h (hinit value rfl)).map fun text text' text'' hw =>
            ⟨text, text', text'', rfl, rfl, rfl, hw⟩
        refine hvalue.bind fun _ _ _ htexts => ?_
        obtain ⟨text, text', text'', rfl, rfl, rfl, hw⟩ := htexts
        have hparts (introduction : String) := (initialized_bound hw cx.layout depth introduction).map
          (v := weightParts) (fun text => (text, "")) 0 fun _ => rfl
        refine Agree.imp (R := SameDraft owner (Carried True cx.model owner value)
          (Carried False cx.model owner value)) ?_ fun _ _ _ hd => hd.mono ?_ ?_
        · cases kind <;> exact .ok ⟨rfl, rfl, hlocals, hparts _⟩
        · intro hdecl
          exact hdecl.2 value rfl
        · intro hc
          refine ⟨trivial, fun other hother => ?_⟩
          cases hother
          exact hc

theorem variableDecls_bound [cx.model.Typed] (depth : Nat) (kind : VariableKind) :
    ∀ {decls : List VariableDecl} {locals locals' : Locals}, Rebinding owner locals locals' →
    (∀ decl ∈ decls, decl.All (Fits whole cx.model owner (NotOwn cx.model owner)) Declarable) →
    Agree (SameDraft owner (∀ decl ∈ decls, decl.All (Carried True cx.model owner) fun _ _ => True)
        (∀ decl ∈ decls, decl.All (Carried False cx.model owner) fun _ _ => True))
      (Draft.variableDecls cx (exprTextAs cx word) depth kind locals decls)
      (Draft.variableDecls cx (exprTextAs cx Spelling.receiver) depth kind locals decls)
      (Draft.variableDecls cx (exprText cx) depth kind locals'
        (decls.map (VariableDecl.mapExprs bound)))
  | [], _, _, h, _ => .ok (.fixed h "" "" nofun)
  | decl :: rest, locals, locals', h, hdecls => by
    rw [List.forall_mem_cons] at hdecls
    refine (variableDecl_bound h depth kind hdecls.1).bind fun first second third hfirst => ?_
    rw [hfirst.kept]
    refine (variableDecls_bound depth kind hfirst.locals hdecls.2).bind fun _ _ _ hmore => .ok ?_
    exact (hfirst.andThen hmore).mono List.forall_mem_cons.mp List.forall_mem_cons.mpr

/-! ## Statements -/

theorem head_bound [cx.model.Typed] (h : Rebinding owner locals locals') (depth : Nat)
    (keyword : String) {condition : Expr}
    (hcondition : Fits whole cx.model owner (NotOwn cx.model owner) condition) :
    Agree (SameDraft owner (Carried True cx.model owner condition)
        (Carried False cx.model owner condition))
      (Draft.head cx (exprTextAs cx word) depth locals keyword condition)
      (Draft.head cx (exprTextAs cx Spelling.receiver) depth locals keyword condition)
      (Draft.head cx (exprText cx) depth locals' keyword (bound condition)) :=
  (fits_bound h hcondition).bind fun _ _ _ hw => .ok (.ofText h (hw.within _ _))

/-- What is said of a statement: its drafts in the three bodies agree, wherever it stands. -/
def ContentBound (cx : Context) (owner word : String) (stmt : Stmt) : Prop :=
  ∀ (depth : Nat) (locals locals' : Locals), Rebinding owner locals locals' →
    Agree (SameDraft owner (CarriedStmt True cx.model owner stmt)
        (CarriedStmt False cx.model owner stmt))
      (Draft.content cx (exprTextAs cx word) depth locals stmt)
      (Draft.content cx (exprTextAs cx Spelling.receiver) depth locals stmt)
      (Draft.content cx (exprText cx) depth locals' (stmt.mapExprs bound))

theorem branch_bound (h : Rebinding owner locals locals') (depth : Nat) (kind : FrameKind)
    {stmt : Stmt} (hstmt : ContentBound cx owner word stmt) :
    Agree (SameDraft owner (CarriedStmt True cx.model owner stmt)
        (CarriedStmt False cx.model owner stmt))
      (Draft.branch cx depth locals stmt (Draft.content cx (exprTextAs cx word) depth locals stmt)
        (Draft.content cx (exprTextAs cx word) 0 (locals.push kind) stmt))
      (Draft.branch cx depth locals stmt
        (Draft.content cx (exprTextAs cx Spelling.receiver) depth locals stmt)
        (Draft.content cx (exprTextAs cx Spelling.receiver) 0 (locals.push kind) stmt))
      (Draft.branch cx depth locals' (stmt.mapExprs bound)
        (Draft.content cx (exprText cx) depth locals' (stmt.mapExprs bound))
        (Draft.content cx (exprText cx) 0 (locals'.push kind) (stmt.mapExprs bound))) := by
  simp only [Draft.branch, Stmt.isBlock_mapExprs]
  split
  · exact hstmt depth locals locals' h
  · exact (hstmt 0 _ _ (h.push kind)).map fun _ _ _ hd =>
      (hd.statement cx.layout (depth + 1)).braced h cx.layout depth

theorem else_bound (h : Rebinding owner locals locals') (depth : Nat) {elseBranch : Option Stmt}
    (helse : ∀ stmt, elseBranch = some stmt → ContentBound cx owner word stmt) :
    Agree (SameDraft owner (AllOption (Carried True cx.model owner) (fun _ _ => True) elseBranch)
        (AllOption (Carried False cx.model owner) (fun _ _ => True) elseBranch))
      (Draft.elseContent cx (exprTextAs cx word) depth locals elseBranch)
      (Draft.elseContent cx (exprTextAs cx Spelling.receiver) depth locals elseBranch)
      (Draft.elseContent cx (exprText cx) depth locals' (mapOption bound elseBranch)) := by
  cases elseBranch with
  | none => exact .ok (.fixed h "" "" trivial)
  | some stmt =>
    refine (branch_bound h depth .block (helse stmt rfl)).bind fun _ _ _ hbranch => .ok ?_
    have hword : SameDraft owner True True
        (.ofText (cx.layout.format depth .line "else") locals)
        (.ofText (cx.layout.format depth .line "else") locals)
        (.ofText (cx.layout.format depth .line "else") locals') := .fixed h _ _ trivial
    exact (hword.andThen hbranch).mono (fun hc => ⟨trivial, hc⟩) And.right

theorem stmts_bound_of_forall (depth : Nat) : ∀ {body : List Stmt} {locals locals' : Locals},
    Rebinding owner locals locals' → (∀ stmt ∈ body, ContentBound cx owner word stmt) →
    Agree (SameDraft owner (CarriedBody True cx.model owner body)
        (CarriedBody False cx.model owner body))
      (Draft.stmts cx (exprTextAs cx word) depth locals body)
      (Draft.stmts cx (exprTextAs cx Spelling.receiver) depth locals body)
      (Draft.stmts cx (exprText cx) depth locals' (mapList bound body))
  | [], _, _, h, _ => by
    simp only [Draft.stmts, mapList]
    exact .ok (.fixed h "" "" trivial)
  | stmt :: rest, locals, locals', h, hbody => by
    rw [List.forall_mem_cons] at hbody
    simp only [Draft.stmts, mapList]
    refine (hbody.1 0 locals locals' h).bind fun first second third hfirst => ?_
    rw [hfirst.kept]
    refine (stmts_bound_of_forall depth hfirst.locals hbody.2).bind fun _ _ _ hmore => .ok ?_
    exact (hfirst.statement cx.layout depth).andThen hmore

theorem content_bound [cx.model.Typed] (stmt : Stmt)
    (hall : stmt.All (Fits whole cx.model owner (NotOwn cx.model owner)) Declarable) :
    ContentBound cx owner word stmt := by
  induction stmt using Stmt.ind with
  | vars span kind decls =>
    intro depth locals locals' h
    simp only [Draft.content, Stmt.mapExprs]
    exact variableDecls_bound depth kind h hall
  | expr span value =>
    intro depth locals locals' h
    simp only [Draft.content, Stmt.mapExprs]
    refine (fits_bound h hall).bind fun _ _ _ hw => .ok (.ofText h ?_)
    have hline := hw.within "" (cx.layout.format depth .inline ";")
    simp only [String.empty_append] at hline
    exact hline
  | ret span value =>
    intro depth locals locals' h
    cases value with
    | none =>
      simp only [Draft.content, Stmt.mapExprs, Option.map_none]
      refine .ok (.fixed h _ _ fun other hother => ?_)
      cases hother
    | some value =>
      simp only [Draft.content, Stmt.mapExprs, Option.map_some]
      refine (fits_bound h (hall value rfl)).bind fun _ _ _ hw => .ok (.ofText h ?_)
      refine (hw.within _ _).mono (fun hc => hc value rfl) fun hc other hother => ?_
      cases hother
      exact hc
  | ifElse span condition thenBranch elseBranch hThen hElse =>
    intro depth locals locals' h
    obtain ⟨hcondition, hthen, helse⟩ := hall
    simp only [Draft.content, Stmt.mapExprs]
    refine (head_bound h depth "if" hcondition).bind fun _ _ _ hfirst => ?_
    refine (branch_bound h depth .block (hThen hthen)).bind fun _ _ _ hsecond => ?_
    refine (else_bound h depth fun stmt hstmt => ?_).bind fun _ _ _ hthird => .ok ?_
    · subst hstmt
      exact hElse stmt rfl helse
    · exact ((hfirst.andThen hsecond).andThen hthird).mono and_assoc.mpr and_assoc.mp
  | loop span condition body hBody =>
    intro depth locals locals' h
    obtain ⟨hcondition, hbody⟩ := hall
    simp only [Draft.content, Stmt.mapExprs]
    refine (head_bound h depth "while" hcondition).bind fun _ _ _ hfirst => ?_
    exact (branch_bound h depth .loop (hBody hbody)).bind fun _ _ _ hsecond =>
      .ok (hfirst.andThen hsecond)
  | brk span | cont span =>
    intro depth locals locals' h
    simp only [Draft.content, Stmt.mapExprs]
    exact .ok (.fixed h _ _ trivial)
  | block span body hBody =>
    intro depth locals locals' h
    simp only [Draft.content, Stmt.mapExprs]
    refine (stmts_bound_of_forall (depth + 1) (h.push .block) fun stmt hm =>
      hBody stmt hm (Stmt.allList_iff.mp hall stmt hm)).bind fun _ _ _ hinner => ?_
    exact .ok (hinner.braced h cx.layout depth)
  | staged span before body hBefore hBody =>
    intro depth locals locals' h
    obtain ⟨hbefore, hbody⟩ := hall
    simp only [Draft.content, Stmt.mapExprs]
    refine (stmts_bound_of_forall 0 h fun stmt hm =>
      hBefore stmt hm (Stmt.allList_iff.mp hbefore stmt hm)).results.bind
        fun _ _ _ hdrafts => ?_
    obtain ⟨hfirst, hsecond, hthird⟩ := hdrafts
    -- Nothing goes before the statements that themselves go before the open one.
    have hprelude := hfirst.asPrelude (Emit.stmts_before hsecond) (Emit.stmts_before hthird)
    rw [hfirst.kept]
    exact (hBody hbody depth _ _ hfirst.locals).bind fun _ _ _ hrest => .ok (hprelude.andThen hrest)

/-- **The two bodies are written alike**, up to the word for the current instance, where they are
carried over, and only there. -/
theorem stmts_bound [cx.model.Typed] {body : List Stmt}
    (hbody : AllList (Fits whole cx.model owner (NotOwn cx.model owner)) Declarable body)
    (depth : Nat) (h : Rebinding owner locals locals') :
    Agree (SameDraft owner (CarriedBody True cx.model owner body)
        (CarriedBody False cx.model owner body))
      (Draft.stmts cx (exprTextAs cx word) depth locals body)
      (Draft.stmts cx (exprTextAs cx Spelling.receiver) depth locals body)
      (Draft.stmts cx (exprText cx) depth locals' (mapList bound body)) :=
  stmts_bound_of_forall depth h fun stmt hm => content_bound stmt (Stmt.allList_iff.mp hbody stmt hm)

end Drafts

end Receiver

end NativeLowering
