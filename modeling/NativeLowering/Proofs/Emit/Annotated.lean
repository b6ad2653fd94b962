import NativeLowering.Proofs.Emit.Draft
import NativeLowering.Proofs.Syntax.Bodies

/-!
# What is written is annotated

A statement is written only if every variable in it has an annotation (`Draft.content_annotated`).
-/

set_option autoImplicit false

namespace NativeLowering

open Stmt (AllList)

namespace Draft

variable {cx : Context} {spell : Spell}

theorem variableDecls_annotated {depth : Nat} {kind : VariableKind} :
    ∀ {decls : List VariableDecl} {locals : Locals} {draft : Draft},
    variableDecls cx spell depth kind locals decls = .ok draft → ∀ decl ∈ decls, decl.type.isSome
  | [], _, _, _, _, hm => nomatch hm
  | first :: rest, locals, draft, h, decl, hm => by
    obtain ⟨one, two, hone, htwo, -⟩ := variableDecls_cons_eq_ok.mp h
    rcases List.mem_cons.mp hm with rfl | hm
    · rw [variableDecl, Lowered.bind_eq_ok] at hone
      obtain ⟨name, -, hone⟩ := hone
      obtain ⟨node, hnode, -⟩ := Lowered.bind_eq_ok.mp hone
      cases htype : decl.type with
      | none =>
        simp only [Emit.variableType, htype] at hnode
        cases hnode
      | some node => rfl
    · exact variableDecls_annotated htwo decl hm

theorem branch_annotated {depth : Nat} {locals : Locals} {stmt : Stmt} {kind : FrameKind}
    {draft : Draft}
    (hstmt : ∀ depth locals draft, content cx spell depth locals stmt = .ok draft → stmt.Annotated)
    (h : branch cx depth locals stmt (content cx spell depth locals stmt)
      (content cx spell 0 (locals.push kind) stmt) = .ok draft) : stmt.Annotated := by
  rcases branch_cases h with ⟨_, _, _, rfl, hblock, -⟩ | ⟨single, -, hsingle, -⟩
  · exact hstmt _ _ _ hblock
  · exact hstmt _ _ _ hsingle

theorem stmts_annotated_of_forall {depth : Nat} : ∀ {body : List Stmt} {locals : Locals}
    {draft : Draft}, (∀ stmt ∈ body, ∀ depth locals draft,
      content cx spell depth locals stmt = .ok draft → stmt.Annotated) →
    stmts cx spell depth locals body = .ok draft →
      AllList (fun _ => True) (fun _ type => type.isSome) body
  | [], _, _, _, _ => trivial
  | stmt :: rest, locals, draft, hall, h => by
    obtain ⟨one, two, hone, htwo, -⟩ := stmts_cons_eq_ok.mp h
    exact ⟨hall stmt (by simp) _ _ _ hone,
      stmts_annotated_of_forall (fun other hm => hall other (by simp [hm])) htwo⟩

theorem content_annotated (stmt : Stmt) : ∀ (depth : Nat) (locals : Locals) (draft : Draft),
    content cx spell depth locals stmt = .ok draft → stmt.Annotated := by
  induction stmt using Stmt.ind with
  | vars span kind decls =>
    intro depth locals draft h decl hm
    rw [content] at h
    exact ⟨variableDecls_annotated h decl hm, fun _ _ => trivial⟩
  | expr | brk | cont => exact fun _ _ _ _ => trivial
  | ret => exact fun _ _ _ _ _ _ => trivial
  | ifElse span condition thenBranch elseBranch hThen hElse =>
    intro depth locals draft h
    obtain ⟨first, second, third, -, hsecond, hthird, -⟩ := content_ifElse_eq_ok.mp h
    refine ⟨trivial, branch_annotated hThen hsecond, ?_⟩
    cases elseBranch with
    | none => trivial
    | some branch =>
      obtain ⟨other, hother, -⟩ := elseContent_some_eq_ok.mp hthird
      exact branch_annotated (hElse branch rfl) hother
  | loop span condition body hBody =>
    intro depth locals draft h
    obtain ⟨first, second, -, hsecond, -⟩ := content_loop_eq_ok.mp h
    exact ⟨trivial, branch_annotated hBody hsecond⟩
  | block span body hBody =>
    intro depth locals draft h
    obtain ⟨inner, hinner, -⟩ := content_block_eq_ok.mp h
    exact stmts_annotated_of_forall hBody hinner
  | staged span before body hBefore hBody =>
    intro depth locals draft h
    obtain ⟨first, second, hfirst, hsecond, -⟩ := content_staged_eq_ok.mp h
    exact ⟨stmts_annotated_of_forall hBefore hfirst, hBody _ _ _ hsecond⟩

theorem stmts_annotated {depth : Nat} {body : List Stmt} {locals : Locals} {draft : Draft}
    (h : stmts cx spell depth locals body = .ok draft) :
    AllList (fun _ => True) (fun _ type => type.isSome) body :=
  stmts_annotated_of_forall (fun stmt _ => content_annotated stmt) h

end Draft

end NativeLowering
