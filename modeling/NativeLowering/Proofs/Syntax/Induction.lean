import Mathlib
import NativeLowering.Syntax.Stmt

/-!
# Induction over expressions and statements

Expressions hold lists of expressions, and statements hold lists of statements and branches that
may be absent. The principles here hand out one hypothesis for each part, wherever it stands, so
that a property of all statements is proved case by case without a second property for lists.
-/

set_option autoImplicit false

namespace NativeLowering

/-- Induction over expressions, with a hypothesis for every part that is evaluated. The class of
a construction is a name and no part in this sense. -/
@[elab_as_elim] theorem Expr.ind {motive : Expr → Prop}
    (ident : ∀ span name, motive (.ident span name))
    (thisRef : ∀ span, motive (.thisRef span))
    (literal : ∀ span value, motive (.literal span value))
    (property : ∀ span object name, motive object → motive (.property span object name))
    (call : ∀ span callee typeArgs args, motive callee → (∀ arg ∈ args, motive arg) →
      motive (.call span callee typeArgs args))
    (new : ∀ span target args, (∀ arg ∈ args, motive arg) → motive (.new span target args))
    (binary : ∀ span op left right, motive left → motive right →
      motive (.binary span op left right))
    (unary : ∀ span op operand, motive operand → motive (.unary span op operand))
    (paren : ∀ span inner, motive inner → motive (.paren span inner))
    (comma : ∀ span items, (∀ item ∈ items, motive item) → motive (.comma span items))
    (receiverCall : ∀ span owner method args, (∀ arg ∈ args, motive arg) →
      motive (.receiverCall span owner method args))
    (value : Expr) : motive value :=
  @Expr.rec motive (fun items => ∀ item ∈ items, motive item) ident thisRef literal property call
    (fun span target args _ => new span target args) binary unary paren comma receiverCall
    (List.forall_mem_nil _) (fun _ _ hfirst hrest => List.forall_mem_cons.mpr ⟨hfirst, hrest⟩) value

/-- Induction over expressions where a call has a hypothesis for the object of a member that it calls,
besides the one for the member: calls of members look at the object themselves. -/
@[elab_as_elim] theorem Expr.indCallee {motive : Expr → Prop}
    (ident : ∀ span name, motive (.ident span name))
    (thisRef : ∀ span, motive (.thisRef span))
    (literal : ∀ span value, motive (.literal span value))
    (property : ∀ span object name, motive object → motive (.property span object name))
    (call : ∀ span callee typeArgs args, motive callee →
      (∀ place object name, callee = .property place object name → motive object) →
      (∀ arg ∈ args, motive arg) → motive (.call span callee typeArgs args))
    (new : ∀ span target args, (∀ arg ∈ args, motive arg) → motive (.new span target args))
    (binary : ∀ span op left right, motive left → motive right →
      motive (.binary span op left right))
    (unary : ∀ span op operand, motive operand → motive (.unary span op operand))
    (paren : ∀ span inner, motive inner → motive (.paren span inner))
    (comma : ∀ span items, (∀ item ∈ items, motive item) → motive (.comma span items))
    (receiverCall : ∀ span owner method args, (∀ arg ∈ args, motive arg) →
      motive (.receiverCall span owner method args))
    (value : Expr) : motive value := by
  suffices h : motive value ∧ ∀ place object name, value = .property place object name → motive object
    from h.1
  induction value using Expr.ind with
  | ident span name => exact ⟨ident span name, nofun⟩
  | thisRef span => exact ⟨thisRef span, nofun⟩
  | literal span value => exact ⟨literal span value, nofun⟩
  | property span object name ih =>
    refine ⟨property span object name ih.1, fun place other member heq => ?_⟩
    cases heq
    exact ih.1
  | call span callee typeArgs args ihcallee ihargs =>
    exact ⟨call span callee typeArgs args ihcallee.1 ihcallee.2 fun arg hm => (ihargs arg hm).1, nofun⟩
  | new span target args ih => exact ⟨new span target args fun arg hm => (ih arg hm).1, nofun⟩
  | binary span op left right ihleft ihright =>
    exact ⟨binary span op left right ihleft.1 ihright.1, nofun⟩
  | unary span op operand ih => exact ⟨unary span op operand ih.1, nofun⟩
  | paren span inner ih => exact ⟨paren span inner ih.1, nofun⟩
  | comma span items ih => exact ⟨comma span items fun item hm => (ih item hm).1, nofun⟩
  | receiverCall span owner method args ih =>
    exact ⟨receiverCall span owner method args fun arg hm => (ih arg hm).1, nofun⟩

/-- Induction over statements, with a hypothesis for every statement inside. -/
@[elab_as_elim] theorem Stmt.ind {motive : Stmt → Prop}
    (vars : ∀ span kind decls, motive (.vars span kind decls))
    (expr : ∀ span value, motive (.expr span value))
    (ret : ∀ span value, motive (.ret span value))
    (ifElse : ∀ span condition thenBranch elseBranch, motive thenBranch →
      (∀ branch, elseBranch = some branch → motive branch) →
      motive (.ifElse span condition thenBranch elseBranch))
    (loop : ∀ span condition body, motive body → motive (.loop span condition body))
    (brk : ∀ span, motive (.brk span))
    (cont : ∀ span, motive (.cont span))
    (block : ∀ span body, (∀ stmt ∈ body, motive stmt) → motive (.block span body))
    (staged : ∀ span before body, (∀ stmt ∈ before, motive stmt) → motive body →
      motive (.staged span before body))
    (stmt : Stmt) : motive stmt :=
  @Stmt.rec motive (fun other => ∀ branch, other = some branch → motive branch)
    (fun stmts => ∀ stmt ∈ stmts, motive stmt) vars expr ret ifElse loop brk cont block staged
    nofun (fun _ hbranch _ heq => Option.some.inj heq ▸ hbranch)
    (List.forall_mem_nil _) (fun _ _ hfirst hrest => List.forall_mem_cons.mpr ⟨hfirst, hrest⟩) stmt

end NativeLowering
