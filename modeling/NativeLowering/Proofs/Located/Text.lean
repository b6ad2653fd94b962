import NativeLowering.Proofs.Emit.Draft
import NativeLowering.Proofs.Located.Basic
import NativeLowering.Proofs.Receiver.Word

/-!
# Places of errors in texts

The texts of annotations, expressions and statements are located at the spans of their nodes.
-/

set_option autoImplicit false

namespace NativeLowering

open Lowered

variable {S : Span → Prop}

/-! ## Annotations -/

section Types

variable {model : Model} {mangling : String}

theorem itemTypeText_points (item : Item) (space : Option String) (args : List TypeNode)
    {argTexts : Lowered (List String)} (hargs : argTexts.Points S) (wrapping : Wrapping) {span : Span}
    (hspan : S span) : (itemTypeText mangling item space args argTexts wrapping span).Points S := by
  unfold itemTypeText
  split
  · split
    · exact located_failAt.mpr hspan
    · split <;> trivial
  · exact located_failAt.mpr hspan
  · exact hargs.map _
  · exact located_failAt.mpr hspan

theorem qualifiedItem_points (qualifier name : String) {span : Span} (hspan : S span) :
    (qualifiedItem model qualifier name span).Points S := by
  unfold qualifiedItem
  split
  · exact located_failAt.mpr hspan
  · split
    · exact located_failAt.mpr hspan
    · trivial

mutual

theorem typeTextWith_points : ∀ (wrapping : Wrapping) (node : TypeNode), Within S node.spans →
    (typeTextWith model mangling wrapping node).Points S
  | _, .keyword .., _ => trivial
  | wrapping, .reference span [name] args, h => by
    simp only [TypeNode.spans, within_cons] at h
    have htexts := typeTexts_points args h.2
    rw [typeTextWith.eq_def]
    dsimp only
    split
    · split
      · rename_i inner
        exact (typeTextWith_points .bare inner (within_typeSpans.mp h.2 inner (by simp))).map _
      · exact located_failAt.mpr h.1
    · split
      · exact itemTypeText_points _ _ _ htexts _ h.1
      · exact located_failAt.mpr h.1
      · exact htexts.map _
  | wrapping, .reference span [qualifier, name] args, h => by
    simp only [TypeNode.spans, within_cons] at h
    have htexts := typeTexts_points args h.2
    rw [typeTextWith]
    exact (qualifiedItem_points qualifier name h.1).bind fun _ =>
      itemTypeText_points _ _ _ htexts _ h.1
  | _, .reference _ [] _, h | _, .reference _ (_ :: _ :: _ :: _) _, h => located_failAt.mpr h.type

theorem typeTexts_points : ∀ nodes : List TypeNode, Within S (TypeNode.spansList nodes) →
    (typeTexts model mangling nodes).Points S
  | [], _ => trivial
  | node :: rest, h => by
    obtain ⟨hnode, hrest⟩ := within_append.mp h
    exact (typeTextWith_points .owned node hnode).bind fun _ =>
      (typeTexts_points rest hrest).bind fun _ => trivial

end

theorem typePiece_points {cx : Context} {node : TypeNode} (h : Within S node.spans) :
    (cx.typePiece node).Points S := Points.map (typeTextWith_points .owned node h) _

end Types

/-! ## Expressions -/

section Expressions

variable {cx : Context} {locals : Locals} {span : Span} (hspan : S span)
include hspan

theorem requireThis_points : (requireThis locals span).Points S := by
  unfold requireThis
  split
  · trivial
  · exact located_failAt.mpr hspan

theorem identText_points (name : String) : (identText cx locals name span).Points S := by
  rw [identText_eq]
  split
  · trivial
  · split
    · exact located_failAt.mpr hspan
    · split
      · trivial
      · trivial
      · exact located_failAt.mpr hspan

theorem separator_points (owner : Ty) (member : String) :
    (separator cx owner member span).Points S := by
  unfold separator
  split
  · split
    · exact located_failAt.mpr hspan
    · split <;> trivial
  · trivial
  · trivial
  · trivial
  · exact located_failAt.mpr hspan
  · exact located_failAt.mpr hspan
  · exact located_failAt.mpr hspan
  · exact located_failAt.mpr hspan

theorem instanceMemberText_points (member : String) :
    (instanceMemberText cx locals member span).Points S :=
  (requireThis_points hspan).bind fun _ => trivial

theorem memberText_points (object : Expr) (owner : Ty) (member : String) {text : Lowered String}
    (htext : text.Points S) : (memberText cx locals object owner member span text).Points S := by
  unfold memberText
  split
  · exact instanceMemberText_points hspan member
  · exact (separator_points hspan owner member).bind fun _ => htext.bind fun _ => trivial

theorem propertyText_points (object : Expr) (name : String) {text : Lowered String}
    (htext : text.Points S) : (propertyText cx locals object name span text).Points S := by
  unfold propertyText
  split
  · exact instanceMemberText_points hspan name
  · split
    · rw [moduleMemberText_eq]
      split
      · exact located_failAt.mpr hspan
      · split
        · exact located_failAt.mpr hspan
        · trivial
    · exact memberText_points hspan _ _ _ htext

theorem functionCallText_points (name : String) {typeArgs : Option (List TypeNode)}
    (htypes : ∀ nodes ∈ typeArgs, Within S (TypeNode.spansList nodes)) {args : List Expr}
    (hargs : ∀ arg ∈ args, Within S arg.spans) {texts : Lowered (List String)}
    (htexts : texts.Points S) :
    (functionCallText cx name span typeArgs args texts).Points S := by
  have haddress : (addressText span args texts).Points S := by
    unfold addressText
    split
    · rename_i operand
      split
      · exact htexts.map _
      · exact located_failAt.mpr (hargs operand (by simp)).expr
    · exact located_failAt.mpr hspan
  have hsize : (sizeText cx span (typeArgs.getD []) args texts).Points S := by
    unfold sizeText
    split
    · rename_i node hnode
      obtain ⟨nodes, rfl⟩ : ∃ nodes, typeArgs = some nodes := by
        cases typeArgs with
        | none => cases hnode
        | some nodes => exact ⟨nodes, rfl⟩
      obtain rfl : nodes = [node] := hnode
      exact Points.map
        (typeTextWith_points .owned node (within_typeSpans.mp (htypes _ rfl) node (by simp))) _
    · exact htexts.map _
    · exact located_failAt.mpr hspan
  have hplain (symbol : Symbol) :
      (plainCallText cx name symbol span (typeArgs.getD []) texts).Points S := by
    unfold plainCallText
    split
    · exact located_failAt.mpr hspan
    · exact htexts.map _
  have hconversion (builtin : Vocabulary.Builtin) :
      (conversionText span builtin args texts).Points S := by
    unfold conversionText
    split
    · exact htexts.map _
    · exact located_failAt.mpr hspan
  unfold functionCallText
  split
  · exact located_failAt.mpr hspan
  · split
    · exact located_failAt.mpr hspan
    · split
      · exact haddress
      · exact hsize
      · exact hplain _
      · exact hplain _
      · exact hconversion _

theorem methodCallText_points (object : Expr) (name : String) {text : Lowered String}
    (htext : text.Points S) {texts : Lowered (List String)} (htexts : texts.Points S) :
    (methodCallText cx locals object name span text texts).Points S := by
  have hordinary : Points S (propertyText cx locals object name span text >>= fun callee =>
      texts >>= fun texts => pure (callee ++ argList texts) : Lowered String) :=
    (propertyText_points hspan object name htext).bind fun _ => htexts.bind fun _ => trivial
  unfold methodCallText
  dsimp only
  split
  · split
    · exact located_failAt.mpr hspan
    · split
      · exact (memberText_points hspan _ _ _ htext).bind fun _ => trivial
      · split
        · exact located_failAt.mpr hspan
        · exact hordinary
  · split
    · exact hordinary
    · exact located_failAt.mpr hspan
  · exact located_failAt.mpr hspan
  · exact hordinary

theorem newText_points (target : Expr) {texts : Lowered (List String)} (htexts : texts.Points S) :
    (newText cx target span texts).Points S := by
  unfold newText
  split
  · split
    · exact located_failAt.mpr hspan
    · exact htexts.bind fun _ => trivial
  · exact located_failAt.mpr hspan

theorem receiverCallText_points (owner method : String) (args : List Expr)
    {texts : Lowered (List String)} (htexts : texts.Points S) :
    (receiverCallText cx locals owner method args span texts).Points S := by
  unfold receiverCallText
  split
  · exact located_failAt.mpr hspan
  · split
    · exact located_failAt.mpr hspan
    · refine htexts.bind fun texts => ?_
      dsimp only
      split <;> trivial

end Expressions

section Expressions

variable {cx : Context} {locals : Locals}

mutual

/-- An expression is written or fails at one of its spans. -/
theorem exprText_points : ∀ value : Expr, Within S value.spans →
    (exprText cx locals value).Points S
  | .ident span name, h => by
    rw [exprText]
    exact identText_points h.expr name
  | .thisRef span, h => by
    rw [exprText]
    exact (requireThis_points h.expr).bind fun _ => trivial
  | .literal .., _ => trivial
  | .property span object name, h => by
    obtain ⟨hspan, hobject⟩ := within_cons.mp h
    rw [exprText]
    exact propertyText_points hspan object name (exprText_points object hobject)
  | .call span callee typeArgs args, h => by
    simp only [Expr.spans, within_cons, within_append, within_spansOption] at h
    obtain ⟨hspan, hcallee, htypes, hargs⟩ := h
    have htexts : (exprTexts cx locals args).Points S := exprTexts_points args hargs
    cases hnamed : callee.isNamed with
    | false =>
      rw [exprText_call _ _ hnamed]
      exact (exprText_points callee hcallee).bind fun _ => htexts.bind fun _ => trivial
    | true =>
      cases callee with
      | ident place name =>
        rw [exprText]
        split
        · exact htexts.bind fun _ => trivial
        · exact functionCallText_points hspan name htypes (within_exprSpans.mp hargs) htexts
      | property place object name =>
        obtain ⟨-, hobject⟩ := within_cons.mp hcallee
        rw [exprText]
        exact methodCallText_points hspan object name (exprText_points object hobject) htexts
      | _ => cases hnamed
  | .new span target args, h => by
    simp only [Expr.spans, within_cons, within_append] at h
    rw [exprText]
    exact newText_points h.1 target (exprTexts_points args h.2.2)
  | .binary span op left right, h => by
    simp only [Expr.spans, within_cons, within_append] at h
    rw [exprText]
    exact (exprText_points left h.2.1).bind fun _ =>
      (exprText_points right h.2.2).bind fun _ => trivial
  | .unary span op operand, h => by
    rw [exprText]
    exact (exprText_points operand (within_cons.mp h).2).bind fun _ => trivial
  | .paren span inner, h => by
    rw [exprText]
    exact (exprText_points inner (within_cons.mp h).2).bind fun _ => trivial
  | .comma span items, h => by
    rw [exprText]
    exact (exprTexts_points items (within_cons.mp h).2).bind fun _ => trivial
  | .receiverCall span owner method args, h => by
    obtain ⟨hspan, hargs⟩ := within_cons.mp h
    rw [exprText]
    exact receiverCallText_points hspan owner method args (exprTexts_points args hargs)

theorem exprTexts_points : ∀ items : List Expr, Within S (Expr.spansList items) →
    (exprTexts cx locals items).Points S
  | [], _ => trivial
  | item :: rest, h => by
    obtain ⟨hitem, hrest⟩ := within_append.mp h
    exact (exprText_points item hitem).bind fun _ =>
      (exprTexts_points rest hrest).bind fun _ => trivial

end

end Expressions

/-! ## Statements -/

namespace Draft

variable {cx : Context}

theorem variableDecl_points (depth : Nat) (kind : VariableKind) (locals : Locals)
    {decl : VariableDecl} (h : Within S decl.spans) :
    (variableDecl cx (exprText cx) depth kind locals decl).Points S := by
  simp only [VariableDecl.spans, within_cons, within_append, within_spansOption] at h
  obtain ⟨hspan, htype, hinit⟩ := h
  have hname : (Emit.variableName decl).Points S := by
    unfold Emit.variableName
    split
    · trivial
    · exact located_failAt.mpr hspan
  have htyped (name : String) :
      (Emit.variableType decl name).Located S fun node => Within S node.spans := by
    unfold Emit.variableType
    split
    · rename_i node hnode
      exact htype node hnode
    · exact located_failAt.mpr hspan
  have hvalue : (initial (exprText cx) locals decl.init).Points S := by
    unfold initial
    split
    · trivial
    · rename_i init hin
      exact (exprText_points init (hinit init hin)).map _
  exact hname.bind fun name => (htyped name).bind fun node hnode =>
    (typePiece_points hnode).bind fun _ => hvalue.bind fun _ => trivial

theorem variableDecls_points (depth : Nat) (kind : VariableKind) :
    ∀ (locals : Locals) (decls : List VariableDecl), (∀ decl ∈ decls, Within S decl.spans) →
      (variableDecls cx (exprText cx) depth kind locals decls).Points S
  | _, [], _ => trivial
  | locals, decl :: rest, h => by
    obtain ⟨hdecl, hrest⟩ := List.forall_mem_cons.mp h
    exact (variableDecl_points depth kind locals hdecl).bind fun first =>
      (variableDecls_points depth kind first.locals rest hrest).bind fun _ => trivial

theorem head_points (depth : Nat) (locals : Locals) (word : String) {condition : Expr}
    (h : Within S condition.spans) : (head cx (exprText cx) depth locals word condition).Points S :=
  (exprText_points condition h).bind fun _ => trivial

theorem branch_points (depth : Nat) (locals : Locals) (stmt : Stmt) {asBlock asSingle : Lowered Draft}
    (hblock : asBlock.Points S) (hsingle : asSingle.Points S) :
    (branch cx depth locals stmt asBlock asSingle).Points S := by
  unfold branch
  split
  · exact hblock
  · exact hsingle.map _

mutual

/-- What a statement adds is found, or that fails at one of its spans. -/
theorem content_points : ∀ (depth : Nat) (locals : Locals) (stmt : Stmt), Within S stmt.spans →
    (content cx (exprText cx) depth locals stmt).Points S
  | depth, locals, .vars span kind decls, h => by
    simp only [Stmt.spans, within_cons, within_flatMap] at h
    rw [content]
    exact variableDecls_points depth kind locals decls h.2
  | depth, locals, .expr span value, h => by
    rw [content]
    exact (exprText_points value (within_cons.mp h).2).bind fun _ => trivial
  | depth, locals, .ret span none, _ => trivial
  | depth, locals, .ret span (some value), h => by
    rw [content]
    exact (exprText_points value (within_cons.mp h).2).bind fun _ => trivial
  | depth, locals, .ifElse span condition thenBranch elseBranch, h => by
    simp only [Stmt.spans, within_cons, within_append] at h
    obtain ⟨-, hcondition, hthen, helse⟩ := h
    rw [content]
    exact (head_points depth locals "if" hcondition).bind fun _ =>
      (branch_points depth locals thenBranch (content_points depth locals thenBranch hthen)
        (content_points 0 (locals.push .block) thenBranch hthen)).bind fun _ =>
      (elseContent_points depth locals elseBranch helse).bind fun _ => trivial
  | depth, locals, .loop span condition body, h => by
    simp only [Stmt.spans, within_cons, within_append] at h
    obtain ⟨-, hcondition, hbody⟩ := h
    rw [content]
    exact (head_points depth locals "while" hcondition).bind fun _ =>
      (branch_points depth locals body (content_points depth locals body hbody)
        (content_points 0 (locals.push .loop) body hbody)).bind fun _ => trivial
  | _, _, .brk _, _ | _, _, .cont _, _ => trivial
  | depth, locals, .block span body, h => by
    rw [content]
    exact (stmts_points (depth + 1) (locals.push .block) body (within_cons.mp h).2).bind
      fun _ => trivial
  | depth, locals, .staged span before body, h => by
    simp only [Stmt.spans, within_cons, within_append] at h
    obtain ⟨-, hbefore, hbody⟩ := h
    rw [content]
    exact (stmts_points 0 locals before hbefore).bind fun first =>
      (content_points depth first.locals body hbody).bind fun _ => trivial

theorem elseContent_points : ∀ (depth : Nat) (locals : Locals) (branch : Option Stmt),
    Within S (Stmt.spansElse branch) →
    (elseContent cx (exprText cx) depth locals branch).Points S
  | _, _, none, _ => trivial
  | depth, locals, some stmt, h => by
    rw [elseContent]
    exact (branch_points depth locals stmt (content_points depth locals stmt h)
      (content_points 0 (locals.push .block) stmt h)).bind fun _ => trivial

theorem stmts_points : ∀ (depth : Nat) (locals : Locals) (body : List Stmt),
    Within S (Stmt.spansList body) → (stmts cx (exprText cx) depth locals body).Points S
  | _, _, [], _ => trivial
  | depth, locals, stmt :: rest, h => by
    obtain ⟨hstmt, hrest⟩ := within_append.mp h
    rw [stmts]
    exact (content_points 0 locals stmt hstmt).bind fun first =>
      (stmts_points depth first.locals rest hrest).bind fun _ => trivial

end

end Draft

end NativeLowering
