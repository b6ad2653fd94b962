import NativeLowering.Proofs.Json.Faithful
import NativeLowering.Proofs.Syntax.Spans
import NativeLowering.Syntax.Decode
import NativeLowering.Syntax.Encode

/-!
# Decoding what was encoded

Every sort of node is decoded from its own encoding, spans included, as long as offsets fit into 64
bits and the encoding nests no deeper than a reader allows (`decode_encode`).
-/

set_option autoImplicit false

namespace NativeLowering

/-! ## Lists and options of nodes -/

section

variable {α : Type} {decode : Nat → Json → Option α} {encode : α → Json} {spans : α → List Span}

theorem Faithful.flatList {values : List α}
    (h : ∀ value, (∀ span ∈ spans value, span.Fits) → Faithful decode (encode value) value)
    (hvalues : ∀ span ∈ values.flatMap spans, span.Fits) :
    Faithful (Json.list? decode) (.ofList encode values) values :=
  .list fun value hm => h value fun span hspan =>
    hvalues span (List.mem_flatMap.mpr ⟨value, hm, hspan⟩)

theorem Faithful.optional {part : Option α}
    (h : ∀ value, (∀ span ∈ spans value, span.Fits) → Faithful decode (encode value) value)
    (hencode : ∀ value, encode value ≠ .null)
    (hpart : ∀ span ∈ spansOption spans part, span.Fits) :
    Faithful (optional? decode) (.ofOption (part.map encode)) part := by
  cases part with
  | none => exact absent
  | some value => exact (h value hpart).present (hencode value)

end

/-! ## Spans and types -/

theorem Span.faithful {span : Span} (h : span.Fits) : Faithful Span.decode span.encode span := by
  have hstart := Faithful.offset h.1
  have hstop := Faithful.offset h.2
  refine .record (by simp [hstart.plain, hstop.plain]) fun n hn => ?_
  simp only [List.forall_mem_cons] at hn
  apply bind_found (Json.openRecord_record rfl)
  apply bind_found (hstart.need rfl hn.1)
  exact bind_found (hstop.need rfl hn.2.1) rfl

theorem Faithful.spanned {α : Type} {decode : Nat → Json → Option α}
    {decodeNode : Nat → Span → Json → Option α} {span : Span} {node : Json} {value : α}
    (hdecode : ∀ n json, decode (n + 1) json = do
      let (span, node) ← openSpanned n json
      decodeNode n span node)
    (hspan : span.Fits) (h : Faithful (fun n => decodeNode n span) node value) :
    Faithful decode (encodeSpanned span node) value := by
  have hspan := Span.faithful hspan
  refine .record (by simp [h.plain, hspan.plain]) fun n hn => ?_
  simp only [List.forall_mem_cons] at hn
  have hopen : openSpanned n (encodeSpanned span node) = some (span, node) := by
    apply bind_found (Json.openRecord_record rfl)
    refine bind_found (rfl : _ = some node) ?_
    exact bind_found (hspan.orElse rfl hn.2.1) rfl
  refine (hdecode n _).trans (bind_found hopen ?_)
  exact h.decodes n hn.1

theorem Keyword.faithful (word : Keyword) : Faithful Keyword.decode word.encode word := by
  cases word <;> exact .bareVariant rfl

mutual

theorem TypeNode.faithful : ∀ node : TypeNode, (∀ span ∈ node.spans, span.Fits) →
    Faithful TypeNode.decode node.encode node
  | .reference span name args, h => by
    rw [TypeNode.spans, List.forall_mem_cons] at h
    have hname : Faithful (Json.list? fun _ => Json.text?) (.ofList .ofString name) name :=
      .list fun text _ => .text text
    have hargs := TypeNode.faithful_list args h.2
    refine .spanned (fun _ _ => rfl) h.1 (.tagged (fun _ => rfl) ?_)
    refine .record (by simp [hname.plain, hargs.plain]) fun n hn => ?_
    simp only [List.forall_mem_cons] at hn
    apply bind_found (Json.openRecord_record rfl)
    apply bind_found (hname.need rfl hn.1)
    exact bind_found (hargs.orElse rfl hn.2.1) rfl
  | .keyword span word, h => by
    rw [TypeNode.spans, List.forall_mem_cons] at h
    exact .spanned (fun _ _ => rfl) h.1
      (.tagged (fun _ => rfl) ((Keyword.faithful word).map (TypeNode.keyword span)))

theorem TypeNode.faithful_list : ∀ nodes : List TypeNode,
    (∀ span ∈ TypeNode.spansList nodes, span.Fits) →
    Faithful TypeNode.decodeList (.array (TypeNode.encodeList nodes)) nodes
  | [], _ => .nil fun _ => rfl
  | node :: rest, h => by
    rw [TypeNode.spansList, List.forall_mem_append] at h
    exact .cons (fun _ _ => rfl) (TypeNode.faithful node h.1) (TypeNode.faithful_list rest h.2)

end

/-! ## Expressions -/

theorem Literal.faithful : ∀ value : Literal, Faithful Literal.decode value.encode value
  | .number spelling => .tagged (fun _ => rfl) ((Faithful.text spelling).map Literal.number)
  | .string value => .tagged (fun _ => rfl) ((Faithful.text value).map Literal.string)
  | .bool value => .tagged (fun _ => rfl) ((Faithful.bool value).map Literal.bool)
  | .null => ⟨rfl, fun n _ => by cases n <;> rfl⟩

theorem BinaryOp.faithful (op : Vocabulary.BinaryOp) :
    Faithful decodeBinaryOp (.ofString op.spelling) op :=
  .bareVariant (Vocabulary.BinaryOp.ofString?_spelling op)

theorem UnaryOp.faithful (op : Vocabulary.UnaryOp) :
    Faithful decodeUnaryOp (.ofString op.spelling) op :=
  .bareVariant (Vocabulary.UnaryOp.ofString?_spelling op)

mutual

theorem Expr.faithful : ∀ expr : Expr, (∀ span ∈ expr.spans, span.Fits) →
    Faithful Expr.decode expr.encode expr
  | .ident span name, h => by
    rw [Expr.spans, List.forall_mem_cons] at h
    exact .spanned (fun _ _ => rfl) h.1
      (.tagged (fun _ => rfl) ((Faithful.text name).map (Expr.ident span)))
  | .thisRef span, h => by
    rw [Expr.spans, List.forall_mem_cons] at h
    exact .spanned (fun _ _ => rfl) h.1 ⟨rfl, fun n _ => by cases n <;> rfl⟩
  | .literal span value, h => by
    rw [Expr.spans, List.forall_mem_cons] at h
    exact .spanned (fun _ _ => rfl) h.1
      (.tagged (fun _ => rfl) ((Literal.faithful value).map (Expr.literal span)))
  | .property span object name, h => by
    rw [Expr.spans, List.forall_mem_cons] at h
    have hobject := Expr.faithful object h.2
    have hname := Faithful.text name
    refine .spanned (fun _ _ => rfl) h.1 (.tagged (fun _ => rfl) ?_)
    refine .record (by simp [hobject.plain, hname.plain]) fun n hn => ?_
    simp only [List.forall_mem_cons] at hn
    apply bind_found (Json.openRecord_record rfl)
    apply bind_found (hobject.need rfl hn.1)
    exact bind_found (hname.need rfl hn.2.1) rfl
  | .call span callee typeArgs args, h => by
    rw [Expr.spans, List.forall_mem_cons, List.forall_mem_append, List.forall_mem_append] at h
    obtain ⟨hspan, hcallee, htypeArgs, hargs⟩ := h
    have hcallee := Expr.faithful callee hcallee
    have htypeArgs := Faithful.optional TypeNode.faithful_list (fun _ => nofun) htypeArgs
    have hargs := Expr.faithful_list args hargs
    refine .spanned (fun _ _ => rfl) hspan (.tagged (fun _ => rfl) ?_)
    refine .record (by simp [hcallee.plain, htypeArgs.plain, hargs.plain]) fun n hn => ?_
    simp only [List.forall_mem_cons] at hn
    apply bind_found (Json.openRecord_record rfl)
    apply bind_found (hcallee.need rfl hn.1)
    apply bind_found (htypeArgs.absentOr rfl hn.2.1)
    exact bind_found (hargs.orElse rfl hn.2.2.1) rfl
  | .new span target args, h => by
    rw [Expr.spans, List.forall_mem_cons, List.forall_mem_append] at h
    have htarget := Expr.faithful target h.2.1
    have hargs := Expr.faithful_list args h.2.2
    refine .spanned (fun _ _ => rfl) h.1 (.tagged (fun _ => rfl) ?_)
    refine .record (by simp [htarget.plain, hargs.plain]) fun n hn => ?_
    simp only [List.forall_mem_cons] at hn
    apply bind_found (Json.openRecord_record rfl)
    apply bind_found (htarget.need rfl hn.1)
    exact bind_found (hargs.orElse rfl hn.2.1) rfl
  | .binary span op left right, h => by
    rw [Expr.spans, List.forall_mem_cons, List.forall_mem_append] at h
    have hop := BinaryOp.faithful op
    have hleft := Expr.faithful left h.2.1
    have hright := Expr.faithful right h.2.2
    refine .spanned (fun _ _ => rfl) h.1 (.tagged (fun _ => rfl) ?_)
    refine .record (by simp [hop.plain, hleft.plain, hright.plain]) fun n hn => ?_
    simp only [List.forall_mem_cons] at hn
    apply bind_found (Json.openRecord_record rfl)
    apply bind_found (hop.need rfl hn.1)
    apply bind_found (hleft.need rfl hn.2.1)
    exact bind_found (hright.need rfl hn.2.2.1) rfl
  | .unary span op operand, h => by
    rw [Expr.spans, List.forall_mem_cons] at h
    have hop := UnaryOp.faithful op
    have hoperand := Expr.faithful operand h.2
    refine .spanned (fun _ _ => rfl) h.1 (.tagged (fun _ => rfl) ?_)
    refine .record (by simp [hop.plain, hoperand.plain]) fun n hn => ?_
    simp only [List.forall_mem_cons] at hn
    apply bind_found (Json.openRecord_record rfl)
    apply bind_found (hop.need rfl hn.1)
    exact bind_found (hoperand.need rfl hn.2.1) rfl
  | .paren span inner, h => by
    rw [Expr.spans, List.forall_mem_cons] at h
    exact .spanned (fun _ _ => rfl) h.1
      (.tagged (fun _ => rfl) ((Expr.faithful inner h.2).map (Expr.paren span)))
  | .comma span items, h => by
    rw [Expr.spans, List.forall_mem_cons] at h
    exact .spanned (fun _ _ => rfl) h.1
      (.tagged (fun _ => rfl) ((Expr.faithful_list items h.2).map (Expr.comma span)))
  | .receiverCall span owner method args, h => by
    rw [Expr.spans, List.forall_mem_cons] at h
    have howner := Faithful.text owner
    have hmethod := Faithful.text method
    have hargs := Expr.faithful_list args h.2
    refine .spanned (fun _ _ => rfl) h.1 (.tagged (fun _ => rfl) ?_)
    refine .record (by simp [howner.plain, hmethod.plain, hargs.plain]) fun n hn => ?_
    simp only [List.forall_mem_cons] at hn
    apply bind_found (Json.openRecord_record rfl)
    apply bind_found (howner.need rfl hn.1)
    apply bind_found (hmethod.need rfl hn.2.1)
    exact bind_found (hargs.need rfl hn.2.2.1) rfl

theorem Expr.faithful_list : ∀ exprs : List Expr, (∀ span ∈ Expr.spansList exprs, span.Fits) →
    Faithful Expr.decodeList (.array (Expr.encodeList exprs)) exprs
  | [], _ => .nil fun _ => rfl
  | expr :: rest, h => by
    rw [Expr.spansList, List.forall_mem_append] at h
    exact .cons (fun _ _ => rfl) (Expr.faithful expr h.1) (Expr.faithful_list rest h.2)

end

/-! ## Statements -/

theorem BindingName.faithful : ∀ name : BindingName,
    Faithful BindingName.decode name.encode name
  | .ident name => .tagged (fun _ => rfl) ((Faithful.text name).map BindingName.ident)
  | .objectPattern => ⟨rfl, fun n _ => by cases n <;> rfl⟩
  | .arrayPattern => ⟨rfl, fun n _ => by cases n <;> rfl⟩

theorem VariableKind.faithful (kind : VariableKind) :
    Faithful VariableKind.decode kind.encode kind := by
  cases kind <;> exact .bareVariant rfl

theorem TypeNode.encode_ne_null (node : TypeNode) : node.encode ≠ .null := by
  cases node <;> nofun

theorem Expr.encode_ne_null (expr : Expr) : expr.encode ≠ .null := by
  cases expr <;> nofun

theorem Stmt.encode_ne_null (stmt : Stmt) : stmt.encode ≠ .null := by
  cases stmt <;> nofun

/-- An annotation that may be absent. -/
theorem TypeNode.faithful_option {type : Option TypeNode}
    (h : ∀ span ∈ spansOption TypeNode.spans type, span.Fits) :
    Faithful (optional? TypeNode.decode) (TypeNode.encodeOption type) type :=
  .optional TypeNode.faithful TypeNode.encode_ne_null h

/-- An expression that may be absent. -/
theorem Expr.faithful_option {value : Option Expr}
    (h : ∀ span ∈ spansOption Expr.spans value, span.Fits) :
    Faithful (optional? Expr.decode) (Expr.encodeOption value) value :=
  .optional Expr.faithful Expr.encode_ne_null h

theorem VariableDecl.faithful (decl : VariableDecl) (h : ∀ span ∈ decl.spans, span.Fits) :
    Faithful VariableDecl.decode decl.encode decl := by
  rw [VariableDecl.spans, List.forall_mem_cons, List.forall_mem_append] at h
  have hname := BindingName.faithful decl.name
  have htype := TypeNode.faithful_option h.2.1
  have hinit := Expr.faithful_option h.2.2
  refine .spanned (fun _ _ => rfl) h.1 ?_
  refine .record (by simp [hname.plain, htype.plain, hinit.plain]) fun n hn => ?_
  simp only [List.forall_mem_cons] at hn
  apply bind_found (Json.openRecord_record rfl)
  apply bind_found (hname.need rfl hn.1)
  apply bind_found (htype.absentOr rfl hn.2.1)
  exact bind_found (hinit.absentOr rfl hn.2.2.1) rfl

mutual

theorem Stmt.faithful : ∀ stmt : Stmt, (∀ span ∈ stmt.spans, span.Fits) →
    Faithful Stmt.decode stmt.encode stmt
  | .vars span kind decls, h => by
    rw [Stmt.spans, List.forall_mem_cons] at h
    have hkind := VariableKind.faithful kind
    have hdecls := Faithful.flatList VariableDecl.faithful h.2
    have hpayload : Faithful (fun n => Stmt.decodeVars n span)
        (.record [("kind", kind.encode), ("declarations", .ofList VariableDecl.encode decls)])
        (.vars span kind decls) := by
      refine .record (by simp [hkind.plain, hdecls.plain]) fun n hn => ?_
      simp only [List.forall_mem_cons] at hn
      apply bind_found (Json.openRecord_record rfl)
      apply bind_found (hkind.need rfl hn.1)
      exact bind_found (hdecls.need rfl hn.2.1) rfl
    exact .spanned (fun _ _ => rfl) h.1 (.tagged (fun _ => rfl) hpayload)
  | .expr span value, h => by
    rw [Stmt.spans, List.forall_mem_cons] at h
    exact .spanned (fun _ _ => rfl) h.1
      (.tagged (fun _ => rfl) ((Expr.faithful value h.2).map (Stmt.expr span)))
  | .ret span value, h => by
    rw [Stmt.spans, List.forall_mem_cons] at h
    have hvalue := Expr.faithful_option h.2
    have hpayload : Faithful (fun n => Stmt.decodeReturn n span) (Expr.encodeOption value)
        (.ret span value) := by
      refine ⟨hvalue.plain, fun n hn => ?_⟩
      have hdecode (json : Json) : Stmt.decodeReturn n span json =
          (optional? Expr.decode n json).map (Stmt.ret span) := by
        cases json <;> simp [Stmt.decodeReturn, optional?, Function.comp_def]
      rw [hdecode, hvalue.decodes n hn]
      rfl
    exact .spanned (fun _ _ => rfl) h.1 (.tagged (fun _ => rfl) hpayload)
  | .ifElse span condition thenBranch elseBranch, h => by
    rw [Stmt.spans, List.forall_mem_cons, List.forall_mem_append, List.forall_mem_append] at h
    have hcondition := Expr.faithful condition h.2.1
    have hthen := Stmt.faithful thenBranch h.2.2.1
    have helse := Stmt.faithful_else elseBranch h.2.2.2
    refine .spanned (fun _ _ => rfl) h.1 (.tagged (fun _ => rfl) ?_)
    refine .record (by simp [hcondition.plain, hthen.plain, helse.plain]) fun n hn => ?_
    simp only [List.forall_mem_cons] at hn
    apply bind_found (Json.openRecord_record rfl)
    apply bind_found (hcondition.need rfl hn.1)
    apply bind_found (hthen.need rfl hn.2.1)
    exact bind_found (helse.absentOr rfl hn.2.2.1) rfl
  | .loop span condition body, h => by
    rw [Stmt.spans, List.forall_mem_cons, List.forall_mem_append] at h
    have hcondition := Expr.faithful condition h.2.1
    have hbody := Stmt.faithful body h.2.2
    refine .spanned (fun _ _ => rfl) h.1 (.tagged (fun _ => rfl) ?_)
    refine .record (by simp [hcondition.plain, hbody.plain]) fun n hn => ?_
    simp only [List.forall_mem_cons] at hn
    apply bind_found (Json.openRecord_record rfl)
    apply bind_found (hcondition.need rfl hn.1)
    exact bind_found (hbody.need rfl hn.2.1) rfl
  | .brk span, h => by
    rw [Stmt.spans, List.forall_mem_cons] at h
    exact .spanned (fun _ _ => rfl) h.1 ⟨rfl, fun n _ => by cases n <;> rfl⟩
  | .cont span, h => by
    rw [Stmt.spans, List.forall_mem_cons] at h
    exact .spanned (fun _ _ => rfl) h.1 ⟨rfl, fun n _ => by cases n <;> rfl⟩
  | .block span body, h => by
    rw [Stmt.spans, List.forall_mem_cons] at h
    have hblock := Stmt.faithful_block body h.2
    exact .spanned (fun _ _ => rfl) h.1 (.tagged (fun _ => rfl) (hblock.map (Stmt.block span)))
  | .staged span before body, h => by
    rw [Stmt.spans, List.forall_mem_cons, List.forall_mem_append] at h
    have hbefore := Stmt.faithful_list before h.2.1
    have hbody := Stmt.faithful body h.2.2
    refine .spanned (fun _ _ => rfl) h.1 (.tagged (fun _ => rfl) ?_)
    refine .record (by simp [hbefore.plain, hbody.plain]) fun n hn => ?_
    simp only [List.forall_mem_cons] at hn
    apply bind_found (Json.openRecord_record rfl)
    apply bind_found (hbefore.need rfl hn.1)
    exact bind_found (hbody.need rfl hn.2.1) rfl

theorem Stmt.faithful_block : ∀ body : List Stmt, (∀ span ∈ Stmt.spansList body, span.Fits) →
    Faithful Stmt.decodeBlock (encodeBlock body) body
  | body, h => by
    have hbody := Stmt.faithful_list body h
    refine .record (by simp [hbody.plain]) fun n hn => ?_
    simp only [List.forall_mem_cons] at hn
    apply bind_found (Json.openRecord_record rfl)
    exact hbody.need rfl hn.1

theorem Stmt.faithful_else : ∀ branch : Option Stmt,
    (∀ span ∈ Stmt.spansElse branch, span.Fits) →
    Faithful (optional? Stmt.decode) (Stmt.encodeOption branch) branch
  | none, _ => .absent
  | some branch, h => (Stmt.faithful branch h).present branch.encode_ne_null

theorem Stmt.faithful_list : ∀ stmts : List Stmt, (∀ span ∈ Stmt.spansList stmts, span.Fits) →
    Faithful Stmt.decodeList (.array (Stmt.encodeList stmts)) stmts
  | [], _ => .nil fun _ => rfl
  | stmt :: rest, h => by
    rw [Stmt.spansList, List.forall_mem_append] at h
    exact .cons (fun _ _ => rfl) (Stmt.faithful stmt h.1) (Stmt.faithful_list rest h.2)

end

/-- A body that may be absent. -/
theorem Stmt.faithful_body {body : Option (List Stmt)}
    (h : ∀ span ∈ spansOption Stmt.spansList body, span.Fits) :
    Faithful (optional? Stmt.decodeBlock) (encodeBlockOption body) body :=
  .optional Stmt.faithful_block (fun _ => nofun) h

/-! ## Declarations -/

theorem Decorator.faithful (decorator : Decorator) (h : ∀ span ∈ decorator.spans, span.Fits) :
    Faithful Decorator.decode decorator.encode decorator := by
  rw [Decorator.spans, List.forall_mem_cons] at h
  have hname := Faithful.text decorator.name
  have hargs := Expr.faithful_list decorator.args h.2
  refine .spanned (fun _ _ => rfl) h.1 ?_
  refine .record (by simp [hname.plain, hargs.plain]) fun n hn => ?_
  simp only [List.forall_mem_cons] at hn
  apply bind_found (Json.openRecord_record rfl)
  apply bind_found (hname.need rfl hn.1)
  exact bind_found (hargs.orElse rfl hn.2.1) rfl

theorem Visibility.faithful (visibility : Visibility) :
    Faithful Visibility.decode visibility.encode visibility := by
  cases visibility <;> exact .bareVariant rfl

theorem Param.faithful (param : Param) (h : ∀ span ∈ param.spans, span.Fits) :
    Faithful Param.decode param.encode param := by
  rw [Param.spans, List.forall_mem_cons, List.forall_mem_append] at h
  have hname := BindingName.faithful param.name
  have htype := TypeNode.faithful_option h.2.1
  have hdefault := Expr.faithful_option h.2.2
  have hrest := Faithful.bool param.rest
  refine .spanned (fun _ _ => rfl) h.1 ?_
  refine .record (by simp [hname.plain, htype.plain, hdefault.plain, hrest.plain]) fun n hn => ?_
  simp only [List.forall_mem_cons] at hn
  apply bind_found (Json.openRecord_record rfl)
  apply bind_found (hname.need rfl hn.1)
  apply bind_found (htype.absentOr rfl hn.2.1)
  apply bind_found (hdefault.absentOr rfl hn.2.2.1)
  exact bind_found (hrest.orElse rfl hn.2.2.2.1) rfl

theorem PropertyDecl.faithful (decl : PropertyDecl)
    (h : ∀ span ∈ spansOption TypeNode.spans decl.type, span.Fits) :
    Faithful PropertyDecl.decode
      (.record [("visibility", decl.visibility.encode), ("name", .ofString decl.name),
        ("ty", TypeNode.encodeOption decl.type)]) decl := by
  have hvisibility := Visibility.faithful decl.visibility
  have hname := Faithful.text decl.name
  have htype := TypeNode.faithful_option h
  refine .record (by simp [hvisibility.plain, hname.plain, htype.plain]) fun n hn => ?_
  simp only [List.forall_mem_cons] at hn
  apply bind_found (Json.openRecord_record rfl)
  apply bind_found (hvisibility.orElse rfl hn.1)
  apply bind_found (hname.need rfl hn.2.1)
  exact bind_found (htype.absentOr rfl hn.2.2.1) rfl

theorem MethodDecl.faithful (decl : MethodDecl)
    (h : ∀ span ∈ decl.decorators.flatMap Decorator.spans ++ (decl.params.flatMap Param.spans ++
      (spansOption TypeNode.spans decl.returnType ++ spansOption Stmt.spansList decl.body)),
      span.Fits) :
    Faithful MethodDecl.decode
      (.record [("decorators", .ofList Decorator.encode decl.decorators),
        ("visibility", decl.visibility.encode), ("name", .ofString decl.name),
        ("params", .ofList Param.encode decl.params),
        ("return_type", TypeNode.encodeOption decl.returnType),
        ("body", encodeBlockOption decl.body)]) decl := by
  rw [List.forall_mem_append, List.forall_mem_append, List.forall_mem_append] at h
  obtain ⟨hdecorators, hparams, hreturnType, hbody⟩ := h
  have hdecorators := Faithful.flatList Decorator.faithful hdecorators
  have hvisibility := Visibility.faithful decl.visibility
  have hname := Faithful.text decl.name
  have hparams := Faithful.flatList Param.faithful hparams
  have hreturnType := TypeNode.faithful_option hreturnType
  have hbody := Stmt.faithful_body hbody
  refine .record (by simp [hdecorators.plain, hvisibility.plain, hname.plain, hparams.plain,
    hreturnType.plain, hbody.plain]) fun n hn => ?_
  simp only [List.forall_mem_cons] at hn
  obtain ⟨hn₁, hn₂, hn₃, hn₄, hn₅, hn₆, -⟩ := hn
  apply bind_found (Json.openRecord_record rfl)
  apply bind_found (hdecorators.orElse rfl hn₁)
  apply bind_found (hvisibility.orElse rfl hn₂)
  apply bind_found (hname.need rfl hn₃)
  apply bind_found (hparams.orElse rfl hn₄)
  apply bind_found (hreturnType.absentOr rfl hn₅)
  exact bind_found (hbody.absentOr rfl hn₆) rfl

theorem ConstructorDecl.faithful (decl : ConstructorDecl)
    (h : ∀ span ∈ decl.params.flatMap Param.spans ++ spansOption Stmt.spansList decl.body,
      span.Fits) :
    Faithful ConstructorDecl.decode
      (.record [("visibility", decl.visibility.encode),
        ("params", .ofList Param.encode decl.params),
        ("body", encodeBlockOption decl.body)]) decl := by
  rw [List.forall_mem_append] at h
  have hvisibility := Visibility.faithful decl.visibility
  have hparams := Faithful.flatList Param.faithful h.1
  have hbody := Stmt.faithful_body h.2
  refine .record (by simp [hvisibility.plain, hparams.plain, hbody.plain]) fun n hn => ?_
  simp only [List.forall_mem_cons] at hn
  apply bind_found (Json.openRecord_record rfl)
  apply bind_found (hvisibility.orElse rfl hn.1)
  apply bind_found (hparams.orElse rfl hn.2.1)
  exact bind_found (hbody.absentOr rfl hn.2.2.1) rfl

theorem ClassMember.faithful : ∀ member : ClassMember, (∀ span ∈ member.spans, span.Fits) →
    Faithful ClassMember.decode member.encode member
  | .property span decl, h => by
    rw [ClassMember.spans, List.forall_mem_cons] at h
    exact .spanned (fun _ _ => rfl) h.1
      (.tagged (fun _ => rfl) ((PropertyDecl.faithful decl h.2).map (ClassMember.property span)))
  | .method span decl, h => by
    rw [ClassMember.spans, List.forall_mem_cons] at h
    exact .spanned (fun _ _ => rfl) h.1
      (.tagged (fun _ => rfl) ((MethodDecl.faithful decl h.2).map (ClassMember.method span)))
  | .constructor span decl, h => by
    rw [ClassMember.spans, List.forall_mem_cons] at h
    exact .spanned (fun _ _ => rfl) h.1 (.tagged (fun _ => rfl)
      ((ConstructorDecl.faithful decl h.2).map (ClassMember.constructor span)))

theorem MethodSignature.faithful (signature : MethodSignature)
    (h : ∀ span ∈ signature.spans, span.Fits) :
    Faithful MethodSignature.decode signature.encode signature := by
  rw [MethodSignature.spans, List.forall_mem_cons, List.forall_mem_append] at h
  have hname := Faithful.text signature.name
  have hparams := Faithful.flatList Param.faithful h.2.1
  have hreturnType := TypeNode.faithful_option h.2.2
  refine .spanned (fun _ _ => rfl) h.1 ?_
  refine .record (by simp [hname.plain, hparams.plain, hreturnType.plain]) fun n hn => ?_
  simp only [List.forall_mem_cons] at hn
  apply bind_found (Json.openRecord_record rfl)
  apply bind_found (hname.need rfl hn.1)
  apply bind_found (hparams.orElse rfl hn.2.1)
  exact bind_found (hreturnType.absentOr rfl hn.2.2.1) rfl

/-- A name that may be absent. -/
theorem faithful_name (name : Option String) :
    Faithful (optional? fun _ => Json.text?) (.ofOption (name.map .ofString)) name := by
  cases name with
  | none => exact .absent
  | some name => exact (Faithful.text name).present nofun

theorem ImportItem.faithful (item : ImportItem) :
    Faithful ImportItem.decode item.encode item := by
  have hname := Faithful.text item.name
  have hrename := faithful_name item.rename
  refine .record (by simp [hname.plain, hrename.plain]) fun n hn => ?_
  simp only [List.forall_mem_cons] at hn
  apply bind_found (Json.openRecord_record rfl)
  apply bind_found (hname.need rfl hn.1)
  exact bind_found (hrename.absentOr rfl hn.2.1) rfl

theorem ImportClause.faithful : ∀ clause : ImportClause,
    Faithful ImportClause.decode clause.encode clause
  | .named items => by
    have hitems : Faithful (Json.list? ImportItem.decode) (.ofList ImportItem.encode items) items :=
      .list fun item _ => ImportItem.faithful item
    exact .tagged (fun _ => rfl) (hitems.map ImportClause.named)
  | .whole name => .tagged (fun _ => rfl) ((Faithful.text name).map ImportClause.whole)

theorem ImportDecl.faithful (decl : ImportDecl) (h : ∀ span ∈ decl.specifier.spans, span.Fits) :
    Faithful ImportDecl.decode
      (.record [("module", decl.specifier.encode),
        ("clause", .ofOption (decl.clause.map ImportClause.encode))]) decl := by
  have hspecifier := Expr.faithful decl.specifier h
  have hclause : Faithful (optional? ImportClause.decode)
      (.ofOption (decl.clause.map ImportClause.encode)) decl.clause := by
    cases decl.clause with
    | none => exact .absent
    | some clause => exact (ImportClause.faithful clause).present (by cases clause <;> nofun)
  refine .record (by simp [hspecifier.plain, hclause.plain]) fun n hn => ?_
  simp only [List.forall_mem_cons] at hn
  apply bind_found (Json.openRecord_record rfl)
  apply bind_found (hspecifier.need rfl hn.1)
  exact bind_found (hclause.absentOr rfl hn.2.1) rfl

theorem ClassDecl.faithful (decl : ClassDecl)
    (h : ∀ span ∈ decl.decorators.flatMap Decorator.spans ++
      decl.members.flatMap ClassMember.spans, span.Fits) :
    Faithful ClassDecl.decode
      (.record [("decorators", .ofList Decorator.encode decl.decorators),
        ("declare", .bool decl.declared), ("name", .ofOption (decl.name.map .ofString)),
        ("members", .ofList ClassMember.encode decl.members)]) decl := by
  rw [List.forall_mem_append] at h
  have hdecorators := Faithful.flatList Decorator.faithful h.1
  have hdeclared := Faithful.bool decl.declared
  have hname := faithful_name decl.name
  have hmembers := Faithful.flatList ClassMember.faithful h.2
  refine .record (by simp [hdecorators.plain, hdeclared.plain, hname.plain, hmembers.plain])
    fun n hn => ?_
  simp only [List.forall_mem_cons] at hn
  apply bind_found (Json.openRecord_record rfl)
  apply bind_found (hdecorators.orElse rfl hn.1)
  apply bind_found (hdeclared.orElse rfl hn.2.1)
  apply bind_found (hname.absentOr rfl hn.2.2.1)
  exact bind_found (hmembers.orElse rfl hn.2.2.2.1) rfl

theorem FunctionDecl.faithful (decl : FunctionDecl)
    (h : ∀ span ∈ decl.decorators.flatMap Decorator.spans ++ (decl.params.flatMap Param.spans ++
      (spansOption TypeNode.spans decl.returnType ++ spansOption Stmt.spansList decl.body)),
      span.Fits) :
    Faithful FunctionDecl.decode
      (.record [("decorators", .ofList Decorator.encode decl.decorators),
        ("declare", .bool decl.declared), ("name", .ofOption (decl.name.map .ofString)),
        ("type_params", .ofList .ofString decl.typeParams),
        ("params", .ofList Param.encode decl.params),
        ("return_type", TypeNode.encodeOption decl.returnType),
        ("body", encodeBlockOption decl.body)]) decl := by
  rw [List.forall_mem_append, List.forall_mem_append, List.forall_mem_append] at h
  obtain ⟨hdecorators, hparams, hreturnType, hbody⟩ := h
  have hdecorators := Faithful.flatList Decorator.faithful hdecorators
  have hdeclared := Faithful.bool decl.declared
  have hname := faithful_name decl.name
  have htypeParams : Faithful (Json.list? fun _ => Json.text?)
      (.ofList .ofString decl.typeParams) decl.typeParams := .list fun text _ => .text text
  have hparams := Faithful.flatList Param.faithful hparams
  have hreturnType := TypeNode.faithful_option hreturnType
  have hbody := Stmt.faithful_body hbody
  refine .record (by simp [hdecorators.plain, hdeclared.plain, hname.plain, htypeParams.plain,
    hparams.plain, hreturnType.plain, hbody.plain]) fun n hn => ?_
  simp only [List.forall_mem_cons] at hn
  obtain ⟨hn₁, hn₂, hn₃, hn₄, hn₅, hn₆, hn₇, -⟩ := hn
  apply bind_found (Json.openRecord_record rfl)
  apply bind_found (hdecorators.orElse rfl hn₁)
  apply bind_found (hdeclared.orElse rfl hn₂)
  apply bind_found (hname.absentOr rfl hn₃)
  apply bind_found (htypeParams.orElse rfl hn₄)
  apply bind_found (hparams.orElse rfl hn₅)
  apply bind_found (hreturnType.absentOr rfl hn₆)
  exact bind_found (hbody.absentOr rfl hn₇) rfl

theorem InterfaceDecl.faithful (decl : InterfaceDecl)
    (h : ∀ span ∈ decl.methods.flatMap MethodSignature.spans, span.Fits) :
    Faithful InterfaceDecl.decode
      (.record [("name", .ofString decl.name),
        ("methods", .ofList MethodSignature.encode decl.methods)]) decl := by
  have hname := Faithful.text decl.name
  have hmethods := Faithful.flatList MethodSignature.faithful h
  refine .record (by simp [hname.plain, hmethods.plain]) fun n hn => ?_
  simp only [List.forall_mem_cons] at hn
  apply bind_found (Json.openRecord_record rfl)
  apply bind_found (hname.need rfl hn.1)
  exact bind_found (hmethods.orElse rfl hn.2.1) rfl

theorem Decl.faithful_typeAlias (name : String) :
    Faithful Decl.decodeTypeAlias (.record [("name", .ofString name)]) name := by
  refine .record (by simp [(Faithful.text name).plain]) fun n hn => ?_
  exact bind_found (Json.openRecord_record rfl) rfl

mutual

theorem Decl.faithful : ∀ decl : Decl, (∀ span ∈ decl.spans, span.Fits) →
    Faithful Decl.decode decl.encode decl
  | .importDecl span decl, h => by
    rw [Decl.spans, List.forall_mem_cons] at h
    exact .spanned (fun _ _ => rfl) h.1
      (.tagged (fun _ => rfl) ((ImportDecl.faithful decl h.2).map (Decl.importDecl span)))
  | .classDecl span decl, h => by
    rw [Decl.spans, List.forall_mem_cons] at h
    exact .spanned (fun _ _ => rfl) h.1
      (.tagged (fun _ => rfl) ((ClassDecl.faithful decl h.2).map (Decl.classDecl span)))
  | .functionDecl span decl, h => by
    rw [Decl.spans, List.forall_mem_cons] at h
    exact .spanned (fun _ _ => rfl) h.1
      (.tagged (fun _ => rfl) ((FunctionDecl.faithful decl h.2).map (Decl.functionDecl span)))
  | .interfaceDecl span decl, h => by
    rw [Decl.spans, List.forall_mem_cons] at h
    exact .spanned (fun _ _ => rfl) h.1
      (.tagged (fun _ => rfl) ((InterfaceDecl.faithful decl h.2).map (Decl.interfaceDecl span)))
  | .typeAlias span name, h => by
    rw [Decl.spans, List.forall_mem_cons] at h
    exact .spanned (fun _ _ => rfl) h.1
      (.tagged (fun _ => rfl) ((Decl.faithful_typeAlias name).map (Decl.typeAlias span)))
  | .moduleDecl span decorators declared name body, h => by
    rw [Decl.spans, List.forall_mem_cons, List.forall_mem_append] at h
    have hdecorators := Faithful.flatList Decorator.faithful h.2.1
    have hdeclared := Faithful.bool declared
    have hname := Faithful.text name
    have hbody := Decl.faithful_list body h.2.2
    refine .spanned (fun _ _ => rfl) h.1 (.tagged (fun _ => rfl) ?_)
    refine .record (by simp [hdecorators.plain, hdeclared.plain, hname.plain, hbody.plain])
      fun n hn => ?_
    simp only [List.forall_mem_cons] at hn
    apply bind_found (Json.openRecord_record rfl)
    apply bind_found (hdecorators.orElse rfl hn.1)
    apply bind_found (hdeclared.orElse rfl hn.2.1)
    apply bind_found (hname.need rfl hn.2.2.1)
    exact bind_found (hbody.orElse rfl hn.2.2.2.1) rfl

theorem Decl.faithful_list : ∀ decls : List Decl, (∀ span ∈ Decl.spansList decls, span.Fits) →
    Faithful Decl.decodeList (.array (Decl.encodeList decls)) decls
  | [], _ => .nil fun _ => rfl
  | decl :: rest, h => by
    rw [Decl.spansList, List.forall_mem_append] at h
    exact .cons (fun _ _ => rfl) (Decl.faithful decl h.1) (Decl.faithful_list rest h.2)

end

theorem Program.faithful (program : Program) (h : ∀ span ∈ program.spans, span.Fits) :
    Faithful Program.decode program.encode program := by
  have hdecls := Decl.faithful_list program.decls h
  refine .record (by simp [hdecls.plain]) fun n hn => ?_
  simp only [List.forall_mem_cons] at hn
  apply bind_found (Json.openRecord_record rfl)
  exact bind_found (hdecls.need rfl hn.1) rfl

/-! ## Reading back -/

/-- What can be handed over as a text: spans that numbers can stand for, and no deeper nesting than
a reader allows. -/
structure Portable (spans : List Span) (json : Json) : Prop where
  fits : ∀ span ∈ spans, span.Fits
  nests : json.nesting ≤ nestingLimit

/-- **Decoding undoes encoding.** A program, and each sort of node in one, is decoded from the text
its encoding is written as, spans included. -/
theorem decode_encode :
    (∀ program : Program, Portable program.spans program.encode →
      Program.parse? (Json.write program.encode) = some program) ∧
    (∀ decl : Decl, Portable decl.spans decl.encode →
      (Json.read (Json.write decl.encode)).bind (Decl.decode nestingLimit) = some decl) ∧
    (∀ member : ClassMember, Portable member.spans member.encode →
      (Json.read (Json.write member.encode)).bind (ClassMember.decode nestingLimit)
        = some member) ∧
    (∀ param : Param, Portable param.spans param.encode →
      (Json.read (Json.write param.encode)).bind (Param.decode nestingLimit) = some param) ∧
    (∀ node : TypeNode, Portable node.spans node.encode →
      (Json.read (Json.write node.encode)).bind (TypeNode.decode nestingLimit) = some node) ∧
    (∀ stmt : Stmt, Portable stmt.spans stmt.encode →
      (Json.read (Json.write stmt.encode)).bind (Stmt.decode nestingLimit) = some stmt) ∧
    (∀ expr : Expr, Portable expr.spans expr.encode →
      (Json.read (Json.write expr.encode)).bind (Expr.decode nestingLimit) = some expr) := by
  refine ⟨?_, ?_, ?_, ?_, ?_, ?_, ?_⟩
  · exact fun program h => (Program.faithful program h.fits).read_write h.nests
  · exact fun decl h => (Decl.faithful decl h.fits).read_write h.nests
  · exact fun member h => (ClassMember.faithful member h.fits).read_write h.nests
  · exact fun param h => (Param.faithful param h.fits).read_write h.nests
  · exact fun node h => (TypeNode.faithful node h.fits).read_write h.nests
  · exact fun stmt h => (Stmt.faithful stmt h.fits).read_write h.nests
  · exact fun expr h => (Expr.faithful expr h.fits).read_write h.nests

/-- A function that is handed over: `function größe(n) { return -n; }`, with the last span up to the
largest offset. -/
theorem decode_encode_function :
    let value := Expr.unary ⟨27, 29⟩ .neg (.ident ⟨28, 29⟩ "n")
    let program : Program := ⟨[.functionDecl ⟨0, Json.offsetLimit - 1⟩
      { decorators := [], declared := false, name := some "größe", typeParams := [],
        params := [⟨⟨15, 16⟩, .ident "n", none, none, false⟩],
        returnType := none, body := some [.ret ⟨20, 30⟩ (some value)] }]⟩
    Portable program.spans program.encode ∧
      Program.parse? (Json.write program.encode) = some program := by
  intro value program
  have h : Portable program.spans program.encode := ⟨by decide, by decide⟩
  exact ⟨h, decode_encode.1 program h⟩

end NativeLowering
