import NativeLowering.Proofs.Emit.Outcome
import NativeLowering.Proofs.Ending
import NativeLowering.Proofs.Model.Known
import NativeLowering.Proofs.Pass.Condition
import NativeLowering.Proofs.Receiver.Word

/-!
# Which faults a computation of output can meet

A run of a program reports the error of the computation of its output, so which faults it can meet
is a matter of going through that computation. Most faults can be met, depending on the program.
Two sorts are watched here: those of scope discipline, of which only the current instance outside a
class member is met, and those that say that the model lacks something it was built to have
(`Fault.isInternal`). The latter are met unless the model is the program's own. So everything is
stated for any faults that include the expected ones, and a condition is asked for only if internal
faults are not among them (`Unless`).

The passes and the writing of statements do not look at bindings themselves: they hand them to the
visits and to the spelling of expressions. What is shown of those for some bindings need only be
shown for bindings that can be come to from the start (`Locals.Closed`).
-/

set_option autoImplicit false

namespace NativeLowering

open Lowered
open NativeLowering.Expr (Meets AllMeet)
open Stmt (AllList)

/-! ## Faults -/

/-- Not a fault of scope discipline, or else the current instance outside a class member. -/
def Fault.Ordinary (cause : Fault) : Prop :=
  cause.category = .scopeDiscipline → cause = .thisOutsideMember

/-- Whether the fault says that the model lacks what it was built to have. -/
def Fault.isInternal : Fault → Bool
  | .classNotInTable _ | .functionNotInTable _ | .moduleNotDeclared _ | .missingReceiver _ => true
  | _ => false

/-- A fault that any program may meet. -/
@[mk_iff] structure Fault.Expected (cause : Fault) : Prop where
  ordinary : cause.Ordinary
  external : cause.isInternal = false

-- Whether a given fault is expected can be read off its constructor.
attribute [local simp] Fault.Ordinary Fault.category Fault.expected_iff Fault.isInternal

/-- Internal faults may be met, unless the condition holds that rules them out. -/
def Unless (P : Fault → Prop) (fine : Prop) : Prop :=
  (∀ cause : Fault, cause.isInternal = true → P cause) ∨ fine

section Conditions

variable {P : Fault → Prop} {fine other : Prop}

theorem Unless.imp (h : Unless P fine) (himp : fine → other) : Unless P other := Or.imp_right himp h

/-- Where the condition fails, an internal fault may be met. -/
theorem Unless.blames {α : Type} {span : Span} {cause : Fault} (h : Unless P fine)
    (hinternal : cause.isInternal = true) (habsurd : ¬ fine) :
    (failAt span cause : Lowered α).Blames P :=
  blames_failAt.mpr (h.elim (fun hall => hall cause hinternal) fun hfine => absurd hfine habsurd)

end Conditions

/-- Every receiver call is to a class of the model, and it has a receiver. -/
def receivedBy (model : Model) : NodeCondition where
  name _ := True
  literal _ := True
  types _ := True
  comma _ := True
  receiver owner _ count := (model.class? owner).isSome = true ∧ count ≠ 0

section Run

variable {P : Fault → Prop}

/-! ## Types and expressions -/

theorem itemTypeText_blames (hP : ∀ cause : Fault, cause.Expected → P cause)
    {mangling : String} {item : Item} {space : Option String}
    {args : List TypeNode} {argTexts : Lowered (List String)} {wrapping : Wrapping} {span : Span}
    (h : argTexts.Blames P) :
    (itemTypeText mangling item space args argTexts wrapping span).Blames P := by
  unfold itemTypeText
  split
  · split
    · simp [hP]
    · split <;> simp
  · simp [hP]
  · simpa using h
  · simp [hP]

theorem qualifiedItem_blames (hP : ∀ cause : Fault, cause.Expected → P cause)
    (model : Model) (qualifier name : String) (span : Span) :
    (qualifiedItem model qualifier name span).Blames P := by
  unfold qualifiedItem
  split
  · simp [hP]
  · split <;> simp [hP]

mutual

theorem typeTextWith_blames (hP : ∀ cause : Fault, cause.Expected → P cause)
    (model : Model) (mangling : String) : ∀ (wrapping : Wrapping) (node : TypeNode),
    (typeTextWith model mangling wrapping node).Blames P
  | wrapping, .keyword _ keyword => by
    rw [typeTextWith]
    exact blames_ok _
  | wrapping, .reference span [] args => by
    simp [typeTextWith, hP]
  | wrapping, .reference span [name] args => by
    have hargs := typeTexts_blames hP model mangling args
    unfold typeTextWith
    split
    · split
      · rename_i inner
        exact blames_map.mpr (typeTextWith_blames hP model mangling .bare inner)
      · simp [hP]
    · split
      · exact itemTypeText_blames hP hargs
      · simp [hP]
      · exact blames_map.mpr hargs
  | wrapping, .reference span [qualifier, name] args => by
    rw [typeTextWith]
    refine (qualifiedItem_blames hP model qualifier name span).bind ?_
    rintro ⟨ambient, item⟩
    exact itemTypeText_blames hP (typeTexts_blames hP model mangling args)
  | wrapping, .reference span (_ :: _ :: _ :: _) args => by
    simp [typeTextWith, hP]

theorem typeTexts_blames (hP : ∀ cause : Fault, cause.Expected → P cause)
    (model : Model) (mangling : String) : ∀ nodes : List TypeNode,
    (typeTexts model mangling nodes).Blames P
  | [] => by
    rw [typeTexts]
    exact blames_ok _
  | node :: rest => by
    rw [typeTexts]
    exact (typeTextWith_blames hP model mangling .owned node).bind fun text =>
      (typeTexts_blames hP model mangling rest).bind fun texts => blames_pure _

end

section Texts

variable {cx : Context} {locals : Locals}

section Parts

variable (hP : ∀ cause : Fault, cause.Expected → P cause)
include hP

theorem typePiece_blames (node : TypeNode) : (cx.typePiece node).Blames P :=
  blames_map.mpr (typeTextWith_blames hP cx.model cx.mangling .owned node)

/-- The one place where scope discipline is a matter of the program. -/
theorem requireThis_blames (span : Span) : (requireThis locals span).Blames P := by
  unfold requireThis
  split <;> simp [hP]

theorem identText_blames (name : String) (span : Span) :
    (identText cx locals name span).Blames P := by
  rw [identText_eq]
  split
  · simp
  · split
    · simp [hP]
    · split <;> simp [hP]

theorem separator_blames {owner : Ty} (howner : Unless P (owner.KnownTo cx.model)) (member : String)
    (span : Span) : (separator cx owner member span).Blames P := by
  unfold separator
  split
  · rename_i name
    split
    · rename_i hunknown
      refine howner.blames rfl fun hknown => ?_
      obtain ⟨known, hknown⟩ := Option.isSome_iff_exists.mp hknown
      simp [Names.classInfo?, hknown] at hunknown
    · split <;> simp
  all_goals simp [hP]

theorem instanceMemberText_blames (member : String) (span : Span) :
    (instanceMemberText cx locals member span).Blames P :=
  (requireThis_blames hP span).bind fun _ => blames_pure _

theorem memberText_blames {object : Expr} {owner : Ty} (howner : Unless P (owner.KnownTo cx.model))
    {member : String} {span : Span} {objectText : Lowered String} (h : objectText.Blames P) :
    (memberText cx locals object owner member span objectText).Blames P := by
  unfold memberText
  split
  · exact instanceMemberText_blames hP member span
  · exact (separator_blames hP howner member span).bind fun _ => h.bind fun _ => blames_pure _

theorem propertyText_blames {object : Expr}
    (howner : Unless P ((cx.model.typeOf locals object).KnownTo cx.model)) {name : String}
    {span : Span} {objectText : Lowered String} (h : objectText.Blames P) :
    (propertyText cx locals object name span objectText).Blames P := by
  unfold propertyText
  split
  · exact instanceMemberText_blames hP name span
  · split
    · rename_i specifier htype
      rw [moduleMemberText_eq]
      split
      · rename_i hunknown
        refine howner.blames rfl fun hknown => ?_
        rw [htype, Ty.KnownTo, hunknown] at hknown
        cases hknown
      · split <;> simp [hP]
    · exact memberText_blames hP howner h

theorem functionCallText_blames {name : String} {span : Span} {typeArgs : Option (List TypeNode)}
    {args : List Expr} {argTexts : Lowered (List String)} (h : argTexts.Blames P) :
    (functionCallText cx name span typeArgs args argTexts).Blames P := by
  unfold functionCallText
  split
  · simp [hP]
  · split
    · simp [hP]
    · split
      · -- The address of an operand.
        unfold addressText
        split
        · split
          · exact blames_map.mpr h
          · simp [hP]
        · simp [hP]
      · -- The size of a type or of a value.
        unfold sizeText
        split
        · exact blames_map.mpr (typeTextWith_blames hP cx.model cx.mangling .owned _)
        · exact blames_map.mpr h
        · simp [hP]
      all_goals first
        | unfold plainCallText
          split
          · simp [hP]
          · exact blames_map.mpr h
        | unfold conversionText
          split
          · exact blames_map.mpr h
          · simp [hP]

theorem methodCallText_blames {object : Expr}
    (howner : Unless P ((cx.model.typeOf locals object).KnownTo cx.model)) {name : String}
    {span : Span} {objectText : Lowered String} {argTexts : Lowered (List String)}
    (hobject : objectText.Blames P) (hargs : argTexts.Blames P) :
    (methodCallText cx locals object name span objectText argTexts).Blames P := by
  have hordinary : Blames P (do
      let callee ← propertyText cx locals object name span objectText
      let texts ← argTexts
      return callee ++ argList texts) :=
    (propertyText_blames hP howner hobject).bind fun _ => hargs.bind fun _ => blames_pure _
  unfold methodCallText
  dsimp only
  split
  · rename_i ownerName htype
    split
    · rename_i hunknown
      refine howner.blames rfl fun hknown => ?_
      rw [htype, Ty.KnownTo, hunknown] at hknown
      cases hknown
    · split
      · rw [htype] at howner
        exact (memberText_blames hP (htype ▸ howner) hobject).bind fun _ => blames_pure _
      · split
        · simp [hP]
        · exact hordinary
  · split
    · exact hordinary
    · simp [hP]
  · simp [hP]
  · exact hordinary

theorem newText_blames {target : Expr} {span : Span} {argTexts : Lowered (List String)}
    (h : argTexts.Blames P) :
    (newText cx target span argTexts).Blames P := by
  unfold newText
  split
  · split
    · simp [hP]
    · exact h.bind fun _ => blames_pure _
  · simp [hP]

end Parts

theorem receiverCallText_blames {owner method : String} {args : List Expr} {span : Span}
    (hcall : Unless P ((receivedBy cx.model).receiver owner method args.length))
    {argTexts : Lowered (List String)} (h : argTexts.Blames P) :
    (receiverCallText cx locals owner method args span argTexts).Blames P := by
  unfold receiverCallText
  split
  · rename_i hunknown
    refine hcall.blames rfl fun hknown => ?_
    obtain ⟨hclass, -⟩ := hknown
    rw [hunknown] at hclass
    cases hclass
  · split
    · exact hcall.blames rfl fun hknown => hknown.2 rfl
    · refine h.bind fun texts => ?_
      dsimp only
      split <;> exact blames_pure _

theorem typeOf_unless (hlocals : Unless P (cx.model.Answers locals)) (value : Expr) :
    Unless P ((cx.model.typeOf locals value).KnownTo cx.model) :=
  hlocals.imp fun hanswers => hanswers.typeOf_known value

mutual

theorem exprText_blames (hP : ∀ cause : Fault, cause.Expected → P cause)
    (hlocals : Unless P (cx.model.Answers locals)) :
    ∀ value : Expr, Unless P (value.Meets (receivedBy cx.model)) →
    (exprText cx locals value).Blames P
  | .ident span name, _ => by
    rw [exprText]
    exact identText_blames hP name span
  | .thisRef span, _ => by
    rw [exprText]
    exact (requireThis_blames hP span).bind fun _ => blames_pure _
  | .literal span value, _ => by
    rw [exprText]
    exact blames_ok _
  | .property span object name, h => by
    rw [exprText]
    exact propertyText_blames hP (typeOf_unless hlocals object)
      (exprText_blames hP hlocals object (h.imp fun hvalue => hvalue.1))
  | .call span callee typeArgs args, h => by
    have hargs := exprTexts_blames hP hlocals args (h.imp fun hvalue => hvalue.2.2)
    have hcallee := h.imp fun hvalue => hvalue.1
    cases hnamed : callee.isNamed with
    | false =>
      rw [exprText_call _ _ hnamed]
      exact (exprText_blames hP hlocals callee hcallee).bind fun _ =>
        hargs.bind fun _ => blames_pure _
    | true =>
      cases callee with
      | ident place name =>
        rw [exprText]
        split
        · exact hargs.bind fun _ => blames_pure _
        · exact functionCallText_blames hP hargs
      | property place object name =>
        rw [exprText]
        exact methodCallText_blames hP (typeOf_unless hlocals object)
          (exprText_blames hP hlocals object (hcallee.imp fun hvalue => hvalue.1)) hargs
      | _ => cases hnamed
  | .new span target args, h => by
    rw [exprText]
    exact newText_blames hP (exprTexts_blames hP hlocals args (h.imp fun hvalue => hvalue.2))
  | .binary span op left right, h => by
    rw [exprText]
    exact (exprText_blames hP hlocals left (h.imp fun hvalue => hvalue.1)).bind fun _ =>
      (exprText_blames hP hlocals right (h.imp fun hvalue => hvalue.2)).bind fun _ => blames_pure _
  | .unary span op operand, h => by
    rw [exprText]
    exact (exprText_blames hP hlocals operand h).bind fun _ => blames_pure _
  | .paren span inner, h => by
    rw [exprText]
    exact (exprText_blames hP hlocals inner h).bind fun _ => blames_pure _
  | .comma span items, h => by
    rw [exprText]
    exact (exprTexts_blames hP hlocals items (h.imp fun hvalue => hvalue.2)).bind fun _ =>
      blames_pure _
  | .receiverCall span owner method args, h => by
    rw [exprText]
    exact receiverCallText_blames (h.imp fun hvalue => hvalue.1)
      (exprTexts_blames hP hlocals args (h.imp fun hvalue => hvalue.2))

theorem exprTexts_blames (hP : ∀ cause : Fault, cause.Expected → P cause)
    (hlocals : Unless P (cx.model.Answers locals)) :
    ∀ items : List Expr, Unless P (AllMeet (receivedBy cx.model) items) →
    (exprTexts cx locals items).Blames P
  | [], _ => by
    rw [exprTexts]
    exact blames_ok _
  | item :: rest, h => by
    rw [exprTexts]
    exact (exprText_blames hP hlocals item (h.imp fun hitems => hitems.1)).bind fun _ =>
      (exprTexts_blames hP hlocals rest (h.imp fun hitems => hitems.2)).bind fun _ => blames_pure _

end

end Texts

end Run

/-! ## Bindings that can be come to -/

/-- A condition that bindings keep as frames are opened and variables are declared. -/
structure Locals.Closed (model : Model) (I : Locals → Prop) : Prop where
  push : ∀ {locals : Locals} (kind : FrameKind), I locals → I (locals.push kind)
  annotated : ∀ {locals : Locals} (name : String) (node : TypeNode), I locals →
    I (locals.declare name (model.typeFromNode node))
  declared : ∀ {locals : Locals} (name : String) (decl : VariableDecl), I locals →
    I (locals.declare name (model.declaredType locals decl))

theorem Locals.closed_true (model : Model) : Locals.Closed model fun _ => True :=
  ⟨fun _ _ => trivial, fun _ _ _ => trivial, fun _ _ _ => trivial⟩

theorem Locals.closed_reached (model : Model) (program : Program) :
    Locals.Closed model (Locals.Reached model program) :=
  ⟨.push, .annotated, .declared⟩

/-! ## Passes -/

namespace Walk

section Steps

variable {σ α β : Type} {P : Fault → Prop}

/-- Wherever the step starts, it can fail with such faults only. -/
def Blames (P : Fault → Prop) (step : StateT σ Lowered α) : Prop :=
  ∀ state, (step.run state).Blames P

theorem blames_pure (value : α) : Blames P (pure value : StateT σ Lowered α) :=
  fun _ => Lowered.blames_pure _

theorem blames_get : Blames P (get : StateT σ Lowered σ) := fun _ => Lowered.blames_pure _

theorem blames_set (state : σ) : Blames P (set state : StateT σ Lowered PUnit) :=
  fun _ => Lowered.blames_pure _

theorem Blames.bind {step : StateT σ Lowered α} {next : α → StateT σ Lowered β}
    (h : Blames P step) (hnext : ∀ value, Blames P (next value)) : Blames P (step >>= next) := by
  intro state
  rw [StateT.run_bind]
  exact (h state).bind fun result => hnext result.1 result.2

theorem blames_lift {computed : Lowered α} (h : computed.Blames P) :
    Blames P (liftM computed : StateT σ Lowered α) := by
  intro state
  change Lowered.Blames P (computed >>= fun value => pure (value, state))
  exact h.bind fun _ => Lowered.blames_pure _

end Steps

section Expressions

variable {P : Fault → Prop} {step : Expr → ExprM Expr}

theorem exprs_blames {items : List Expr} (h : ∀ item ∈ items, Blames P (expr step item)) :
    Blames P (exprs step items) := by
  induction items with
  | nil => exact blames_pure _
  | cons item rest ih =>
    exact (h item (by simp)).bind fun _ =>
      (ih fun other hm => h other (by simp [hm])).bind fun _ => blames_pure _

theorem expr_blames (h : ∀ value, Blames P (step value)) (value : Expr) :
    Blames P (expr step value) := by
  induction value using Expr.ind with
  | ident span name => exact h _
  | thisRef span => exact h _
  | literal span value => exact h _
  | property span object name hObject => exact hObject.bind fun _ => h _
  | call span callee typeArgs args hCallee hArgs =>
    exact hCallee.bind fun _ => (exprs_blames hArgs).bind fun _ => h _
  | new span target args hArgs => exact (exprs_blames hArgs).bind fun _ => h _
  | binary span op left right hLeft hRight => exact hLeft.bind fun _ => hRight.bind fun _ => h _
  | unary span op operand hOperand => exact hOperand.bind fun _ => h _
  | paren span inner hInner => exact hInner.bind fun _ => h _
  | comma span items hItems => exact (exprs_blames hItems).bind fun _ => h _
  | receiverCall span owner method args hArgs => exact (exprs_blames hArgs).bind fun _ => h _

end Expressions

section Statements

variable {α β : Type} {I : Locals → Prop} {P : Fault → Prop}

/-- From bindings that meet the condition the step comes to such bindings again, or it fails with
such a fault. -/
def Stays (I : Locals → Prop) (P : Fault → Prop) (step : StmtM α) : Prop :=
  ∀ point : Point, I point.locals → (step.run point).Ends P fun result => I result.2.locals

theorem stays_pure (value : α) : Stays I P (pure value) := fun _ hpoint => ends_pure hpoint

theorem stays_set {point : Point} (h : I point.locals) : Stays I P (set point) :=
  fun _ _ => ends_pure h

theorem stays_modify {change : Point → Point}
    (h : ∀ point, I point.locals → I (change point).locals) : Stays I P (modify change) :=
  fun point hpoint => ends_pure (h point hpoint)

theorem stays_lift {computed : Lowered α} (h : computed.Blames P) :
    Stays I P (liftM computed : StmtM α) := by
  intro point hpoint
  change Lowered.Ends P _ (computed >>= fun value => pure (value, point))
  exact h.ends.bind fun _ _ => ends_pure hpoint

theorem Stays.bind {step : StmtM α} {next : α → StmtM β} (h : Stays I P step)
    (hnext : ∀ value, Stays I P (next value)) : Stays I P (step >>= next) := by
  intro point hpoint
  rw [StateT.run_bind]
  exact (h point hpoint).bind fun result hresult => hnext result.1 result.2 hresult

/-- What follows a look at the point reached may rely on the bindings there. -/
theorem stays_bind_get {next : Point → StmtM β}
    (hnext : ∀ point : Point, I point.locals → Stays I P (next point)) :
    Stays I P (get >>= next) := fun point hpoint => hnext point hpoint point hpoint

variable {model : Model} {visit : Visit}
  (hvisit : ∀ locals value, I locals → Blames P (visit locals value))

include hvisit

theorem atPoint_stays (value : Expr) : Stays I P (atPoint visit value) := by
  refine stays_bind_get fun point hpoint => ?_
  have hvalue (inner : Expr) : Blames P (visit point.locals inner) := hvisit _ inner hpoint
  refine (stays_lift (expr_blames hvalue value _)).bind fun result => ?_
  refine Stays.bind (stays_set ?_) fun _ => stays_pure _
  exact hpoint

theorem atPointOption_stays (value : Option Expr) : Stays I P (atPointOption visit value) := by
  cases value with
  | none => exact stays_pure _
  | some value => exact (atPoint_stays hvisit value).bind fun _ => stays_pure _

variable (hclosed : Locals.Closed model I)
include hclosed

theorem varDecl_stays (decl : VariableDecl) : Stays I P (varDecl model visit decl) := by
  refine (atPointOption_stays hvisit decl.init).bind fun result => ?_
  dsimp only
  split
  · refine (stays_modify fun point hpoint => ?_).bind fun _ => stays_pure _
    exact hclosed.declared _ _ hpoint
  · exact (stays_pure _).bind fun _ => stays_pure _

theorem varDecls_stay (decls : List VariableDecl) : Stays I P (varDecls model visit decls) := by
  induction decls with
  | nil => exact stays_pure _
  | cons decl rest ih =>
    exact (varDecl_stays hvisit hclosed decl).bind fun _ => ih.bind fun _ => stays_pure _

omit hvisit in
theorem Stays.inFrame {step : StmtM α} (h : Stays I P step) (kind : FrameKind) :
    Stays I P (inFrame kind step) := by
  refine stays_bind_get fun outer houter => ?_
  refine (stays_modify fun point hpoint => hclosed.push kind hpoint).bind fun _ => ?_
  refine h.bind fun _ => Stays.bind ?_ fun _ => stays_pure _
  exact stays_modify fun _ _ => houter

omit hvisit hclosed in
theorem stmts_stay_of_forall {body : List Stmt}
    (h : ∀ statement ∈ body, Stays I P (stmt model visit statement)) :
    Stays I P (stmts model visit body) := by
  induction body with
  | nil => exact stays_pure _
  | cons first rest ih =>
    exact (h first (by simp)).bind fun _ =>
      (ih fun other hm => h other (by simp [hm])).bind fun _ => stays_pure _

theorem stmt_stays (statement : Stmt) : Stays I P (stmt model visit statement) := by
  induction statement using Stmt.ind with
  | vars span kind decls =>
    exact (varDecls_stay hvisit hclosed decls).bind fun _ => stays_pure _
  | expr span value => exact (atPoint_stays hvisit value).bind fun _ => stays_pure _
  | ret span value => exact (atPointOption_stays hvisit value).bind fun _ => stays_pure _
  | ifElse span condition thenBranch elseBranch hThen hElse =>
    have helse : Stays I P (elseStmt model visit elseBranch) := by
      cases elseBranch with
      | none => exact stays_pure _
      | some branch =>
        exact ((hElse branch rfl).inFrame hclosed .block).bind fun _ => stays_pure _
    exact (atPoint_stays hvisit condition).bind fun _ =>
      (hThen.inFrame hclosed .block).bind fun _ => helse.bind fun _ => stays_pure _
  | loop span condition body hBody =>
    exact (atPoint_stays hvisit condition).bind fun _ =>
      (hBody.inFrame hclosed .loop).bind fun _ => stays_pure _
  | brk span => exact stays_pure _
  | cont span => exact stays_pure _
  | block span body hBody =>
    exact ((stmts_stay_of_forall hBody).inFrame hclosed .block).bind fun _ => stays_pure _
  | staged span before body hBefore hBody =>
    exact (stmts_stay_of_forall hBefore).bind fun _ => hBody.bind fun _ => stays_pure _

/-- A walk fails only as its visits do, at bindings that it comes to. -/
theorem body_blames {locals : Locals} (hlocals : I locals) (statements : List Stmt) :
    (body model visit locals statements).Blames P := by
  have hwalk : Stays I P (stmts model visit statements) :=
    stmts_stay_of_forall fun statement _ => stmt_stays hvisit hclosed statement
  exact blames_map.mpr (hwalk ⟨locals, 1⟩ hlocals).blames

end Statements

end Walk

section Run

variable {P : Fault → Prop} (hP : ∀ cause : Fault, cause.Expected → P cause)
include hP

theorem owningClass_blames (model : Model) (method : String) (span : Span) (type : Ty) :
    (Receiver.owningClass model method span type).Blames P := by
  induction type with
  | pointer inner ih => exact ih
  | classTy name =>
    unfold Receiver.owningClass
    split <;> exact blames_ok _
  | interfaceTy name =>
    unfold Receiver.owningClass
    split
    · split <;> simp [hP]
    · exact blames_ok _
  | _ => exact blames_ok _

theorem receiverArgument_blames (model : Model) (owner : String) (object : Expr) (type : Ty) :
    (Receiver.argument model owner object type).Blames P := by
  have haddress : (Receiver.addressOf model object).Blames P := by
    refine Lowered.Blames.bind ?_ fun _ => blames_pure _
    unfold Receiver.builtinCallee
    split <;> simp [hP]
  unfold Receiver.argument
  split
  · exact blames_ok _
  · exact blames_ok _
  · split
    · exact blames_ok _
    · exact haddress
  · exact haddress

theorem injectCall_blames (model : Model) (locals : Locals) (value : Expr) :
    (Receiver.injectCall model locals value).Blames P := by
  unfold Receiver.injectCall
  split
  · split
    · exact blames_ok _
    · refine (owningClass_blames hP model _ _ _).bind fun owner => ?_
      cases owner with
      | none => exact blames_pure _
      | some owner =>
        exact (receiverArgument_blames hP model owner _ _).bind fun _ => blames_pure _
  · exact blames_ok _

theorem materializeCall_blames (model : Model) (locals : Locals) (value : Expr) :
    Walk.Blames P (Address.materializeCall model locals value) := by
  unfold Address.materializeCall
  split
  · split
    · split
      · rename_i operand _ _ _
        have hfault : (failAt operand.span .untypedTemporary : Lowered Expr).Blames P := by
          simp [hP]
        exact Walk.blames_lift hfault
      · exact Walk.blames_get.bind fun _ => (Walk.blames_set _).bind fun _ => Walk.blames_pure _
    · exact Walk.blames_pure _
  · exact Walk.blames_pure _

theorem passes_blames (passes : PassSet) (model : Model) (policy : DestructorPolicy)
    (locals : Locals) (body : List Stmt) :
    (passes.run model policy locals body).Blames P := by
  have hclosed := Locals.closed_true model
  unfold PassSet.run
  induction passes.toList generalizing body with
  | nil => exact blames_pure _
  | cons pass rest ih =>
    rw [List.foldlM_cons]
    refine Lowered.Blames.bind ?_ ih
    cases pass with
    | destructors => exact blames_ok _
    | receiver =>
      exact Walk.body_blames (fun locals value _ =>
        Walk.blames_lift (injectCall_blames hP model locals value)) hclosed trivial body
    | materialize =>
      exact Walk.body_blames (fun locals value _ => materializeCall_blames hP model locals value)
        hclosed trivial body

/-! ## Statements -/

namespace Emit

section Statements

variable {cx : Context} {spell : Spell} {I : Locals → Prop} {Q : Expr → Prop}
  (hspell : ∀ locals value, I locals → Q value → (spell locals value).Blames P)
  (hclosed : Locals.Closed cx.model I)
include hspell hclosed

theorem variableDecl_ends (depth : Nat) (kind : VariableKind) {locals : Locals} (hlocals : I locals)
    {decl : VariableDecl} (hdecl : decl.All Q fun _ _ => True) :
    (Draft.variableDecl cx spell depth kind locals decl).Ends P fun draft => I draft.locals := by
  have hname : (variableName decl).Blames P := by
    unfold variableName
    split <;> simp [hP]
  have htype (name : String) : (variableType decl name).Blames P := by
    unfold variableType
    split <;> simp [hP]
  have hinitial : (Draft.initial spell locals decl.init).Blames P := by
    cases hinit : decl.init with
    | none => exact blames_ok _
    | some init => exact blames_map.mpr (hspell locals init hlocals (hdecl.2 init hinit))
  refine hname.ends.bind fun name _ => (htype name).ends.bind fun node _ => ?_
  refine (typePiece_blames hP node).ends.bind fun type _ => hinitial.ends.bind fun value _ => ?_
  refine ends_pure ?_
  split <;> exact hclosed.annotated name node hlocals

theorem variableDecls_end (depth : Nat) (kind : VariableKind) {decls : List VariableDecl}
    (hdecls : ∀ decl ∈ decls, decl.All Q fun _ _ => True) : ∀ {locals : Locals}, I locals →
    (Draft.variableDecls cx spell depth kind locals decls).Ends P fun draft => I draft.locals := by
  induction decls with
  | nil => exact fun hlocals => ends_pure hlocals
  | cons decl rest ih =>
    intro locals hlocals
    refine (variableDecl_ends hP hspell hclosed depth kind hlocals (hdecls decl (by simp))).bind
      fun first hfirst => ?_
    exact (ih (fun other hm => hdecls other (by simp [hm])) hfirst).bind fun _ hlast =>
      ends_pure hlast

omit hP hclosed in
theorem head_ends (depth : Nat) {locals : Locals} (hlocals : I locals) (word : String)
    {condition : Expr} (hcondition : Q condition) :
    (Draft.head cx spell depth locals word condition).Ends P fun draft => I draft.locals :=
  (hspell locals condition hlocals hcondition).ends.bind fun _ _ => ends_pure hlocals

omit hP hspell hclosed in
theorem branch_ends {depth : Nat} {locals : Locals} (hlocals : I locals) {branch : Stmt}
    {asBlock asSingle : Lowered Draft} (hblock : asBlock.Ends P fun draft => I draft.locals)
    (hsingle : asSingle.Ends P fun draft => I draft.locals) :
    (Draft.branch cx depth locals branch asBlock asSingle).Ends P fun draft => I draft.locals := by
  unfold Draft.branch
  split
  · exact hblock
  · exact hsingle.map fun _ _ => hlocals

omit hP hspell hclosed in
theorem stmts_end_of_forall {body : List Stmt}
    (h : ∀ stmt ∈ body, ∀ (depth : Nat) (locals : Locals), I locals →
      (Draft.content cx spell depth locals stmt).Ends P fun draft => I draft.locals) :
    ∀ (depth : Nat) {locals : Locals}, I locals →
      (Draft.stmts cx spell depth locals body).Ends P fun draft => I draft.locals := by
  induction body with
  | nil =>
    intro depth locals hlocals
    exact ends_pure hlocals
  | cons first rest ih =>
    intro depth locals hlocals
    refine (h first (by simp) 0 locals hlocals).bind fun one hone => ?_
    refine (ih (fun other hm => h other (by simp [hm])) depth hone).bind fun last hlast => ?_
    have hwhole : I ((one.statement cx.layout depth).andThen last).locals := by
      rw [Draft.andThen_locals]
      exact hlast
    exact ends_pure hwhole

/-- Writing a statement fails only as the spelling of its expressions does, at bindings that it
comes to, or with an expected fault. -/
theorem content_ends (stmt : Stmt) : stmt.All Q (fun _ _ => True) →
    ∀ (depth : Nat) (locals : Locals), I locals →
      (Draft.content cx spell depth locals stmt).Ends P fun draft => I draft.locals := by
  induction stmt using Stmt.ind with
  | vars span kind decls =>
    exact fun hall depth locals hlocals =>
      variableDecls_end hP hspell hclosed depth kind hall hlocals
  | expr span value =>
    intro hall depth locals hlocals
    exact (hspell locals value hlocals hall).ends.bind fun _ _ => ends_pure hlocals
  | ret span value =>
    intro hall depth locals hlocals
    cases value with
    | none => exact ends_pure hlocals
    | some value =>
      exact (hspell locals value hlocals (hall value rfl)).ends.bind fun _ _ => ends_pure hlocals
  | brk span => exact fun _ _ _ hlocals => ends_pure hlocals
  | cont span => exact fun _ _ _ hlocals => ends_pure hlocals
  | ifElse span condition thenBranch elseBranch hThen hElse =>
    intro hall depth locals hlocals
    obtain ⟨hcondition, hthen, helse⟩ := hall
    refine (head_ends hspell depth hlocals "if" hcondition).bind fun _ _ => ?_
    have hinside {branch : Stmt} (h : ∀ (depth : Nat) (locals : Locals), I locals →
        (Draft.content cx spell depth locals branch).Ends P fun draft => I draft.locals) :
        (Draft.branch cx depth locals branch (Draft.content cx spell depth locals branch)
          (Draft.content cx spell 0 (locals.push .block) branch)).Ends P
            fun draft => I draft.locals :=
      branch_ends hlocals (h depth locals hlocals) (h 0 _ (hclosed.push .block hlocals))
    refine (hinside (hThen hthen)).bind fun _ _ => Lowered.Ends.bind ?_ fun _ hlast =>
      ends_pure hlast
    cases elseBranch with
    | none => exact ends_pure hlocals
    | some branch =>
      exact (hinside (hElse branch rfl helse)).bind fun _ hlast => ends_pure hlast
  | loop span condition body hBody =>
    intro hall depth locals hlocals
    refine (head_ends hspell depth hlocals "while" hall.1).bind fun _ _ => ?_
    exact (branch_ends hlocals (hBody hall.2 depth locals hlocals)
      (hBody hall.2 0 _ (hclosed.push .loop hlocals))).bind fun _ hlast => ends_pure hlast
  | block span body hBody =>
    intro hall depth locals hlocals
    have hstmts := Stmt.allList_iff.mp hall
    refine (stmts_end_of_forall (fun stmt hm => hBody stmt hm (hstmts stmt hm)) (depth + 1)
      (hclosed.push .block hlocals)).bind fun _ _ => ends_pure hlocals
  | staged span before body hBefore hBody =>
    intro hall depth locals hlocals
    have hstmts := Stmt.allList_iff.mp hall.1
    refine (stmts_end_of_forall (fun stmt hm => hBefore stmt hm (hstmts stmt hm)) 0 hlocals).bind
      fun first hfirst => ?_
    exact (hBody hall.2 depth _ hfirst).bind fun _ hlast => ends_pure hlast

end Statements

end Emit

end Run

end NativeLowering
