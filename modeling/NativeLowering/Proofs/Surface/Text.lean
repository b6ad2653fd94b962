import NativeLowering.Proofs.Emit.ExprText
import NativeLowering.Proofs.Receiver.Word
import NativeLowering.Proofs.Surface.Spared

/-!
# Texts with an addition

An expression that spares an addition and can be written has the same text with the addition
(`exprText_below`). It may be that it can be written only with the addition: a name that is not known
without it need not be spared. So the texts are compared in one direction only (`Below`).
-/

set_option autoImplicit false

namespace NativeLowering

/-- If the first computation succeeds, the second does so with the same result. -/
def Below {α : Type} (computed computed' : Lowered α) : Prop :=
  ∀ value, computed = .ok value → computed' = .ok value

namespace Below

variable {α β : Type}

theorem refl (computed : Lowered α) : Below computed computed := fun _ h => h

theorem fail (span : Span) (fault : Fault) (computed : Lowered α) :
    Below (failAt span fault) computed := by
  intro value h
  cases h

theorem bind {first first' : Lowered α} {next next' : α → Lowered β} (h : Below first first')
    (hnext : ∀ value, Below (next value) (next' value)) :
    Below (first >>= next) (first' >>= next') := by
  intro value hrun
  obtain ⟨middle, hfirst, hrest⟩ := Lowered.bind_eq_ok.mp hrun
  exact Lowered.bind_eq_ok.mpr ⟨middle, h middle hfirst, hnext middle value hrest⟩

theorem map {first first' : Lowered α} (h : Below first first') (change : α → β) :
    Below (first.map change) (first'.map change) := by
  intro value hrun
  obtain ⟨middle, hfirst, rfl⟩ := Lowered.map_eq_ok.mp hrun
  rw [h middle hfirst]
  rfl

end Below

namespace Addition.Extended

variable {added : Addition} {model model' : Model} {thisCalled : Prop} {options : Options}

section Parts

variable (h : added.Extended model model')
include h

/-! ## Names and members -/

theorem typePiece_same {node : TypeNode} (hnode : added.SparesType node) :
    (Context.mk model' options).typePiece node = (Context.mk model options).typePiece node := by
  unfold Context.typePiece typeText
  rw [h.typeTextWith_same _ .owned node hnode]
  rfl

section Pieces

variable {locals locals' : Locals} (hlocals : Locals.Same added locals locals')

include hlocals

omit h in
theorem requireThis_below (span : Span) :
    Below (requireThis locals span) (requireThis locals' span) := by
  unfold requireThis
  rw [hlocals.thisClass]
  exact .refl _

theorem identText_below (name : String) (span : Span) :
    Below (identText ⟨model, options⟩ locals name span)
      (identText ⟨model', options⟩ locals' name span) := by
  rw [identText_eq, identText_eq]
  rw [hlocals.binds]
  split
  · exact .refl _
  · cases hknown : model.resolve? name with
    | none => exact .fail _ _ _
    | some symbol =>
      rw [h.resolve? hknown]
      exact .refl _

omit hlocals in
theorem separator_below {type type' : Ty} (htype : Ty.Same added type type') (member : String)
    (span : Span) :
    Below (separator ⟨model, options⟩ type member span)
      (separator ⟨model', options⟩ type' member span) := by
  rcases htype with ⟨heq, hspares⟩ | ⟨hblank, -⟩
  · rw [heq]
    cases type with
    | classTy name =>
      simp only [separator, h.classInfo?_of_spares hspares.1]
      exact .refl _
    | _ => exact .refl _
  · cases type <;> cases hblank <;> exact .fail _ _ _

omit h in
theorem instanceMemberText_below (member : String) (span : Span) :
    Below (instanceMemberText ⟨model, options⟩ locals member span)
      (instanceMemberText ⟨model', options⟩ locals' member span) :=
  (requireThis_below hlocals span).bind fun _ => .refl _

theorem memberText_below (object : Expr) {type type' : Ty} (htype : Ty.Same added type type')
    (member : String) (span : Span) {text text' : Lowered String} (htext : Below text text') :
    Below (memberText ⟨model, options⟩ locals object type member span text)
      (memberText ⟨model', options⟩ locals' object type' member span text') := by
  unfold memberText
  split
  · exact instanceMemberText_below hlocals member span
  · exact (h.separator_below htype member span).bind fun _ => htext.bind fun _ => .refl _

omit hlocals in
theorem moduleMemberText_below (specifier member : String) (span : Span) :
    Below (moduleMemberText ⟨model, options⟩ specifier member span)
      (moduleMemberText ⟨model', options⟩ specifier member span) := by
  rw [moduleMemberText_eq, moduleMemberText_eq]
  cases hknown : model.module? specifier with
  | none => exact .fail _ _ _
  | some ambient =>
    rw [h.module? hknown]
    exact .refl _

variable [model.Typed] [model'.Typed]

theorem propertyText_below {object : Expr} (hobject : added.SparesExpr thisCalled object)
    (name : String) (span : Span) {text text' : Lowered String} (htext : Below text text') :
    Below (propertyText ⟨model, options⟩ locals object name span text)
      (propertyText ⟨model', options⟩ locals' object name span text') := by
  have htype := h.typeOf_same hlocals object hobject
  by_cases hmodule : ∃ specifier, model.typeOf locals object = .moduleTy specifier
  · obtain ⟨specifier, hmodule⟩ := hmodule
    have hmodule' : model'.typeOf locals' object = .moduleTy specifier := by
      rcases htype with ⟨heq, -⟩ | ⟨hblank, -⟩
      · rw [heq, hmodule]
      · rw [hmodule] at hblank
        cases hblank
    simp only [propertyText, hmodule, hmodule']
    split
    · exact instanceMemberText_below hlocals name span
    · exact h.moduleMemberText_below specifier name span
  · have hother : ∀ specifier, model.typeOf locals object ≠ .moduleTy specifier := by
      intro specifier heq
      exact hmodule ⟨specifier, heq⟩
    have hother' : ∀ specifier, model'.typeOf locals' object ≠ .moduleTy specifier := by
      intro specifier heq
      rcases htype with ⟨hsame, -⟩ | ⟨-, hblank⟩
      · exact hother specifier (hsame.symm.trans heq)
      · rw [heq] at hblank
        cases hblank
    rw [propertyText_member (.inr hother), propertyText_member (.inr hother')]
    exact h.memberText_below hlocals object htype name span htext

end Pieces

/-! ## Calls -/

theorem sizeText_below {typeArgs : List TypeNode} (htypes : added.SparesTypes typeArgs) (span : Span)
    (args : List Expr) {texts texts' : Lowered (List String)} (htexts : Below texts texts') :
    Below (sizeText ⟨model, options⟩ span typeArgs args texts)
      (sizeText ⟨model', options⟩ span typeArgs args texts') := by
  unfold sizeText
  split
  · rename_i node
    unfold typeText
    rw [h.typeTextWith_same _ .owned node htypes.1]
    exact .refl _
  · exact htexts.map _
  · exact .refl _

theorem functionCallText_below (name : String) (span : Span) {typeArgs : Option (List TypeNode)}
    (htypes : added.SparesTypes (typeArgs.getD [])) (args : List Expr)
    {texts texts' : Lowered (List String)} (htexts : Below texts texts') :
    Below (functionCallText ⟨model, options⟩ name span typeArgs args texts)
      (functionCallText ⟨model', options⟩ name span typeArgs args texts') := by
  unfold functionCallText
  cases hknown : model.resolve? name with
  | none => exact .fail _ _ _
  | some symbol =>
    rw [h.resolve? hknown]
    dsimp only
    cases symbol.function? with
    | none => exact .fail _ _ _
    | some info =>
      dsimp only
      split
      · unfold addressText
        split
        · split
          · exact htexts.map _
          · exact .fail _ _ _
        · exact .fail _ _ _
      · exact h.sizeText_below htypes span args htexts
      · unfold plainCallText
        split
        · exact .fail _ _ _
        · exact htexts.map _
      · unfold plainCallText
        split
        · exact .fail _ _ _
        · exact htexts.map _
      · unfold conversionText
        split
        · exact htexts.map _
        · exact .fail _ _ _

theorem newText_below {target : Expr} (span : Span) {texts texts' : Lowered (List String)}
    (htexts : Below texts texts') :
    Below (newText ⟨model, options⟩ target span texts)
      (newText ⟨model', options⟩ target span texts') := by
  unfold newText
  split
  · rename_i name
    cases hknown : model.class? name with
    | none => exact .fail _ _ _
    | some found =>
      rw [h.class? hknown]
      exact htexts.bind fun _ => .refl _
  · exact .fail _ _ _

section Locals

variable [model.Typed] [model'.Typed] {locals locals' : Locals}
  (hlocals : Locals.Same added locals locals')

include hlocals

theorem methodCallText_below {object : Expr} (hobject : added.SparesExpr thisCalled object)
    (name : String) (span : Span) {text text' : Lowered String} (htext : Below text text')
    {texts texts' : Lowered (List String)} (htexts : Below texts texts') :
    Below (methodCallText ⟨model, options⟩ locals object name span text texts)
      (methodCallText ⟨model', options⟩ locals' object name span text' texts') := by
  have hordinary : Below
      (propertyText ⟨model, options⟩ locals object name span text >>= fun callee =>
        texts >>= fun texts => pure (callee ++ argList texts))
      (propertyText ⟨model', options⟩ locals' object name span text' >>= fun callee =>
        texts' >>= fun texts => pure (callee ++ argList texts)) :=
    (h.propertyText_below hlocals hobject name span htext).bind fun _ => htexts.bind fun _ => .refl _
  have hmember (type : Ty) (hspares : added.SparesTy type) (member : String) : Below
      (memberText ⟨model, options⟩ locals object type member span text >>= fun callee =>
        pure (callee ++ "()"))
      (memberText ⟨model', options⟩ locals' object type member span text' >>= fun callee =>
        pure (callee ++ "()")) :=
    (h.memberText_below hlocals object (.inl ⟨rfl, hspares⟩) member span htext).bind
      fun _ => .refl _
  unfold methodCallText
  dsimp only
  rcases h.typeOf_same hlocals object hobject with ⟨heq, hspares⟩ | ⟨hblank, hblank'⟩
  · rw [heq]
    cases htype : model.typeOf locals object with
    | classTy owner =>
      rw [htype] at hspares
      dsimp only
      rw [h.class?_of_spares hspares.1]
      cases model.class? owner with
      | none => exact .fail _ _ _
      | some found =>
        dsimp only
        split
        · exact hmember _ hspares _
        · split
          · exact .fail _ _ _
          · exact hordinary
    | moduleTy specifier =>
      rw [htype] at hspares
      dsimp only
      rw [h.exportedFunction?_of_spares hspares]
      split
      · exact hordinary
      · exact .fail _ _ _
    | interfaceTy => exact .fail _ _ _
    | named | primitive | pointer | function | unknown => exact hordinary
  · cases htype : model.typeOf locals object <;> rw [htype] at hblank <;> cases hblank <;>
      cases htype' : model'.typeOf locals' object <;> rw [htype'] at hblank' <;> cases hblank' <;>
      exact hordinary

theorem isSharedHandle_same {value : Expr} (hvalue : added.SparesExpr thisCalled value) :
    isSharedHandle ⟨model', options⟩ locals' value
      = isSharedHandle ⟨model, options⟩ locals value := by
  unfold isSharedHandle
  dsimp only
  rcases h.typeOf_same hlocals value hvalue with ⟨heq, hspares⟩ | ⟨hblank, hblank'⟩
  · rw [heq]
    cases htype : model.typeOf locals value with
    | classTy name =>
      rw [htype] at hspares
      exact h.isSharedClass_of_spares hspares.1
    | _ => rfl
  · cases htype : model.typeOf locals value <;> rw [htype] at hblank <;> cases hblank <;>
      cases htype' : model'.typeOf locals' value <;> rw [htype'] at hblank' <;> cases hblank'

theorem receiverCallText_below (owner method : String) {args : List Expr}
    (hargs : added.SparesExprs thisCalled args) (span : Span)
    {texts texts' : Lowered (List String)} (htexts : Below texts texts') :
    Below (receiverCallText ⟨model, options⟩ locals owner method args span texts)
      (receiverCallText ⟨model', options⟩ locals' owner method args span texts') := by
  unfold receiverCallText
  cases hknown : model.class? owner with
  | none => exact .fail _ _ _
  | some found =>
    rw [h.class? hknown]
    cases args with
    | nil => exact .fail _ _ _
    | cons receiver rest =>
      dsimp only
      rw [h.isSharedHandle_same hlocals hargs.1]
      exact htexts.bind fun _ => .refl _

end Locals

end Parts

/-! ## Expressions -/

section Expressions

variable {locals locals' : Locals}

mutual

theorem exprText_below [model.Typed] [model'.Typed] (h : added.Extended model model')
    (hlocals : Locals.Same added locals locals') :
    ∀ value : Expr, added.SparesExpr thisCalled value →
    Below (exprText ⟨model, options⟩ locals value) (exprText ⟨model', options⟩ locals' value)
  | .ident span name, _ => by
    rw [exprText, exprText]
    exact h.identText_below hlocals name span
  | .thisRef span, _ => by
    rw [exprText, exprText]
    exact (requireThis_below hlocals span).bind fun _ => .refl _
  | .literal span value, _ => by
    rw [exprText, exprText]
    exact .refl _
  | .property span object name, hvalue => by
    have hobject : added.SparesExpr thisCalled object := hvalue
    rw [exprText, exprText]
    exact h.propertyText_below hlocals hobject name span (exprText_below h hlocals object hobject)
  | .call span callee typeArgs args, hvalue => by
    obtain ⟨⟨-, htypes⟩, hspares, hargs⟩ := hvalue
    have htexts := exprTexts_below h hlocals args hargs
    cases hnamed : callee.isNamed with
    | false =>
      rw [exprText_call _ _ hnamed, exprText_call _ _ hnamed]
      exact (exprText_below h hlocals callee hspares).bind fun _ => htexts.bind fun _ => .refl _
    | true =>
      cases callee with
      | ident place name =>
        rw [exprText, exprText, hlocals.binds]
        split
        · exact htexts.bind fun _ => .refl _
        · exact h.functionCallText_below name span htypes args htexts
      | property place object name =>
        have hobject : added.SparesExpr thisCalled object := hspares
        rw [exprText, exprText]
        exact h.methodCallText_below hlocals hobject name span
          (exprText_below h hlocals object hobject) htexts
      | _ => cases hnamed
  | .new span target args, hvalue => by
    rw [exprText, exprText]
    exact h.newText_below span (exprTexts_below h hlocals args hvalue.2)
  | .binary span op left right, hvalue => by
    rw [exprText, exprText]
    exact (exprText_below h hlocals left hvalue.1).bind fun _ =>
      (exprText_below h hlocals right hvalue.2).bind fun _ => .refl _
  | .unary span op operand, hvalue => by
    rw [exprText, exprText]
    exact (exprText_below h hlocals operand hvalue).bind fun _ => .refl _
  | .paren span inner, hvalue => by
    rw [exprText, exprText]
    exact (exprText_below h hlocals inner hvalue).bind fun _ => .refl _
  | .comma span items, hvalue => by
    rw [exprText, exprText]
    exact (exprTexts_below h hlocals items hvalue).bind fun _ => .refl _
  | .receiverCall span owner method args, hvalue => by
    rw [exprText, exprText]
    exact h.receiverCallText_below hlocals owner method hvalue.2 span
      (exprTexts_below h hlocals args hvalue.2)

theorem exprTexts_below [model.Typed] [model'.Typed] (h : added.Extended model model')
    (hlocals : Locals.Same added locals locals') :
    ∀ items : List Expr, added.SparesExprs thisCalled items →
    Below (exprTexts ⟨model, options⟩ locals items) (exprTexts ⟨model', options⟩ locals' items)
  | [], _ => .refl _
  | item :: rest, hitems => by
    rw [exprTexts, exprTexts]
    exact (exprText_below h hlocals item hitems.1).bind fun _ =>
      (exprTexts_below h hlocals rest hitems.2).bind fun _ => .refl _

end

end Expressions

end Addition.Extended

end NativeLowering
