import NativeLowering.Proofs.Parens.Basic

/-!
# Texts with more parentheses

An expression with more parentheses is written exactly if the expression is, and then with the same
text but for the parentheses (`exprText_encloses`).
-/

set_option autoImplicit false

namespace NativeLowering

/-! ## In correspondence -/

namespace Lowered

variable {α β γ δ : Type} {R : α → β → Prop} {S : γ → δ → Prop}

/-- Both computations have results, which are related, or both fail with the same message. -/
inductive Corresponds (R : α → β → Prop) : Lowered α → Lowered β → Prop
  | ok {value : α} {value' : β} : R value value' → Corresponds R (.ok value) (.ok value')
  | error {e e' : LoweringError} : e'.message = e.message → Corresponds R (.error e) (.error e')

namespace Corresponds

theorem fail (span span' : Span) (cause : Fault) :
    Corresponds R (failAt span cause) (failAt span' cause) := .error rfl

theorem bind {first : Lowered α} {first' : Lowered β} {next : α → Lowered γ} {next' : β → Lowered δ}
    (h : Corresponds R first first')
    (hnext : ∀ value value', R value value' → Corresponds S (next value) (next' value')) :
    Corresponds S (first >>= next) (first' >>= next') := by
  cases h with
  | ok hvalue => exact hnext _ _ hvalue
  | error hmessage => exact .error hmessage

theorem map {computed : Lowered α} {computed' : Lowered β} (h : Corresponds R computed computed')
    {change : α → γ} {change' : β → δ}
    (hchange : ∀ value value', R value value' → S (change value) (change' value')) :
    Corresponds S (computed.map change) (computed'.map change') := by
  cases h with
  | ok hvalue => exact .ok (hchange _ _ hvalue)
  | error hmessage => exact .error hmessage

/-- A computation corresponds to itself. -/
theorem refl {R : α → α → Prop} (hR : ∀ value, R value value) (computed : Lowered α) :
    Corresponds R computed computed := by
  cases computed with
  | ok value => exact .ok (hR value)
  | error e => exact .error rfl

end Corresponds

end Lowered

open Lowered (Corresponds)

/-! ## Texts -/

/-- The second text is the first with more parentheses, each closed where it is opened. -/
inductive Parenthesized : String → String → Prop
  | same (text : String) : Parenthesized text text
  | append {first first' second second' : String} : Parenthesized first first' →
      Parenthesized second second' → Parenthesized (first ++ second) (first' ++ second')
  | wrap {text text' : String} : Parenthesized text text' → Parenthesized text ("(" ++ text' ++ ")")

/-- The characters of a text that are no parentheses. -/
def unparenthesized (text : String) : List Char := text.toList.filter fun c => c != '(' && c != ')'

/-- Nothing but parentheses differs. -/
theorem Parenthesized.unparenthesized_eq {text text' : String} (h : Parenthesized text text') :
    unparenthesized text' = unparenthesized text := by
  induction h with
  | same text => rfl
  | append _ _ ihfirst ihsecond =>
    unfold unparenthesized at *
    rw [String.toList_append, String.toList_append, List.filter_append, List.filter_append, ihfirst,
      ihsecond]
  | wrap _ ih =>
    unfold unparenthesized at *
    rw [← ih]
    simp

section Texts

variable {cx : Context} {locals : Locals} {texts texts' : List String} {span span' : Span}

theorem commaList_parenthesized (h : List.Forall₂ Parenthesized texts texts') :
    Parenthesized (commaList texts) (commaList texts') := by
  induction h with
  | nil => exact .same _
  | cons hfirst hrest ih =>
    cases hrest with
    | nil => simpa [commaList] using hfirst
    | cons =>
      unfold commaList at ih ⊢
      rw [String.intercalate_cons_cons, String.intercalate_cons_cons]
      exact (hfirst.append (.same _)).append ih

theorem argList_parenthesized (h : List.Forall₂ Parenthesized texts texts') :
    Parenthesized (argList texts) (argList texts') :=
  ((Parenthesized.same _).append (commaList_parenthesized h)).append (.same _)

/-! ### Names and members -/

theorem identText_corresponds (name : String) :
    Corresponds Parenthesized (identText cx locals name span) (identText cx locals name span') := by
  rw [identText_eq, identText_eq]
  split
  · exact .ok (.same _)
  · cases cx.model.resolve? name with
    | none => exact .fail ..
    | some symbol =>
      dsimp only
      split
      · exact .ok (.same _)
      · exact .ok (.same _)
      · exact .fail ..

theorem requireThis_corresponds :
    Corresponds (fun _ _ => True) (requireThis locals span) (requireThis locals span') := by
  unfold requireThis
  split
  · exact .ok trivial
  · exact .fail ..

theorem separator_corresponds (owner : Ty) (member : String) :
    Corresponds Eq (separator cx owner member span) (separator cx owner member span') := by
  unfold separator
  split
  · split
    · exact .fail ..
    · split
      · exact .ok rfl
      · exact .ok rfl
  · exact .ok rfl
  · exact .ok rfl
  · exact .ok rfl
  · exact .fail ..
  · exact .fail ..
  · exact .fail ..
  · exact .fail ..

variable {object object' : Expr} {objectText objectText' : Lowered String}

theorem instanceMemberText_corresponds (member : String) :
    Corresponds Parenthesized (instanceMemberText cx locals member span)
      (instanceMemberText cx locals member span') :=
  requireThis_corresponds.bind fun _ _ _ => .ok (.same _)

theorem memberText_corresponds (hthis : object'.isThis = object.isThis)
    (hobject : Corresponds Parenthesized objectText objectText') (owner : Ty) (member : String) :
    Corresponds Parenthesized (memberText cx locals object owner member span objectText)
      (memberText cx locals object' owner member span' objectText') := by
  unfold memberText
  rw [hthis]
  split
  · exact instanceMemberText_corresponds member
  · refine (separator_corresponds owner member).bind ?_
    rintro between _ rfl
    exact hobject.bind fun text text' htext => .ok (htext.append (.same _))

theorem moduleMemberText_corresponds (specifier member : String) :
    Corresponds Parenthesized (moduleMemberText cx specifier member span)
      (moduleMemberText cx specifier member span') := by
  rw [moduleMemberText_eq, moduleMemberText_eq]
  split
  · exact .fail ..
  · split
    · exact .fail ..
    · exact .ok (.same _)

theorem propertyText_corresponds (hthis : object'.isThis = object.isThis)
    (htype : cx.model.typeOf locals object' = cx.model.typeOf locals object)
    (hobject : Corresponds Parenthesized objectText objectText') (name : String) :
    Corresponds Parenthesized (propertyText cx locals object name span objectText)
      (propertyText cx locals object' name span' objectText') := by
  unfold propertyText
  rw [hthis, htype]
  split
  · exact instanceMemberText_corresponds ..
  · split
    · exact moduleMemberText_corresponds ..
    · exact memberText_corresponds hthis hobject _ name

/-! ### Calls -/

variable {args args' : List Expr} {argTexts argTexts' : Lowered (List String)}

theorem addressText_corresponds (hargs : List.Forall₂ (Expr.Encloses False) args args')
    (htexts : Corresponds (List.Forall₂ Parenthesized) argTexts argTexts') :
    Corresponds Parenthesized (addressText span args argTexts)
      (addressText span' args' argTexts') := by
  cases hargs with
  | nil => exact .fail ..
  | cons hfirst hrest =>
    cases hrest with
    | nil =>
      simp only [addressText, hfirst.isAddressable]
      split
      · exact htexts.map fun _ _ h => (Parenthesized.same "&").append (commaList_parenthesized h)
      · exact .fail ..
    | cons _ hrest =>
      simp only [addressText, List.length_cons, hrest.length_eq]
      exact .fail ..

theorem sizeText_corresponds (nodes : List TypeNode)
    (hargs : List.Forall₂ (Expr.Encloses False) args args')
    (htexts : Corresponds (List.Forall₂ Parenthesized) argTexts argTexts') :
    Corresponds Parenthesized (sizeText cx span nodes args argTexts)
      (sizeText cx span' nodes args' argTexts') := by
  rcases nodes with _ | ⟨node, _ | ⟨second, more⟩⟩
  · cases hargs with
    | nil => exact .fail ..
    | cons hfirst hrest =>
      cases hrest with
      | nil =>
        simp only [sizeText, hfirst.isAddressable]
        refine htexts.map fun texts texts' h => ?_
        split
        · exact (Parenthesized.same _).append (commaList_parenthesized h)
        · exact (Parenthesized.same _).append (argList_parenthesized h)
      | cons => exact .fail ..
  · cases hargs with
    | nil => exact .refl .same _
    | cons => exact .fail ..
  · exact .fail ..

theorem plainCallText_corresponds (name : String) (symbol : Symbol) (nodes : List TypeNode)
    (htexts : Corresponds (List.Forall₂ Parenthesized) argTexts argTexts') :
    Corresponds Parenthesized (plainCallText cx name symbol span nodes argTexts)
      (plainCallText cx name symbol span' nodes argTexts') := by
  cases nodes with
  | cons => exact .fail ..
  | nil => exact htexts.map fun _ _ h => (Parenthesized.same _).append (argList_parenthesized h)

theorem conversionText_corresponds (builtin : Vocabulary.Builtin)
    (hargs : List.Forall₂ (Expr.Encloses False) args args')
    (htexts : Corresponds (List.Forall₂ Parenthesized) argTexts argTexts') :
    Corresponds Parenthesized (conversionText span builtin args argTexts)
      (conversionText span' builtin args' argTexts') := by
  cases hargs with
  | nil => exact .fail ..
  | cons _ hrest =>
    cases hrest with
    | nil => exact htexts.map fun _ _ h => (Parenthesized.same _).append (argList_parenthesized h)
    | cons _ hrest =>
      simp only [conversionText, List.length_cons, hrest.length_eq]
      exact .fail ..

theorem functionCallText_corresponds (name : String) (typeArgs : Option (List TypeNode))
    (hargs : List.Forall₂ (Expr.Encloses False) args args')
    (htexts : Corresponds (List.Forall₂ Parenthesized) argTexts argTexts') :
    Corresponds Parenthesized (functionCallText cx name span typeArgs args argTexts)
      (functionCallText cx name span' typeArgs args' argTexts') := by
  unfold functionCallText
  split
  · exact .fail ..
  · split
    · exact .fail ..
    · split
      · exact addressText_corresponds hargs htexts
      · exact sizeText_corresponds _ hargs htexts
      · exact plainCallText_corresponds _ _ _ htexts
      · exact plainCallText_corresponds _ _ _ htexts
      · exact conversionText_corresponds _ hargs htexts

/-- A callee with its arguments in parentheses. -/
theorem applied_corresponds {callee callee' : Lowered String}
    (hcallee : Corresponds Parenthesized callee callee')
    (htexts : Corresponds (List.Forall₂ Parenthesized) argTexts argTexts') :
    Corresponds Parenthesized
      (do
        let head ← callee
        let texts ← argTexts
        return head ++ argList texts)
      (do
        let head ← callee'
        let texts ← argTexts'
        return head ++ argList texts) :=
  hcallee.bind fun _ _ hhead => htexts.bind fun _ _ h =>
    .ok (hhead.append (argList_parenthesized h))

theorem methodCallText_corresponds (hthis : object'.isThis = object.isThis)
    (htype : cx.model.typeOf locals object' = cx.model.typeOf locals object)
    (hobject : Corresponds Parenthesized objectText objectText')
    (htexts : Corresponds (List.Forall₂ Parenthesized) argTexts argTexts') (name : String) :
    Corresponds Parenthesized (methodCallText cx locals object name span objectText argTexts)
      (methodCallText cx locals object' name span' objectText' argTexts') := by
  have hproperty : Corresponds Parenthesized
      (propertyText cx locals object name span objectText)
      (propertyText cx locals object' name span' objectText') :=
    propertyText_corresponds hthis htype hobject name
  have hordinary := applied_corresponds hproperty htexts
  unfold methodCallText
  rw [htype]
  dsimp only
  split
  · split
    · exact .fail ..
    · split
      · exact (memberText_corresponds hthis hobject _ _).bind fun _ _ h => .ok (h.append (.same _))
      · split
        · exact .fail ..
        · exact hordinary
  · split
    · exact hordinary
    · exact .fail ..
  · exact .fail ..
  · exact hordinary

/-- Whether the expression is a name. -/
def Expr.isIdent : Expr → Bool
  | .ident .. => true
  | _ => false

theorem newText_corresponds {target target' : Expr} (htarget : target.Encloses False target')
    (hnamed : target'.isNamed = target.isNamed)
    (htexts : Corresponds (List.Forall₂ Parenthesized) argTexts argTexts') :
    Corresponds Parenthesized (newText cx target span argTexts)
      (newText cx target' span' argTexts') := by
  have hcomputed {other : Expr} (h : other.isIdent = false) (span : Span)
      (texts : Lowered (List String)) : newText cx other span texts = failAt span .computedClass := by
    cases other with
    | ident => cases h
    | _ => rfl
  cases target' with
  | ident place name =>
    cases htarget
    unfold newText
    dsimp only
    split
    · exact .fail ..
    · exact htexts.bind fun _ _ h => .ok ((Parenthesized.same _).append (argList_parenthesized h))
  | _ =>
    have hother : target.isIdent = false := by
      cases target with
      | ident => cases htarget <;> cases hnamed
      | _ => rfl
    rw [hcomputed hother, hcomputed rfl]
    exact .fail ..

variable [cx.model.Typed]

theorem receiverCallText_corresponds (owner method : String)
    (hargs : List.Forall₂ (Expr.Encloses False) args args')
    (htexts : Corresponds (List.Forall₂ Parenthesized) argTexts argTexts') :
    Corresponds Parenthesized (receiverCallText cx locals owner method args span argTexts)
      (receiverCallText cx locals owner method args' span' argTexts') := by
  unfold receiverCallText
  split
  · exact .fail ..
  · cases hargs with
    | nil => exact .fail ..
    | cons hfirst hrest =>
      have hhandle : ∀ {value value' : Expr}, value.Encloses False value' →
          isSharedHandle cx locals value' = isSharedHandle cx locals value := fun h => by
        rw [isSharedHandle, isSharedHandle, h.typeOf]
      dsimp only
      rw [hhandle hfirst]
      refine htexts.bind fun texts texts' h => ?_
      cases h with
      | nil => exact .ok (.same _)
      | cons hreceiver hmore =>
        exact .ok ((Parenthesized.same _).append
          (argList_parenthesized (.cons (hreceiver.append (.same _)) hmore)))

/-- **An expression with more parentheses is written if the expression is, and then with the same
text but for parentheses.** -/
theorem exprText_encloses {value value' : Expr} (h : value.Encloses False value') :
    Corresponds Parenthesized (exprText cx locals value) (exprText cx locals value') := by
  have htexts {args args' : List Expr} (hargs : List.Forall₂ (Expr.Encloses False) args args')
      (ih : ∀ arg' ∈ args', ∀ {arg : Expr}, arg.Encloses False arg' →
        Corresponds Parenthesized (exprText cx locals arg) (exprText cx locals arg')) :
      Corresponds (List.Forall₂ Parenthesized) (exprTexts cx locals args)
        (exprTexts cx locals args') := by
    induction hargs with
    | nil => exact .ok .nil
    | cons hfirst _ ihrest =>
      refine (ih _ (.head _) hfirst).bind fun text text' htext => ?_
      exact (ihrest fun arg' hm => ih arg' (.tail _ hm)).bind fun _ _ hmore => .ok (.cons htext hmore)
  -- On the enclosed expression, which has the parentheses: each of them is a step of its own (`wrap`).
  induction value' using Expr.indCallee generalizing value with
  | ident span name =>
    cases h
    exact identText_corresponds name
  | thisRef span =>
    cases h
    exact requireThis_corresponds.bind fun _ _ _ => .ok (.same _)
  | literal span value =>
    cases h
    exact .ok (.same _)
  | property span object name ih =>
    cases h with
    | property hobject =>
      rw [exprText, exprText]
      exact propertyText_corresponds hobject.isThis hobject.typeOf (ih hobject) name
  | call span callee typeArgs args ihcallee ihobject ihargs =>
    cases h with
    | call hcallee hnamed hargs =>
      have hargTexts := htexts hargs ihargs
      cases callee with
      | ident place name =>
        cases hcallee
        rw [exprText, exprText]
        split
        · exact hargTexts.bind fun _ _ h =>
            .ok ((Parenthesized.same _).append (argList_parenthesized h))
        · exact functionCallText_corresponds name typeArgs hargs hargTexts
      | property place object name =>
        cases hcallee with
        | property hobject =>
          rw [exprText, exprText]
          exact methodCallText_corresponds hobject.isThis hobject.typeOf
            (ihobject place object name rfl hobject) hargTexts name
      | _ =>
        rw [exprText_call cx locals hnamed.symm, exprText_call cx locals rfl]
        exact applied_corresponds (ihcallee hcallee) hargTexts
  | new span target args ih =>
    cases h with
    | new htarget hnamed hargs =>
      rw [exprText, exprText]
      exact newText_corresponds htarget hnamed (htexts hargs ih)
  | binary span op left right ihleft ihright =>
    cases h with
    | binary hleft hright =>
      exact (ihleft hleft).bind fun _ _ hleft => (ihright hright).bind fun _ _ hright =>
        .ok (((hleft.append (.same _)).append (.same _)).append (.same _) |>.append hright)
  | unary span op operand ih =>
    cases h with
    | unary hoperand => exact (ih hoperand).bind fun _ _ h => .ok ((Parenthesized.same _).append h)
  | paren span inner ih =>
    cases h with
    | paren hinner =>
      exact (ih hinner).bind fun _ _ h => .ok (((Parenthesized.same _).append h).append (.same _))
    | wrap hinner =>
      rw [← bind_pure (exprText cx locals value)]
      exact (ih hinner).bind fun _ _ h => .ok (.wrap h)
  | comma span items ih =>
    cases h with
    | comma hitems =>
      exact (htexts hitems ih).bind fun _ _ h => .ok (commaList_parenthesized h)
  | receiverCall span owner method args ih =>
    cases h with
    | receiverCall hargs =>
      rw [exprText, exprText]
      exact receiverCallText_corresponds owner method hargs (htexts hargs ih)

end Texts

end NativeLowering
