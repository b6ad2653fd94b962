import NativeLowering.Proofs.Emit.Legible
import NativeLowering.Proofs.Ending
import NativeLowering.Proofs.Receiver.Word

/-!
# Texts that can start a line

The texts of legible expressions and annotations can start a line (`exprText_starts`,
`typePiece_starts`). A text that is put together from others begins with the first of them, so it
begins with something visible if that does; and nothing in it can break the line.
-/

set_option autoImplicit false

namespace NativeLowering

open Text (Unbroken StartsLine)

open Lowered (Ensures ensures_fail ensures_ok)

/-- Every text of a list can start a line. -/
abbrev AllStart (texts : List String) : Prop := ∀ text ∈ texts, StartsLine text

theorem Text.unbroken_intercalate {separator : String} (hseparator : Unbroken separator)
    {texts : List String} (h : ∀ text ∈ texts, Unbroken text) :
    Unbroken (separator.intercalate texts) := by
  induction texts with
  | nil => exact List.not_mem_nil
  | cons first rest ih =>
    have ih := ih fun text hm => h text (by simp [hm])
    cases rest with
    | nil => simpa using h first (by simp)
    | cons second others =>
      rw [String.intercalate_cons_cons]
      simp [h first (by simp), hseparator, ih]

/-! ## Annotations -/

theorem appliedType_starts {name : String} (hname : StartsLine name) {args : List String}
    (hargs : AllStart args) : StartsLine (appliedType name args) := by
  have hlist : Unbroken (", ".intercalate args) :=
    Text.unbroken_intercalate (by decide) fun text hm => (hargs text hm).unbroken
  cases args with
  | nil => exact hname
  | cons first rest =>
    refine ((hname.append ?_).append hlist).append ?_
    · decide
    · decide

theorem typeReference_starts (ownership : Ownership) {name : String} (h : StartsLine name) :
    StartsLine (ownership.typeReference name) := by
  cases ownership with
  | value => exact h
  | sharedHeap =>
    have hpointer : StartsLine (Spelling.sharedPointer ++ "<") := by decide
    exact (hpointer.append h.unbroken).append (by decide)

theorem itemTypeText_starts {mangling : String} {item : Item} {space : Option String}
    (hwritten : StartsLine (Naming.qualifiedIn space (item.writtenName mangling)))
    (args : List TypeNode) {argTexts : Lowered (List String)} (hargs : Ensures AllStart argTexts)
    (wrapping : Wrapping) (span : Span) :
    Ensures StartsLine (itemTypeText mangling item space args argTexts wrapping span) := by
  unfold itemTypeText
  unfold Item.writtenName at hwritten
  split
  · rename_i info hinfo
    rw [hinfo] at hwritten
    split
    · exact ensures_fail _ _
    · cases wrapping with
      | owned => exact ensures_ok (typeReference_starts _ hwritten)
      | bare => exact ensures_ok hwritten
  · exact ensures_fail _ _
  · rename_i hinfo
    rw [hinfo] at hwritten
    exact hargs.map fun texts htexts => appliedType_starts hwritten htexts
  · exact ensures_fail _ _

namespace Names.Legible

variable {mangling : String} {model : Model}

mutual

theorem typeTextWith (h : Names.Legible mangling model) :
    ∀ (wrapping : Wrapping) (node : TypeNode), node.Legible →
    Ensures StartsLine (typeTextWith model mangling wrapping node)
  | _, .keyword _ word, _ => by
    refine ensures_ok ?_
    cases word <;> decide
  | wrapping, .reference span [name] args, hnode => by
    unfold NativeLowering.typeTextWith
    split
    · split
      · rename_i inner
        exact (typeTextWith h .bare inner hnode.2.1).map fun text htext => htext.append (by decide)
      · exact ensures_fail _ _
    · split
      · rename_i item hitem
        have hlegible : item.Legible mangling := h.type _ _ hitem
        have hwritten : StartsLine (Naming.qualifiedIn none (item.writtenName mangling)) :=
          hlegible.written
        exact itemTypeText_starts hwritten args (typeTexts h args hnode.2) wrapping span
      · exact ensures_fail _ _
      · exact (typeTexts h args hnode.2).map fun texts htexts => appliedType_starts hnode.1 htexts
  | wrapping, .reference span [qualifier, name] args, hnode => by
    rw [NativeLowering.typeTextWith]
    intro text hrun
    obtain ⟨⟨ambient, item⟩, hfound, hrun⟩ := Lowered.bind_eq_ok.mp hrun
    have hargs := typeTexts h args hnode.2
    unfold qualifiedItem at hfound
    split at hfound
    · cases hfound
    · rename_i source hsource
      split at hfound
      · cases hfound
      · rename_i member hmember
        cases hfound
        have hambient : ambient.Legible mangling := by
          obtain ⟨symbol, hsymbol, hambient⟩ := Option.bind_eq_some_iff.mp hsource
          cases symbol with
          | item own => cases hambient
          | ambient source =>
            cases hambient
            exact h.value _ _ hsymbol
        have hwritten := hambient.qualified _ (mem_of_lookup hmember)
        exact itemTypeText_starts hwritten args hargs wrapping span text hrun
  | _, .reference _ [] _, hnode => nomatch hnode.1
  | _, .reference _ (_ :: _ :: _ :: _) _, _ => ensures_fail _ _

theorem typeTexts (h : Names.Legible mangling model) :
    ∀ nodes : List TypeNode, TypeNode.LegibleList nodes →
    Ensures AllStart (typeTexts model mangling nodes)
  | [], _ => ensures_ok nofun
  | node :: rest, hnodes => by
    rw [NativeLowering.typeTexts]
    refine (typeTextWith h .owned node hnodes.1).bind fun text htext => ?_
    refine (typeTexts h rest hnodes.2).bind fun texts htexts => ?_
    exact ensures_ok (List.forall_mem_cons.mpr ⟨htext, htexts⟩)

end

end Names.Legible

/-! ## Names and members -/

section Texts

variable {cx : Context} {locals : Locals}

theorem piece_starts {text : String} (htext : StartsLine text) : StartsLine (cx.piece text) :=
  cx.layout.startsLine_inline htext

theorem piece_unbroken {text : String} (htext : Unbroken text) : Unbroken (cx.piece text) :=
  cx.layout.unbroken_inline htext

theorem argList_unbroken {texts : List String} (h : AllStart texts) :
    Unbroken (argList texts) := by
  have hlist : Unbroken (commaList texts) :=
    Text.unbroken_intercalate (by decide) fun text hm => (h text hm).unbroken
  have hopen : Unbroken "(" := by decide
  have hclose : Unbroken ")" := by decide
  simp [argList, hlist, hopen, hclose]

theorem commaList_starts {first : String} {rest : List String} (h : AllStart (first :: rest)) :
    StartsLine (commaList (first :: rest)) := by
  obtain ⟨hfirst, hrest⟩ := List.forall_mem_cons.mp h
  have hlist : Unbroken (commaList rest) :=
    Text.unbroken_intercalate (by decide) fun text hm => (hrest text hm).unbroken
  cases rest with
  | nil => simpa [commaList] using hfirst
  | cons second others =>
    rw [commaList, String.intercalate_cons_cons]
    exact (hfirst.append (by decide)).append hlist

theorem literalText_starts {value : Literal} (hvalue : value.Legible) :
    StartsLine value.text := by
  cases value with
  | number spelling => exact hvalue
  | string text =>
    constructor
    · exact ⟨'"', by simp [Literal.text, stringLiteral], by decide⟩
    · have hescaped (c : Char) : '\n' ∉ escapedChar c := by
        unfold escapedChar
        split
        · decide
        · decide
        · decide
        · decide
        · decide
        · rename_i _ _ hfeed _ _
          intro hc
          obtain rfl := List.mem_singleton.mp hc
          exact hfeed rfl
      simp [Literal.text, stringLiteral, Unbroken, hescaped]
  | bool value => cases value <;> decide
  | null => decide

theorem separator_starts (owner : Ty) (member : String) (span : Span) :
    Ensures StartsLine (separator cx owner member span) := by
  have haccess (ownership : Ownership) : StartsLine ownership.memberAccess := by
    cases ownership <;> decide
  unfold separator
  split
  · split
    · exact ensures_fail _ _
    · split
      · exact ensures_ok (by decide)
      · exact ensures_ok (haccess _)
  · exact ensures_ok (by decide)
  · exact ensures_ok (by decide)
  · exact ensures_ok (by decide)
  · exact ensures_fail _ _
  · exact ensures_fail _ _
  · exact ensures_fail _ _
  · exact ensures_fail _ _

theorem instanceMemberText_starts {member : String} {span : Span} (hmember : Unbroken member) :
    Ensures StartsLine (instanceMemberText cx locals member span) := by
  have hthis : StartsLine "this->" := by decide
  intro text hrun
  obtain ⟨_, -, hrun⟩ := Lowered.bind_eq_ok.mp hrun
  obtain rfl := Lowered.pure_eq_ok.mp hrun
  exact piece_starts (hthis.append hmember)

theorem memberText_starts {object : Expr} {owner : Ty} {member : String} {span : Span}
    {objectText : Lowered String} (hmember : Unbroken member)
    (hobject : Ensures StartsLine objectText) :
    Ensures StartsLine (memberText cx locals object owner member span objectText) := by
  unfold memberText
  split
  · exact instanceMemberText_starts hmember
  · refine (separator_starts owner member span).bind fun between hbetween => ?_
    refine hobject.bind fun text htext => ?_
    exact ensures_ok (htext.append (piece_unbroken (hbetween.append hmember).unbroken))

section Names

variable (h : Names.Legible cx.mangling cx.model)
include h

theorem identText_starts {name : String} (hname : StartsLine name) (span : Span) :
    Ensures StartsLine (identText cx locals name span) := by
  rw [identText_eq]
  split
  · exact ensures_ok (piece_starts hname)
  · split
    · exact ensures_fail _ _
    · rename_i symbol hsymbol
      have hsymbol := h.value _ _ hsymbol
      cases symbol with
      | item own =>
        split
        · exact ensures_ok (piece_starts hsymbol.written)
        · exact ensures_ok (piece_starts hsymbol.written)
        · exact ensures_fail _ _
      | ambient source => exact ensures_fail _ _

theorem propertyText_starts {object : Expr} {name : String} (hname : StartsLine name) (span : Span)
    {objectText : Lowered String} (hobject : Ensures StartsLine objectText) :
    Ensures StartsLine (propertyText cx locals object name span objectText) := by
  unfold propertyText
  split
  · exact instanceMemberText_starts hname.unbroken
  · split
    · rw [moduleMemberText_eq]
      split
      · exact ensures_fail _ _
      · rename_i ambient hambient
        split
        · exact ensures_fail _ _
        · rename_i item hitem
          exact ensures_ok (piece_starts ((h.module _ _ hambient).qualified _ (mem_of_lookup hitem)))
    · exact memberText_starts hname.unbroken hobject

/-! ## Calls -/

theorem sizeText_starts (span : Span) {typeArgs : List TypeNode}
    (htypes : TypeNode.LegibleList typeArgs) (args : List Expr)
    {argTexts : Lowered (List String)} (hargs : Ensures AllStart argTexts) :
    Ensures StartsLine (sizeText cx span typeArgs args argTexts) := by
  have hsize : StartsLine "sizeof(" := by decide
  have hblank : StartsLine "sizeof " := by decide
  have hword : StartsLine "sizeof" := by decide
  unfold sizeText
  split
  · rename_i node
    refine (h.typeTextWith .owned node htypes.1).map fun text htext => ?_
    exact piece_starts ((hsize.append htext.unbroken).append (by decide))
  · refine hargs.map fun texts htexts => ?_
    split
    · refine hblank.append ?_
      exact Text.unbroken_intercalate (by decide) fun text hm => (htexts text hm).unbroken
    · exact hword.append (argList_unbroken htexts)
  · exact ensures_fail _ _

theorem functionCallText_starts (name : String) (span : Span)
    {typeArgs : Option (List TypeNode)} (htypes : TypeNode.LegibleList (typeArgs.getD []))
    (args : List Expr) {argTexts : Lowered (List String)} (hargs : Ensures AllStart argTexts) :
    Ensures StartsLine (functionCallText cx name span typeArgs args argTexts) := by
  have haddress : StartsLine "&" := by decide
  unfold functionCallText
  split
  · exact ensures_fail _ _
  · rename_i symbol hsymbol
    split
    · exact ensures_fail _ _
    · rename_i info hinfo
      have hplain : Ensures StartsLine
          (plainCallText cx name symbol span (typeArgs.getD []) argTexts) := by
        unfold plainCallText
        split
        · exact ensures_fail _ _
        · refine hargs.map fun texts htexts => ?_
          cases symbol with
          | item own =>
            exact (piece_starts (h.value _ _ hsymbol).written).append (argList_unbroken htexts)
          | ambient source => cases hinfo
      split
      · unfold addressText
        split
        · split
          · refine hargs.map fun texts htexts => haddress.append ?_
            exact Text.unbroken_intercalate (by decide) fun text hm => (htexts text hm).unbroken
          · exact ensures_fail _ _
        · exact ensures_fail _ _
      · exact sizeText_starts h span htypes args hargs
      · exact hplain
      · exact hplain
      · rename_i builtin _ _ _ _
        have hbuiltin : StartsLine builtin.spelling := by cases builtin <;> decide
        unfold conversionText
        split
        · exact hargs.map fun texts htexts => hbuiltin.append (argList_unbroken htexts)
        · exact ensures_fail _ _

theorem methodCallText_starts {object : Expr} {name : String} (hname : StartsLine name)
    (span : Span) {objectText : Lowered String} (hobject : Ensures StartsLine objectText)
    {argTexts : Lowered (List String)} (hargs : Ensures AllStart argTexts) :
    Ensures StartsLine (methodCallText cx locals object name span objectText argTexts) := by
  have hordinary : Ensures StartsLine
      (propertyText cx locals object name span objectText >>= fun callee =>
        argTexts >>= fun texts => pure (callee ++ argList texts)) := by
    refine (propertyText_starts h hname span hobject).bind fun callee hcallee => ?_
    refine hargs.bind fun texts htexts => ?_
    exact ensures_ok (hcallee.append (argList_unbroken htexts))
  unfold methodCallText
  dsimp only
  split
  · split
    · exact ensures_fail _ _
    · rename_i item info hclass
      split
      · have hmember : Unbroken (Naming.destructor (item.writtenName cx.mangling)) :=
          Text.unbroken_append.mpr ⟨by decide, (h.class? hclass).1.written.unbroken⟩
        refine (memberText_starts hmember hobject).bind fun callee hcallee => ?_
        exact ensures_ok (hcallee.append (by decide))
      · split
        · exact ensures_fail _ _
        · exact hordinary
  · split
    · exact hordinary
    · exact ensures_fail _ _
  · exact ensures_fail _ _
  · exact hordinary

theorem newText_starts (target : Expr) (span : Span) {argTexts : Lowered (List String)}
    (hargs : Ensures AllStart argTexts) :
    Ensures StartsLine (newText cx target span argTexts) := by
  have hshared : StartsLine (Spelling.makeShared ++ "<") := by decide
  unfold newText
  split
  · split
    · exact ensures_fail _ _
    · rename_i item info hclass
      have hwritten := (h.class? hclass).1.written
      refine hargs.bind fun texts htexts => ensures_ok ?_
      refine StartsLine.append (piece_starts ?_) (argList_unbroken htexts)
      cases info.traits.ownership with
      | value => exact hwritten
      | sharedHeap => exact (hshared.append hwritten.unbroken).append (by decide)
  · exact ensures_fail _ _

theorem receiverCallText_starts (owner : String) {method : String} (hmethod : StartsLine method)
    (args : List Expr) (span : Span) {argTexts : Lowered (List String)}
    (hargs : Ensures AllStart argTexts) :
    Ensures StartsLine (receiverCallText cx locals owner method args span argTexts) := by
  unfold receiverCallText
  split
  · exact ensures_fail _ _
  · rename_i item info hclass
    split
    · exact ensures_fail _ _
    · rename_i receiver others
      have hcallee : StartsLine
          (cx.piece (Naming.receiverFunction (item.writtenName cx.mangling) method)) :=
        piece_starts (((h.class? hclass).1.written.append (by decide)).append hmethod.unbroken)
      refine hargs.bind fun texts htexts => ?_
      dsimp only
      split
      · exact ensures_ok (hcallee.append (by decide))
      · rename_i first rest
        obtain ⟨hfirst, hrest⟩ := List.forall_mem_cons.mp htexts
        refine ensures_ok (hcallee.append (argList_unbroken ?_))
        refine List.forall_mem_cons.mpr ⟨hfirst.append ?_, hrest⟩
        split <;> decide

end Names

/-! ## Expressions -/

mutual

theorem exprText_starts (h : Names.Legible cx.mangling cx.model) : ∀ value : Expr, value.Legible →
    Ensures StartsLine (exprText cx locals value)
  | .ident span name, hvalue => by
    rw [exprText]
    exact identText_starts h hvalue span
  | .thisRef span, _ => by
    rw [exprText]
    intro text hrun
    obtain ⟨_, -, hrun⟩ := Lowered.bind_eq_ok.mp hrun
    obtain rfl := Lowered.pure_eq_ok.mp hrun
    decide
  | .literal span value, hvalue => by
    rw [exprText]
    exact ensures_ok (piece_starts (literalText_starts hvalue))
  | .property span object name, hvalue => by
    rw [exprText]
    exact propertyText_starts h hvalue.2 span (exprText_starts h object hvalue.1)
  | .call span callee typeArgs args, hvalue => by
    obtain ⟨hcallee, htypes, hargs⟩ := hvalue
    have htexts := exprTexts_start h args hargs
    cases hnamed : callee.isNamed with
    | false =>
      rw [exprText_call _ _ hnamed]
      refine (exprText_starts h callee hcallee).bind fun text htext => ?_
      exact htexts.bind fun texts htexts => ensures_ok (htext.append (argList_unbroken htexts))
    | true =>
      cases callee with
      | ident place name =>
        rw [exprText]
        split
        · refine htexts.bind fun texts htexts => ensures_ok ?_
          exact (piece_starts hcallee).append (argList_unbroken htexts)
        · exact functionCallText_starts h name span htypes args htexts
      | property place object name =>
        rw [exprText]
        exact methodCallText_starts h hcallee.2 span (exprText_starts h object hcallee.1) htexts
      | _ => cases hnamed
  | .new span target args, hvalue => by
    rw [exprText]
    exact newText_starts h target span (exprTexts_start h args hvalue.2)
  | .binary span op left right, hvalue => by
    have hop : Unbroken op.spelling := by cases op <;> decide
    rw [exprText]
    refine (exprText_starts h left hvalue.1).bind fun first hfirst => ?_
    refine (exprText_starts h right hvalue.2).bind fun second hsecond => ensures_ok ?_
    exact (((hfirst.append (by decide)).append hop).append (by decide)).append hsecond.unbroken
  | .unary span op operand, hvalue => by
    have hop : StartsLine op.spelling := by cases op <;> decide
    rw [exprText]
    refine (exprText_starts h operand hvalue).bind fun text htext => ?_
    exact ensures_ok (hop.append htext.unbroken)
  | .paren span inner, hvalue => by
    have hopen : StartsLine "(" := by decide
    rw [exprText]
    refine (exprText_starts h inner hvalue).bind fun text htext => ?_
    exact ensures_ok ((hopen.append htext.unbroken).append (by decide))
  | .comma span [], hvalue => absurd rfl hvalue.1
  | .comma span (first :: rest), hvalue => by
    rw [exprText]
    intro text hrun
    obtain ⟨texts, htexts, hrun⟩ := Lowered.bind_eq_ok.mp hrun
    obtain rfl := Lowered.pure_eq_ok.mp hrun
    have hstarts := exprTexts_start h (first :: rest) hvalue.2 texts htexts
    rw [exprTexts] at htexts
    obtain ⟨head, -, htexts⟩ := Lowered.bind_eq_ok.mp htexts
    obtain ⟨others, -, htexts⟩ := Lowered.bind_eq_ok.mp htexts
    obtain rfl := Lowered.pure_eq_ok.mp htexts
    exact commaList_starts hstarts
  | .receiverCall span owner method args, hvalue => by
    rw [exprText]
    exact receiverCallText_starts h owner hvalue.1 args span (exprTexts_start h args hvalue.2)

theorem exprTexts_start (h : Names.Legible cx.mangling cx.model) :
    ∀ items : List Expr, Expr.LegibleList items →
    Ensures AllStart (exprTexts cx locals items)
  | [], _ => ensures_ok nofun
  | item :: rest, hitems => by
    rw [exprTexts]
    refine (exprText_starts h item hitems.1).bind fun text htext => ?_
    refine (exprTexts_start h rest hitems.2).bind fun texts htexts => ?_
    exact ensures_ok (List.forall_mem_cons.mpr ⟨htext, htexts⟩)

end

theorem typePiece_starts (h : Names.Legible cx.mangling cx.model) {node : TypeNode}
    (hnode : node.Legible) :
    Ensures StartsLine (cx.typePiece node) :=
  (h.typeTextWith .owned node hnode).map fun _ htext => piece_starts htext

end Texts

end NativeLowering
