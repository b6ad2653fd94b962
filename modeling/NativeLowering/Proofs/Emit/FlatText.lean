import NativeLowering.Proofs.Ending
import NativeLowering.Proofs.Model.Flat
import NativeLowering.Proofs.Receiver.Word

/-!
# Texts of flat expressions

An expression whose names are flat is written on one line, whatever its strings hold, for line
breaks in a string are escaped. So its text does not depend on the line ending of the layout
(`exprText_same`), and neither does that of an annotation (`typePiece_same`).
-/

set_option autoImplicit false

namespace NativeLowering

open Vocabulary (Builtin)
open Lowered (Ensures ensures_fail ensures_ok InStep Same)
open NativeLowering.Expr (Meets AllMeet)

/-- Every text of a list is flat. -/
abbrev AllFlat (texts : List String) : Prop := ∀ text ∈ texts, Text.Flat text

/-! ## Annotations -/

theorem appliedType_flat {name : String} (hname : Text.Flat name) {args : List String}
    (hargs : AllFlat args) : Text.Flat (appliedType name args) := by
  have hlist : Text.Flat (", ".intercalate args) := Text.flat_intercalate (by decide) hargs
  cases args with
  | nil => exact hname
  | cons first rest => exact ((hname.append (by decide)).append hlist).append (by decide)

theorem typeReference_flat (ownership : Ownership) {name : String} (h : Text.Flat name) :
    Text.Flat (ownership.typeReference name) := by
  cases ownership with
  | value => exact h
  | sharedHeap =>
    have hpointer : Text.Flat (Spelling.sharedPointer ++ "<") := by decide
    exact (hpointer.append h).append (by decide)

theorem itemTypeText_flat {mangling : String} (hmangling : Text.Flat mangling) {item : Item}
    (hitem : item.Flat) {space : Option String}
    (hspace : ∀ own, space = some own → Text.Flat own) {args : List TypeNode}
    {argTexts : Lowered (List String)} (hargs : argTexts.Ensures AllFlat) (wrapping : Wrapping)
    (span : Span) : (itemTypeText mangling item space args argTexts wrapping span).Ensures
      Text.Flat := by
  have hinfo := hitem.info
  unfold itemTypeText
  split
  · rename_i info heq
    rw [heq] at hinfo
    have hname := Naming.flat_qualifiedIn hspace (hinfo.1.writtenName hmangling hitem.name)
    split
    · exact ensures_fail _ _
    · dsimp only
      split
      · exact ensures_ok (typeReference_flat _ hname)
      · exact ensures_ok hname
  · exact ensures_fail _ _
  · exact hargs.map fun texts htexts =>
      appliedType_flat (Naming.flat_qualifiedIn hspace hitem.name) htexts
  · exact ensures_fail _ _

namespace Names.Flat

variable {model : Model} {mangling : String}

theorem qualifiedItem (h : Names.Flat model) {qualifier name : String} {span : Span} :
    (qualifiedItem model qualifier name span).Ensures fun found =>
      found.1.traits.Flat ∧ found.2.Flat := by
  unfold NativeLowering.qualifiedItem
  split
  · exact ensures_fail _ _
  · rename_i ambient hambient
    obtain ⟨symbol, hsymbol, hambient⟩ := Option.bind_eq_some_iff.mp hambient
    split
    · exact ensures_fail _ _
    · rename_i item hitem
      cases symbol with
      | item own => cases hambient
      | ambient source =>
        cases hambient
        have hflat := h.value _ _ hsymbol
        exact ensures_ok ⟨hflat.traits, hflat.members _ _ hitem⟩

mutual

theorem typeTextWith (h : Names.Flat model) (hmangling : Text.Flat mangling) :
    ∀ (wrapping : Wrapping) (node : TypeNode), node.Flat →
    (typeTextWith model mangling wrapping node).Ensures Text.Flat
  | wrapping, .keyword _ keyword, _ => by
    rw [NativeLowering.typeTextWith]
    cases keyword <;> exact ensures_ok (by decide)
  | wrapping, .reference span [] args, _ => by
    simp only [NativeLowering.typeTextWith]
    exact ensures_fail _ _
  | wrapping, .reference span [name] args, hnode => by
    have hname : Text.Flat name := hnode.1 name (by simp)
    have hargs := typeTexts h hmangling args hnode.2
    unfold NativeLowering.typeTextWith
    split
    · split
      · rename_i inner
        exact (typeTextWith h hmangling .bare inner hnode.2.1).map fun text htext =>
          htext.append (by decide)
      · exact ensures_fail _ _
    · split
      · rename_i item hitem
        have hspace (own : String) (hown : none = some own) : Text.Flat own := by cases hown
        exact itemTypeText_flat hmangling (h.type _ _ hitem).2 hspace hargs wrapping span
      · exact ensures_fail _ _
      · exact hargs.map fun texts htexts => appliedType_flat hname htexts
  | wrapping, .reference span [qualifier, name] args, hnode => by
    rw [NativeLowering.typeTextWith]
    refine h.qualifiedItem.bind ?_
    rintro ⟨ambient, item⟩ ⟨htraits, hitem⟩
    exact itemTypeText_flat hmangling hitem htraits.space (typeTexts h hmangling args hnode.2)
      wrapping span
  | wrapping, .reference span (_ :: _ :: _ :: _) args, _ => by
    simp only [NativeLowering.typeTextWith]
    exact ensures_fail _ _

theorem typeTexts (h : Names.Flat model) (hmangling : Text.Flat mangling) :
    ∀ nodes : List TypeNode, TypeNode.FlatList nodes →
    (typeTexts model mangling nodes).Ensures AllFlat
  | [], _ => by
    rw [NativeLowering.typeTexts]
    exact ensures_ok (List.forall_mem_nil _)
  | node :: rest, hnodes => by
    rw [NativeLowering.typeTexts]
    refine (typeTextWith h hmangling .owned node hnodes.1).bind fun text htext => ?_
    refine (typeTexts h hmangling rest hnodes.2).bind fun texts htexts => ?_
    exact ensures_ok (List.forall_mem_cons.mpr ⟨htext, htexts⟩)

end

end Names.Flat

/-! ## Two layouts -/

/-- The same with a carriage return in each line ending. -/
def Context.returned (cx : Context) : Context :=
  { cx with options := { cx.options with lineEnding := .crlf } }

theorem Context.returned_model (cx : Context) : cx.returned.model = cx.model := rfl

theorem Context.returned_layout (cx : Context) : cx.returned.layout = cx.layout.returned := rfl

/-- A context in which every name that is written is flat. -/
structure Context.Flat (cx : Context) : Prop where
  model : Names.Flat cx.model
  mangling : Text.Flat cx.mangling

/-- Both computations have the same flat text, or the same error. -/
abbrev SameFlat (computed computed' : Lowered String) : Prop :=
  InStep (Same Text.Flat) computed computed'

/-- Both computations have the same flat texts, or the same error. -/
abbrev SameAllFlat (computed computed' : Lowered (List String)) : Prop :=
  InStep (Same AllFlat) computed computed'

section Texts

variable {cx : Context} {locals : Locals}

/-- A flat piece of a line is what it is in both layouts. -/
theorem piece_same {text : String} (h : Text.Flat text) :
    Same Text.Flat (cx.piece text) (cx.returned.piece text) := by
  unfold Context.piece
  rw [Layout.inline_flat _ h, Layout.inline_flat _ h]
  exact ⟨rfl, h⟩

theorem Same.append {first first' second second' : String} (h : Same Text.Flat first first')
    (hsecond : Same Text.Flat second second') :
    Same Text.Flat (first ++ second) (first' ++ second') := by
  obtain ⟨rfl, hfirst⟩ := h
  obtain ⟨rfl, hsecond⟩ := hsecond
  exact ⟨rfl, hfirst.append hsecond⟩

theorem same_text {text : String} (h : Text.Flat text) : Same Text.Flat text text := ⟨rfl, h⟩

theorem commaList_same {texts texts' : List String} (h : Same AllFlat texts texts') :
    Same Text.Flat (commaList texts) (commaList texts') := by
  obtain ⟨rfl, htexts⟩ := h
  exact ⟨rfl, Text.flat_intercalate (by decide) htexts⟩

theorem argList_same {texts texts' : List String} (h : Same AllFlat texts texts') :
    Same Text.Flat (argList texts) (argList texts') :=
  Same.append (Same.append (same_text (by decide)) (commaList_same h)) (same_text (by decide))

/-- Line breaks in a string are escaped. -/
theorem flat_stringLiteral (value : String) : Text.Flat (stringLiteral value) := by
  have hescaped (c other : Char) (hother : other = '\n' ∨ other = '\r') :
      other ∉ escapedChar c := by
    unfold escapedChar
    rcases hother with rfl | rfl <;> split <;> simp_all [eq_comm]
  have hflat (other : Char) (hother : other = '\n' ∨ other = '\r') (hquote : other ≠ '"') :
      other ∉ (stringLiteral value).toList := by
    rw [stringLiteral, String.toList_ofList]
    simp [hquote, hescaped _ other hother]
  exact ⟨hflat _ (.inl rfl) (by decide), hflat _ (.inr rfl) (by decide)⟩

theorem literalText_flat {value : Literal} (hvalue : value.Flat) : Text.Flat value.text := by
  cases value with
  | number spelling => exact hvalue
  | string value => exact flat_stringLiteral value
  | bool value => cases value <;> decide
  | null => decide

theorem requireThis_same (span : Span) :
    InStep (Same fun _ => True) (requireThis locals span) (requireThis locals span) :=
  Ensures.inStep fun _ _ => trivial

section Names

variable (hcx : cx.Flat)
include hcx

theorem typeText_same {node : TypeNode} (hnode : node.Flat) :
    SameFlat (typeText cx.model cx.mangling node)
      (typeText cx.returned.model cx.returned.mangling node) :=
  (hcx.model.typeTextWith hcx.mangling .owned node hnode).inStep

theorem typePiece_same {node : TypeNode} (hnode : node.Flat) :
    SameFlat (cx.typePiece node) (cx.returned.typePiece node) :=
  (typeText_same hcx hnode).map fun text text' hsame => by
    obtain ⟨rfl, htext⟩ := hsame
    exact piece_same htext

theorem symbol_flat {name : String} {symbol : Symbol}
    (hsymbol : cx.model.resolve? name = some symbol) (hkind : symbol.kind ≠ .moduleKind) :
    Text.Flat (symbol.writtenName cx.mangling) := by
  have hflat := hcx.model.value name symbol hsymbol
  cases symbol with
  | item own => exact hflat.writtenName hcx.mangling
  | ambient source => exact absurd rfl hkind

theorem identText_same {name : String} (hname : Text.Flat name) (span : Span) :
    SameFlat (identText cx locals name span) (identText cx.returned locals name span) := by
  rw [identText_eq, identText_eq]
  split
  · exact .ok (piece_same hname)
  · rw [Context.returned_model]
    cases hsymbol : cx.model.resolve? name with
    | none => exact .error _
    | some symbol =>
      dsimp only
      split
      · rename_i hkind
        refine .ok (piece_same (symbol_flat hcx hsymbol ?_))
        rw [hkind]
        decide
      · rename_i hkind
        refine .ok (piece_same (symbol_flat hcx hsymbol ?_))
        rw [hkind]
        decide
      · exact .error _

/-! ## Members -/

omit hcx in
/-- What stands between an object and its member depends on the model only. -/
theorem separator_same (owner : Ty) (member : String) (span : Span) :
    SameFlat (separator cx owner member span) (separator cx.returned owner member span) := by
  have hflat : (separator cx owner member span).Ensures Text.Flat := by
    unfold separator
    split
    · split
      · exact ensures_fail _ _
      · rename_i info _
        split
        · exact ensures_ok (by decide)
        · cases info.traits.ownership <;> exact ensures_ok (by decide)
    · exact ensures_ok (by decide)
    · exact ensures_ok (by decide)
    · exact ensures_ok (by decide)
    · exact ensures_fail _ _
    · exact ensures_fail _ _
    · exact ensures_fail _ _
    · exact ensures_fail _ _
  exact hflat.inStep

omit hcx in
theorem instanceMemberText_same {member : String} (hmember : Text.Flat member) (span : Span) :
    SameFlat (instanceMemberText cx locals member span)
      (instanceMemberText cx.returned locals member span) := by
  refine (requireThis_same span).bind fun _ _ _ => ?_
  exact .ok (piece_same (Text.Flat.append (by decide) hmember))

omit hcx in
theorem memberText_same {object : Expr} {owner : Ty} {member : String} {span : Span}
    (hmember : Text.Flat member) {objectText objectText' : Lowered String}
    (h : SameFlat objectText objectText') :
    SameFlat (memberText cx locals object owner member span objectText)
      (memberText cx.returned locals object owner member span objectText') := by
  unfold memberText
  split
  · exact instanceMemberText_same hmember span
  · refine (separator_same owner member span).bind fun between _ hbetween => ?_
    obtain ⟨rfl, hbetween⟩ := hbetween
    exact h.bind fun _ _ htext => .ok (Same.append htext (piece_same (hbetween.append hmember)))

theorem moduleMemberText_same (specifier member : String) (span : Span) :
    SameFlat (moduleMemberText cx specifier member span)
      (moduleMemberText cx.returned specifier member span) := by
  rw [moduleMemberText_eq, moduleMemberText_eq]
  rw [Context.returned_model]
  cases hambient : cx.model.module? specifier with
  | none => exact .error _
  | some ambient =>
    dsimp only
    cases hitem : ambient.member? member with
    | none => exact .error _
    | some item =>
      have hflat := hcx.model.module specifier ambient hambient
      have hname := (hflat.members member item hitem).writtenName hcx.mangling
      exact .ok (piece_same (Naming.flat_qualifiedIn hflat.traits.space hname))

theorem propertyText_same {object : Expr} {name : String} {span : Span} (hname : Text.Flat name)
    {objectText objectText' : Lowered String} (h : SameFlat objectText objectText') :
    SameFlat (propertyText cx locals object name span objectText)
      (propertyText cx.returned locals object name span objectText') := by
  unfold propertyText
  rw [Context.returned_model]
  split
  · exact instanceMemberText_same hname span
  · split
    · exact moduleMemberText_same hcx _ name span
    · exact memberText_same hname h

/-! ## Calls -/

omit hcx in
theorem addressText_same (span : Span) (args : List Expr) {texts texts' : Lowered (List String)}
    (h : SameAllFlat texts texts') :
    SameFlat (addressText span args texts) (addressText span args texts') := by
  unfold addressText
  split
  · split
    · exact h.map fun _ _ htexts => Same.append (same_text (by decide)) (commaList_same htexts)
    · exact .error _
  · exact .error _

theorem sizeText_same (span : Span) {typeArgs : List TypeNode}
    (htypes : TypeNode.FlatList typeArgs) (args : List Expr) {texts texts' : Lowered (List String)}
    (h : SameAllFlat texts texts') :
    SameFlat (sizeText cx span typeArgs args texts)
      (sizeText cx.returned span typeArgs args texts') := by
  unfold sizeText
  split
  · refine (typeText_same hcx htypes.1).map fun text _ htext => ?_
    obtain ⟨rfl, htext⟩ := htext
    exact piece_same ((Text.Flat.append (by decide) htext).append (by decide))
  · refine h.map fun texts texts' htexts => ?_
    split
    · exact Same.append (same_text (by decide)) (commaList_same htexts)
    · exact Same.append (same_text (by decide)) (argList_same htexts)
  · exact .error _

omit hcx in
theorem conversionText_same (span : Span) (builtin : Builtin) (args : List Expr)
    {texts texts' : Lowered (List String)} (h : SameAllFlat texts texts') :
    SameFlat (conversionText span builtin args texts)
      (conversionText span builtin args texts') := by
  have hbuiltin : Text.Flat builtin.spelling := by cases builtin <;> decide
  unfold conversionText
  split
  · exact h.map fun _ _ htexts => Same.append (same_text hbuiltin) (argList_same htexts)
  · exact .error _

omit hcx in
theorem plainCallText_same (name : String) {symbol : Symbol}
    (hsymbol : Text.Flat (symbol.writtenName cx.mangling)) (span : Span)
    (typeArgs : List TypeNode) {texts texts' : Lowered (List String)}
    (h : SameAllFlat texts texts') :
    SameFlat (plainCallText cx name symbol span typeArgs texts)
      (plainCallText cx.returned name symbol span typeArgs texts') := by
  unfold plainCallText
  split
  · exact .error _
  · exact h.map fun _ _ htexts => Same.append (piece_same hsymbol) (argList_same htexts)

theorem functionCallText_same (name : String) (span : Span) {typeArgs : Option (List TypeNode)}
    (htypes : TypeNode.FlatList (typeArgs.getD [])) (args : List Expr)
    {texts texts' : Lowered (List String)} (h : SameAllFlat texts texts') :
    SameFlat (functionCallText cx name span typeArgs args texts)
      (functionCallText cx.returned name span typeArgs args texts') := by
  unfold functionCallText
  rw [Context.returned_model]
  cases hsymbol : cx.model.resolve? name with
  | none => exact .error _
  | some symbol =>
    dsimp only
    cases hinfo : symbol.function? with
    | none => exact .error _
    | some info =>
      have hkind : symbol.kind ≠ .moduleKind := by
        cases symbol with
        | item own =>
          obtain ⟨_, _, info⟩ := own
          cases info <;> exact of_decide_eq_true rfl
        | ambient source => cases hinfo
      have hplain := plainCallText_same name (symbol_flat hcx hsymbol hkind) span
        (typeArgs.getD []) h
      dsimp only
      split
      · exact addressText_same span args h
      · exact sizeText_same hcx span htypes args h
      · exact hplain
      · exact hplain
      · exact conversionText_same span _ args h

theorem methodCallText_same {object : Expr} {name : String} (hname : Text.Flat name) (span : Span)
    {objectText objectText' : Lowered String} (hobject : SameFlat objectText objectText')
    {texts texts' : Lowered (List String)} (h : SameAllFlat texts texts') :
    SameFlat (methodCallText cx locals object name span objectText texts)
      (methodCallText cx.returned locals object name span objectText' texts') := by
  have hordinary : SameFlat
      (propertyText cx locals object name span objectText >>= fun callee =>
        texts >>= fun texts => pure (callee ++ argList texts))
      (propertyText cx.returned locals object name span objectText' >>= fun callee =>
        texts' >>= fun texts => pure (callee ++ argList texts)) :=
    (propertyText_same hcx hname hobject).bind fun _ _ hcallee =>
      h.bind fun _ _ htexts => .ok (Same.append hcallee (argList_same htexts))
  unfold methodCallText
  rw [Context.returned_model]
  dsimp only
  split
  · rename_i ownerName _
    cases hclass : cx.model.class? ownerName with
    | none => exact .error _
    | some found =>
      obtain ⟨item, info⟩ := found
      have hmember : Text.Flat (Naming.destructor (item.writtenName cx.mangling)) :=
        Text.Flat.append (by decide)
          ((hcx.model.class? hclass).2.1.writtenName hcx.mangling)
      dsimp only
      split
      · exact (memberText_same hmember hobject).bind fun _ _ hcallee =>
          .ok (Same.append hcallee (same_text (by decide)))
      · split
        · exact .error _
        · exact hordinary
  · split
    · exact hordinary
    · exact .error _
  · exact .error _
  · exact hordinary

theorem newText_same (target : Expr) (span : Span) {texts texts' : Lowered (List String)}
    (h : SameAllFlat texts texts') :
    SameFlat (newText cx target span texts) (newText cx.returned target span texts') := by
  unfold newText
  rw [Context.returned_model]
  split
  · rename_i name
    cases hclass : cx.model.class? name with
    | none => exact .error _
    | some found =>
      obtain ⟨item, info⟩ := found
      have hwritten := (hcx.model.class? hclass).2.1.writtenName hcx.mangling
      have hcallee : Text.Flat
          (info.traits.ownership.constructorCallee (item.writtenName cx.mangling)) := by
        cases info.traits.ownership with
        | value => exact hwritten
        | sharedHeap =>
          have hmaker : Text.Flat (Spelling.makeShared ++ "<") := by decide
          exact (hmaker.append hwritten).append (by decide)
      exact h.bind fun _ _ htexts => .ok (Same.append (piece_same hcallee) (argList_same htexts))
  · exact .error _

theorem receiverCallText_same (owner : String) {method : String} (hmethod : Text.Flat method)
    (args : List Expr) (span : Span) {texts texts' : Lowered (List String)}
    (h : SameAllFlat texts texts') :
    SameFlat (receiverCallText cx locals owner method args span texts)
      (receiverCallText cx.returned locals owner method args span texts') := by
  unfold receiverCallText
  rw [Context.returned_model]
  cases hclass : cx.model.class? owner with
  | none => exact .error _
  | some known =>
    obtain ⟨item, info⟩ := known
    have hwritten := (hcx.model.class? hclass).2.1.writtenName hcx.mangling
    have hcallee : Text.Flat
        (Naming.receiverFunction (item.writtenName cx.mangling) method) :=
      (hwritten.append (by decide)).append hmethod
    cases args with
    | nil => exact .error _
    | cons receiver rest =>
      refine h.bind fun _ found htexts => ?_
      obtain ⟨rfl, htexts⟩ := htexts
      have hraw : Text.Flat (if isSharedHandle cx locals receiver then ".get()" else "") := by
        split <;> decide
      cases found with
      | nil => exact .ok (Same.append (piece_same hcallee) (argList_same ⟨rfl, htexts⟩))
      | cons first others =>
        obtain ⟨hfirst, hothers⟩ := List.forall_mem_cons.mp htexts
        refine .ok (Same.append (piece_same hcallee) (argList_same ⟨rfl, ?_⟩))
        exact List.forall_mem_cons.mpr ⟨hfirst.append hraw, hothers⟩

end Names

/-! ## Expressions -/

mutual

/-- The text of a flat expression is flat, and the same in both layouts. -/
theorem exprText_same (hcx : cx.Flat) : ∀ value : Expr, value.Meets flatNodes →
    SameFlat (exprText cx locals value) (exprText cx.returned locals value)
  | .ident span name, hvalue => by
    rw [exprText, exprText]
    exact identText_same hcx hvalue span
  | .thisRef span, _ => by
    rw [exprText, exprText]
    exact (requireThis_same span).bind fun _ _ _ => .ok (same_text (by decide))
  | .literal span value, hvalue => by
    rw [exprText, exprText]
    exact .ok (piece_same (literalText_flat hvalue))
  | .property span object name, hvalue => by
    rw [exprText, exprText]
    exact propertyText_same hcx hvalue.2 (exprText_same hcx object hvalue.1)
  | .call span callee typeArgs args, hvalue => by
    obtain ⟨hcallee, htypes, hargs⟩ := hvalue
    have htexts := exprTexts_same hcx args hargs
    cases hnamed : callee.isNamed with
    | false =>
      rw [exprText_call _ _ hnamed, exprText_call _ _ hnamed]
      exact (exprText_same hcx callee hcallee).bind fun _ _ htext =>
        htexts.bind fun _ _ htexts => .ok (Same.append htext (argList_same htexts))
    | true =>
      cases callee with
      | ident place name =>
        rw [exprText, exprText]
        split
        · exact htexts.bind fun _ _ htexts =>
            .ok (Same.append (piece_same hcallee) (argList_same htexts))
        · exact functionCallText_same hcx name span htypes args htexts
      | property place object name =>
        rw [exprText, exprText]
        exact methodCallText_same hcx hcallee.2 span (exprText_same hcx object hcallee.1) htexts
      | _ => cases hnamed
  | .new span target args, hvalue => by
    rw [exprText, exprText]
    exact newText_same hcx target span (exprTexts_same hcx args hvalue.2)
  | .binary span op left right, hvalue => by
    have hop : Text.Flat op.spelling := by cases op <;> decide
    rw [exprText, exprText]
    refine (exprText_same hcx left hvalue.1).bind fun _ _ hleft =>
      (exprText_same hcx right hvalue.2).bind fun _ _ hright => .ok ?_
    have hbefore := Same.append hleft (same_text (by decide : Text.Flat " "))
    have hspelled := Same.append hbefore (same_text hop)
    exact Same.append (Same.append hspelled (same_text (by decide))) hright
  | .unary span op operand, hvalue => by
    have hop : Text.Flat op.spelling := by cases op <;> decide
    rw [exprText, exprText]
    exact (exprText_same hcx operand hvalue).bind fun _ _ htext =>
      .ok (Same.append (same_text hop) htext)
  | .paren span inner, hvalue => by
    rw [exprText, exprText]
    exact (exprText_same hcx inner hvalue).bind fun _ _ htext =>
      .ok (Same.append (Same.append (same_text (by decide)) htext) (same_text (by decide)))
  | .comma span items, hvalue => by
    rw [exprText, exprText]
    exact (exprTexts_same hcx items hvalue.2).bind fun _ _ htexts => .ok (commaList_same htexts)
  | .receiverCall span owner method args, hvalue => by
    rw [exprText, exprText]
    exact receiverCallText_same hcx owner hvalue.1 args span (exprTexts_same hcx args hvalue.2)

theorem exprTexts_same (hcx : cx.Flat) : ∀ items : List Expr, AllMeet flatNodes items →
    SameAllFlat (exprTexts cx locals items) (exprTexts cx.returned locals items)
  | [], _ => by
    rw [exprTexts, exprTexts]
    exact .ok ⟨rfl, List.forall_mem_nil _⟩
  | item :: rest, hitems => by
    rw [exprTexts, exprTexts]
    refine (exprText_same hcx item hitems.1).bind fun _ _ htext =>
      (exprTexts_same hcx rest hitems.2).bind fun _ _ htexts => .ok ?_
    obtain ⟨rfl, htext⟩ := htext
    obtain ⟨rfl, htexts⟩ := htexts
    exact ⟨rfl, List.forall_mem_cons.mpr ⟨htext, htexts⟩⟩

end

end Texts

end NativeLowering
