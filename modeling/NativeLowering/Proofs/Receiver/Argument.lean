import NativeLowering.Proofs.Emit.MemberAccess
import NativeLowering.Proofs.Model.Consistent
import NativeLowering.Proofs.Receiver.Origin
import NativeLowering.Proofs.Scoping.Pairing

/-!
# How receivers are passed

The function that an explicit receiver call targets takes a raw pointer to the class. What is passed
depends on the object: `this` and pointers go as they are, from a handle the raw pointer is taken,
and of a value the address, or that of the variable it is assigned to (`Receiver.Suits`). The choice
is made in two places. The injection of receivers decides whether an address is taken, and the
writing of a receiver call decides by the type of its argument whether a raw pointer is.

`Receiver.functionLike_receivers` says that the two fit together for objects that are `Regular`. The
conditions of that are all needed (`Receiver.irregular_receivers`). The one that matters is on the
current instance: it is a pointer, but its type is found to be the class, so from a shared one a raw
pointer is taken as from a handle.

The native type of an object is that of its type, except for the current instance, which is a
pointer (`Receiver.native?`). What is passed for a regular object is a pointer to the class, which
is what the first parameter of a receiver function is.
-/

set_option autoImplicit false

namespace NativeLowering

open Address (threaded threadedAll thread throughTemporary)
open Vocabulary (Builtin)

/-! ## Native types of instances

An instance of a class is held in one of three ways: as itself, behind a counted handle, or behind a
raw pointer. -/

/-- Whether the values of a type are handles. -/
def Model.isHandle (model : Model) : Ty → Bool
  | .classTy owner => model.isSharedClass owner
  | _ => false

/-- The native type of an instance, of its handle, or of a pointer. -/
inductive Native where
  | value (owner : String)
  | shared (owner : String)
  | pointer (target : Native)

namespace Native

/-- The native type that stands for a type. Behind a pointer stands the class itself. -/
def of? (model : Model) (wrapping : Wrapping) : Ty → Option Native
  | .classTy owner =>
    some (if wrapping = .owned ∧ model.isSharedClass owner = true then .shared owner
      else .value owner)
  | .pointer inner => (of? model .bare inner).map .pointer
  | _ => none

end Native

/-! ## The bindings that an expression is written at -/

/-- A lookup passes over what has been put in, if nothing of that has the name. -/
theorem Inserted.lookup_eq {P : String × Ty → Prop} {first second : Bindings} {name : String}
    (h : Inserted P first second) (hname : ∀ binding, P binding → binding.1 ≠ name) :
    second.lookup name = first.lookup name := by
  induction h with
  | nil => rfl
  | keep binding _ ih => rw [List.lookup_cons, List.lookup_cons, ih]
  | insert hbinding _ ih =>
    rw [List.lookup_cons, beq_false_of_ne (hname _ hbinding).symm]
    exact ih

/-- The second bindings are the first with variables of operands besides. -/
structure Locals.Extended (locals written : Locals) : Prop where
  visible : Inserted IsTemporary locals.visible written.visible
  thisClass : written.thisClass = locals.thisClass

namespace Locals.Extended

variable {model : Model} {locals written : Locals}

theorem lookup?_eq (h : locals.Extended written) {name : String}
    (hname : ∀ number, name ≠ Spelling.temporary number) :
    written.lookup? name = locals.lookup? name := by
  refine h.visible.lookup_eq ?_
  rintro binding ⟨number, hnumber⟩ rfl
  exact hname number hnumber

/-- An expression keeps its type if none of its names is that of a variable of an operand. -/
theorem typeOf [model.Typed] (h : locals.Extended written) {value : Expr}
    (hvalue : ∀ name ∈ Address.identifiers value, ∀ number, name ≠ Spelling.temporary number) :
    model.typeOf written value = model.typeOf locals value :=
  Model.typeOf_congr h.thisClass value fun name hname => h.lookup?_eq (hvalue name hname)

end Locals.Extended

/-! ## What is written of an expression -/

namespace PassSet.Materializes

variable {passes : PassSet} {model : Model} {locals : Locals} {visible : Bindings}
  {value result : Expr}

/-- An expression keeps what the pass looks at. -/
theorem kept [model.Typed] (h : passes.Materializes model locals visible value result) :
    Address.Kept model value result := by
  unfold Materializes at h
  split at h
  · obtain ⟨next, rfl, -⟩ := h
    exact Address.kept_threaded value next
  · rw [h]
    exact .refl value

theorem this {span : Span} (h : passes.Materializes model locals visible (.thisRef span) result) :
    result = .thisRef span := by
  unfold Materializes at h
  split at h
  · obtain ⟨next, rfl, -⟩ := h
    rfl
  · exact h

/-- A call with one operand stays, or the operand gets a variable. -/
theorem address [model.Typed] {span place : Span} {name : String}
    {typeArgs : Option (List TypeNode)}
    (h : passes.Materializes model locals visible (.call span (.ident place name) typeArgs [value])
      result) :
    ∃ operand, passes.Materializes model locals visible value operand ∧
      (result = .call span (.ident place name) typeArgs [operand] ∨
        value.isAddressable = false ∧ ∃ number, Address.Held model locals visible (value, number) ∧
          result = throughTemporary span (Spelling.temporary number) operand (.ident place name)
            typeArgs) := by
  unfold Materializes at h ⊢
  split at h
  · rename_i hselected
    obtain ⟨next, rfl, hheld⟩ := h
    have hown : Address.operands model (.call span (.ident place name) typeArgs [value])
        = Address.operands model value ++ Address.ownOperands model
          (.call span (.ident place name) typeArgs [value]) := by
      simp [Address.operands, Address.operandsAll]
    rw [Address.HeldAll, hown, List.zipIdx_append] at hheld
    obtain ⟨hinner, hheld⟩ := List.forall_mem_append.mp hheld
    simp only [if_pos hselected, threaded, threadedAll, thread]
    refine ⟨threaded model next value, ⟨next, rfl, hinner⟩, ?_⟩
    split
    · rename_i hthrough
      have hneeds : (Address.isBuiltinCall model .addressOf (.ident place name) &&
          !value.isAddressable) = true := by
        rwa [← (@Address.kept_threaded model _ value next).isAddressable]
      rw [Address.ownOperands, if_pos hneeds] at hheld
      refine .inr ⟨by simpa using (Bool.and_eq_true_iff.mp hneeds).2, _, ?_, rfl⟩
      simpa [Address.operandsAll, Address.operands] using hheld
    · exact .inl rfl
  · rename_i hselected
    simp only [if_neg hselected]
    exact ⟨value, rfl, .inl h⟩

/-- The receiver calls stay when operands get their variables. -/
theorem receiverCalls (h : passes.Materializes model locals visible value result) :
    List.Forall₂ (SameCall (passes.Materializes model locals visible)) value.receiverCalls
      result.receiverCalls := by
  unfold Materializes at h ⊢
  split at h
  · rename_i hselected
    obtain ⟨next, rfl, hheld⟩ := h
    simp only [if_pos hselected]
    exact Address.receiverCalls_threaded value next hheld
  · rename_i hselected
    simp only [if_neg hselected]
    rw [h, List.forall₂_same]
    intro call hcall
    obtain ⟨-, hcall⟩ := List.mem_filter.mp hcall
    cases call with
    | receiverCall => exact .intro (List.forall₂_same.mpr fun _ _ => rfl)
    | _ => cases hcall

end PassSet.Materializes

/-! ## Ways to pass an object -/

namespace Expr

/-- Whether an expression stands for the current instance, as its type is found: the expression is
`this`, or its type is that of a part that does. -/
def denotesThis : Expr → Bool
  | .thisRef _ => true
  | .paren _ inner => inner.denotesThis
  | .binary _ op left _ => !op.isPredicate && left.denotesThis
  | .unary _ op operand => op != .not && operand.denotesThis
  | .comma _ items => lastDenotesThis items
  | _ => false
where
  lastDenotesThis : List Expr → Bool
    | [] => false
    | [item] => item.denotesThis
    | _ :: rest => lastDenotesThis rest

end Expr

namespace Receiver

open Emit

/-- The native type of an expression. The current instance is a pointer. -/
def native? (model : Model) (locals : Locals) (value : Expr) : Option Native :=
  if value.denotesThis then locals.thisClass.map fun owner => .pointer (.value owner)
  else Native.of? model .owned (model.typeOf locals value)

/-- How an object is passed. -/
inductive Way where
  | direct
  /-- The raw pointer is taken from a handle. -/
  | raw
  | address
  /-- The object is assigned to a variable, whose address is taken. -/
  | temporary (place : String)

namespace Way

/-- What is written, from the text of the object. -/
def text (object : String) : Way → String
  | .direct => object
  | .raw => object ++ ".get()"
  | .address => "&" ++ object
  | .temporary place => "(" ++ place ++ " = " ++ object ++ ", &" ++ place ++ ")"

/-- The native type of what is written, from that of the object. Only a handle has a raw pointer. -/
def native : Way → Native → Option Native
  | .direct, object => some object
  | .raw, .shared owner => some (.pointer (.value owner))
  | .raw, .value _ | .raw, .pointer _ => none
  | .address, object | .temporary _, object => some (.pointer object)

end Way

section Passing

variable (cx : Context) (visible : Bindings) (owner : String)

/-- The way that an object of a type is passed as the receiver of a class's method. -/
inductive Suits : Expr → Ty → Way → Prop
  | thisRef {span : Span} {type : Ty} : Suits (.thisRef span) type .direct
  | pointer {object : Expr} : object.isThis = false →
      Suits object (.pointer (.classTy owner)) .direct
  | handle {object : Expr} : object.isThis = false → cx.model.isSharedClass owner = true →
      Suits object (.classTy owner) .raw
  | address {object : Expr} : object.isThis = false → cx.model.isSharedClass owner = false →
      object.isAddressable = true → Suits object (.classTy owner) .address
  /-- The variable has been declared with the class. -/
  | temporary {object : Expr} {number : Nat} {node : TypeNode} : object.isThis = false →
      cx.model.isSharedClass owner = false → object.isAddressable = false →
      (Ty.classTy owner).toTypeNode? object.span = some node →
      (Spelling.temporary number, cx.model.typeFromNode node) ∈ visible →
      Suits object (.classTy owner) (.temporary (cx.piece (Spelling.temporary number)))

end Passing

/-- What is written passes the object in the way that suits it, as a pointer to the class. The
operands of the object may be in variables. -/
def Pointed (cx : Context) (locals written : Locals) (owner : String) (object : Expr)
    (first : String) : Prop :=
  ∃ operand inner way,
    cx.options.passes.Materializes cx.model locals written.visible object operand ∧
    exprText cx written operand = .ok inner ∧
    Suits cx written.visible owner object (cx.model.typeOf locals object) way ∧
    first = way.text inner ∧
    (native? cx.model locals object).bind way.native = some (.pointer (.value owner))

/-- What an object has to meet to be passed as it should be. -/
structure Regular (model : Model) (locals : Locals) (owner : String) (object : Expr) : Prop where
  /-- No name in the object is hidden by the variable of an operand. -/
  named : ∀ name ∈ Address.identifiers object, ∀ number, name ≠ Spelling.temporary number
  /-- The current instance is passed as `this` only, and is no shared one. -/
  this : object.denotesThis = true → object.isThis = true ∧ model.isSharedClass owner = false
  /-- There is one pointer only. -/
  pointer : ∀ inner, model.typeOf locals object = .pointer inner → inner = .classTy owner
  /-- If an address is taken, the function for that is not hidden and does not return a handle. -/
  address : object.isThis = false → model.typeOf locals object = .classTy owner →
    model.isSharedClass owner = false → ∀ symbol, model.builtin? .addressOf = some symbol →
      locals.binds symbol.name = false ∧
        model.isHandle (model.resultType (model.function? symbol.name)) = false

/-! ## The argument -/

section Arguments

variable {cx : Context} {program : Program} {preludes : List Program} {model : TypedModel}
  {locals written : Locals} {owner : String} {object receiver lowered : Expr}

/-- What is written for the receiver, with what is added to it. -/
def argumentText (cx : Context) (written : Locals) (receiver : Expr) : Lowered String :=
  (exprText cx written receiver).map fun text =>
    text ++ if isSharedHandle cx written receiver then ".get()" else ""

theorem receiverCall_text {span : Span} {name text : String} {more : List Expr}
    (h : exprText cx written (.receiverCall span owner name (receiver :: more)) = .ok text) :
    ∃ item info first rest, cx.model.class? owner = some (item, info) ∧
      argumentText cx written receiver = .ok first ∧ exprTexts cx written more = .ok rest ∧
      text = cx.piece (Naming.receiverFunction (item.writtenName cx.mangling) name) ++
        argList (first :: rest) := by
  rw [exprText, receiverCallText] at h
  split at h
  · cases h
  · rename_i item info hclass
    obtain ⟨texts, htexts, h⟩ := Lowered.bind_eq_ok.mp h
    rw [exprTexts] at htexts
    simp only [Lowered.bind_eq_ok, Lowered.pure_eq_ok] at htexts
    obtain ⟨first, hfirst, rest, hrest, rfl⟩ := htexts
    rw [Lowered.pure_eq_ok] at h
    exact ⟨item, info, _, rest, hclass, Lowered.map_eq_ok.mpr ⟨first, hfirst, rfl⟩, hrest, h⟩

theorem builtin_notTemporary (hbuild : Model.build program preludes = .ok model)
    {builtin : Builtin} {symbol : Symbol} (hsymbol : model.builtin? builtin = some symbol) :
    ∀ number, symbol.name ≠ Spelling.temporary number := by
  rw [Builtin.eq_spelling (Model.build_builtin hbuild hsymbol)]
  intro number heq
  have htemporary := Address.isTemporary_temporary number
  rw [← heq] at htemporary
  revert htemporary
  cases builtin <;> decide

/-- The text of an address that is taken by a name that is within reach. -/
theorem addressCall_text {symbol : Symbol} {span place : Span} {typeArgs : Option (List TypeNode)}
    {operand : Expr} {text : String} (hbuild : Model.build program preludes = .ok model)
    (hcx : cx.model = model) (hsymbol : cx.model.builtin? .addressOf = some symbol)
    (hfree : written.binds symbol.name = false)
    (h : exprText cx written (.call span (.ident place symbol.name) typeArgs [operand]) = .ok text) :
    ∃ inner, exprText cx written operand = .ok inner ∧ text = "&" ++ inner ∧
      operand.isAddressable = true := by
  rw [hcx] at hsymbol
  obtain ⟨hresolve, info, hinfo, hbuiltin⟩ := Model.build_builtin_function hbuild hsymbol
  rw [← hcx] at hresolve
  rw [exprText, if_neg (by simp [hfree]), functionCallText, hresolve] at h
  simp only [hinfo, hbuiltin, addressText] at h
  split at h
  · rename_i haddressable
    obtain ⟨texts, htexts, rfl⟩ := Lowered.map_eq_ok.mp h
    simp only [exprTexts, Lowered.bind_eq_ok, Lowered.pure_eq_ok] at htexts
    obtain ⟨inner, hinner, _, hnil, rfl⟩ := htexts
    cases hnil
    exact ⟨inner, hinner, rfl, haddressable⟩
  · cases h

/-- The text of an operand's variable, in the place of its address call. -/
theorem throughTemporary_text {symbol : Symbol} {span place : Span} {number : Nat}
    {typeArgs : Option (List TypeNode)} {operand : Expr} {text : String}
    (hbuild : Model.build program preludes = .ok model) (hcx : cx.model = model)
    (hsymbol : cx.model.builtin? .addressOf = some symbol)
    (hfree : written.binds symbol.name = false)
    (hin : Spelling.temporary number ∈ written.visible.map Prod.fst)
    (h : exprText cx written (throughTemporary span (Spelling.temporary number) operand
      (.ident place symbol.name) typeArgs) = .ok text) :
    ∃ inner, exprText cx written operand = .ok inner ∧
      text = (Way.temporary (cx.piece (Spelling.temporary number))).text inner := by
  obtain ⟨items, hitems, h⟩ := Lowered.bind_eq_ok.mp h
  obtain ⟨texts, htexts, hitems⟩ := Lowered.bind_eq_ok.mp hitems
  simp only [exprTexts, Lowered.bind_eq_ok, Lowered.pure_eq_ok] at htexts h hitems
  obtain ⟨assignment, hassignment, _, ⟨address, haddress, _, hnil, rfl⟩, rfl⟩ := htexts
  cases hnil
  -- The variable is in scope, so its text is its name.
  have hbinds : written.binds (Spelling.temporary number) = true := by
    obtain ⟨type, htype⟩ := exists_lookup_of_mem hin
    rw [Locals.binds, Locals.lookup?, htype]
    rfl
  have hcell : exprText cx written (.ident operand.span (Spelling.temporary number))
      = .ok (cx.piece (Spelling.temporary number)) := by
    rw [exprText, identText_eq, if_pos hbinds]
  obtain ⟨cell, hagain, rfl, -⟩ := addressCall_text hbuild hcx hsymbol hfree haddress
  obtain rfl := Except.ok.inj (hcell.symm.trans hagain)
  obtain ⟨cell, hagain, hassignment⟩ := Lowered.bind_eq_ok.mp hassignment
  obtain rfl := Except.ok.inj (hcell.symm.trans hagain)
  obtain ⟨inner, hinner, hassignment⟩ := Lowered.bind_eq_ok.mp hassignment
  rw [Lowered.pure_eq_ok] at hassignment
  refine ⟨inner, hinner, ?_⟩
  generalize cx.piece (Spelling.temporary number) = place at *
  have hassign : " = " = " " ++ (Vocabulary.BinaryOp.assign.spelling ++ " ") := rfl
  have hlist : commaList [assignment, "&" ++ place] = assignment ++ ", " ++ ("&" ++ place) := rfl
  have hamp : ", &" = ", " ++ "&" := rfl
  rw [h, hitems, hlist, hassignment, Way.text, hassign, hamp]
  simp only [String.append_assoc]

/-- Whether a raw pointer is taken depends on the type before operands get their variables. -/
theorem argumentText_eq [cx.model.Typed] {passes : PassSet} {type : Ty} {first : String}
    (hlowered : passes.Materializes cx.model locals written.visible receiver lowered)
    (htype : cx.model.typeOf written receiver = type)
    (h : argumentText cx written lowered = .ok first) :
    ∃ text, exprText cx written lowered = .ok text ∧
      first = (if cx.model.isHandle type then Way.raw else .direct).text text := by
  obtain ⟨text, htext, rfl⟩ := Lowered.map_eq_ok.mp h
  refine ⟨text, htext, ?_⟩
  have hhandle : isSharedHandle cx written lowered = cx.model.isHandle type := by
    rw [← htype, ← hlowered.kept.type]
    rfl
  rw [hhandle]
  cases cx.model.isHandle type with
  | true => rfl
  | false => exact String.append_empty

theorem thisClass_of_pointee [cx.model.Typed] {span : Span}
    (h : (cx.model.typeOf locals (.thisRef span)).pointee = .classTy owner) :
    locals.thisClass = some owner := by
  rw [Model.typeOf_thisRef] at h
  cases hclass : locals.thisClass with
  | none =>
    rw [hclass] at h
    cases h
  | some found =>
    rw [hclass] at h
    rw [Ty.classTy.inj h]

theorem typeOf_this [cx.model.Typed] {span : Span} (h : locals.thisClass = some owner) :
    cx.model.typeOf locals (.thisRef span) = .classTy owner := by
  rw [Model.typeOf_thisRef, h]
  rfl

theorem Passes.this {span : Span}
    (h : Passes cx.model owner (.thisRef span) (.classTy owner) receiver) :
    receiver = .thisRef span := by
  cases h with
  | thisRef | handle => rfl
  | value hthis => cases hthis

/-- The current instance is passed by `this`, if it is no shared one. -/
theorem pointed_this [cx.model.Typed] {span : Span} {first : String}
    (hclass : locals.thisClass = some owner)
    (hwritten : written.thisClass = some owner) (hshared : cx.model.isSharedClass owner = false)
    (hpasses : Passes cx.model owner (.thisRef span) (cx.model.typeOf locals (.thisRef span))
      receiver)
    (hlowered : cx.options.passes.Materializes cx.model locals written.visible receiver lowered)
    (hfirst : argumentText cx written lowered = .ok first) :
    Pointed cx locals written owner (.thisRef span) first := by
  rw [typeOf_this hclass] at hpasses
  obtain rfl := hpasses.this
  obtain ⟨text, htext, rfl⟩ := argumentText_eq hlowered (typeOf_this hwritten) hfirst
  refine ⟨lowered, text, .direct, hlowered, htext, .thisRef, ?_, ?_⟩
  · rw [Model.isHandle, hshared]
    rfl
  · have hdenotes : (Expr.thisRef span).denotesThis = true := rfl
    rw [native?.eq_def, if_pos hdenotes, hclass]
    rfl

/-- A value is passed by its address, or by that of the variable that it is assigned to. -/
theorem pointed_value [cx.model.Typed] {symbol : Symbol} {first : String}
    (hbuild : Model.build program preludes = .ok model) (hcx : cx.model = model)
    (hextended : locals.Extended written)
    (hsymbol : cx.model.builtin? .addressOf = some symbol)
    (hregular : Regular cx.model locals owner object) (hthis : object.isThis = false)
    (htype : cx.model.typeOf locals object = .classTy owner)
    (hshared : cx.model.isSharedClass owner = false)
    (hnative : native? cx.model locals object = Native.of? cx.model .owned (.classTy owner))
    (hlowered : cx.options.passes.Materializes cx.model locals written.visible
      (.call object.span (.ident object.span symbol.name) none [object]) lowered)
    (hfirst : argumentText cx written lowered = .ok first) :
    Pointed cx locals written owner object first := by
  obtain ⟨hfree, hresult⟩ := hregular.address hthis htype hshared symbol hsymbol
  have hfree' : written.binds symbol.name = false := by
    rw [Locals.binds, hextended.lookup?_eq (builtin_notTemporary hbuild (hcx ▸ hsymbol))]
    exact hfree
  have hcall : cx.model.typeOf written
      (.call object.span (.ident object.span symbol.name) none [object])
        = cx.model.resultType (cx.model.function? symbol.name) :=
    cx.model.typeOf_functionCall ..
  obtain ⟨text, htext, rfl⟩ := argumentText_eq hlowered hcall hfirst
  have hpointer (way : Way) (h : way.native (.value owner) = some (.pointer (.value owner))) :
      (native? cx.model locals object).bind way.native = some (.pointer (.value owner)) := by
    rw [hnative, Native.of?, if_neg (by simp [hshared])]
    exact h
  unfold Pointed
  rw [hresult, htype]
  obtain ⟨operand, hoperand, rfl | ⟨haddressable, number, ⟨node, hnode, hin⟩, rfl⟩⟩ :=
    hlowered.address
  · obtain ⟨inner, hinner, rfl, haddressable⟩ := addressCall_text hbuild hcx hsymbol hfree' htext
    rw [hoperand.kept.isAddressable] at haddressable
    exact ⟨operand, inner, .address, hoperand, hinner, .address hthis hshared haddressable, rfl,
      hpointer _ rfl⟩
  · obtain ⟨inner, hinner, rfl⟩ :=
      throughTemporary_text hbuild hcx hsymbol hfree' (List.mem_map_of_mem hin) htext
    rw [htype] at hnode
    exact ⟨operand, inner, _, hoperand, hinner, .temporary hthis hshared haddressable hnode hin,
      rfl, hpointer _ rfl⟩

/-- **A regular object is passed as a pointer to its class.** -/
theorem Regular.pointed [cx.model.Typed] {first : String}
    (hbuild : Model.build program preludes = .ok model) (hcx : cx.model = model)
    (hextended : locals.Extended written) (hregular : Regular cx.model locals owner object)
    (hpointee : (cx.model.typeOf locals object).pointee = .classTy owner)
    (hpasses : Passes cx.model owner object (cx.model.typeOf locals object) receiver)
    (hlowered : cx.options.passes.Materializes cx.model locals written.visible receiver lowered)
    (hfirst : argumentText cx written lowered = .ok first) :
    Pointed cx locals written owner object first := by
  cases hthis : object.isThis with
  | true =>
    obtain ⟨span, rfl⟩ := Expr.eq_this hthis
    have hclass := thisClass_of_pointee hpointee
    exact pointed_this hclass (hextended.thisClass.trans hclass) (hregular.this rfl).2 hpasses
      hlowered hfirst
  | false =>
    have hdenotes : object.denotesThis = false := by
      cases hdenotes : object.denotesThis with
      | false => rfl
      | true =>
        rw [(hregular.this hdenotes).1] at hthis
        cases hthis
    have hnative : native? cx.model locals object
        = Native.of? cx.model .owned (cx.model.typeOf locals object) := by
      rw [native?.eq_def, if_neg (by simp [hdenotes])]
    have hwritten : cx.model.typeOf written object = cx.model.typeOf locals object :=
      hextended.typeOf hregular.named
    generalize htype : cx.model.typeOf locals object = type at *
    cases hpasses with
    | thisRef => cases hthis
    | @pointer object inner =>
      obtain rfl := hregular.pointer inner htype
      obtain ⟨text, htext, hwrites⟩ := argumentText_eq hlowered hwritten hfirst
      refine ⟨lowered, text, .direct, hlowered, htext, htype ▸ .pointer hthis, hwrites, ?_⟩
      rw [hnative]
      rfl
    | handle hshared =>
      obtain ⟨text, htext, rfl⟩ := argumentText_eq hlowered hwritten hfirst
      refine ⟨lowered, text, .raw, hlowered, htext, htype ▸ .handle hthis hshared, ?_, ?_⟩
      · rw [Model.isHandle, if_pos hshared]
      · rw [hnative, Native.of?, if_pos ⟨rfl, hshared⟩]
        rfl
    | @value object symbol _ hshared hsymbol =>
      exact pointed_value hbuild hcx hextended hsymbol hregular hthis htype hshared hnative hlowered
        hfirst

/-- The shared current instance is passed as if it were a handle. -/
theorem thisShared_text [cx.model.Typed] {passes : PassSet} {first : String}
    (hextended : locals.Extended written)
    (hpointee : (cx.model.typeOf locals object).pointee = .classTy owner)
    (hpasses : Passes cx.model owner object (cx.model.typeOf locals object) receiver)
    (hlowered : passes.Materializes cx.model locals written.visible receiver lowered)
    (hfirst : argumentText cx written lowered = .ok first) (hthis : object.isThis = true)
    (hshared : cx.model.isSharedClass owner = true) : first = "this.get()" := by
  obtain ⟨span, rfl⟩ := Expr.eq_this hthis
  have hclass := thisClass_of_pointee hpointee
  rw [typeOf_this hclass] at hpasses
  obtain rfl := hpasses.this
  obtain ⟨text, htext, rfl⟩ :=
    argumentText_eq hlowered (typeOf_this (hextended.thisClass.trans hclass)) hfirst
  rw [hlowered.this, exprText] at htext
  obtain ⟨_, -, htext⟩ := Lowered.bind_eq_ok.mp htext
  cases htext
  rw [Model.isHandle, if_pos hshared]
  rfl

end Arguments

/-! ## Functions -/

section Functions

variable (cx : Context)

/-- What is written for an object that a function gets as the receiver of a class's method. -/
structure Passed (locals written : Locals) (owner : String) (object : Expr) (first : String) :
    Prop where
  regular : Regular cx.model locals owner object → Pointed cx locals written owner object first
  thisShared : object.isThis = true → cx.model.isSharedClass owner = true → first = "this.get()"

/-- A method call that gets a receiver, and the receiver call that is written for it, which passes
the object. A receiver call that has been there is written as one. -/
inductive PassesReceiver (locals written : Locals) : Expr → Expr → Prop
  | made {span place : Span} {source object : Expr} {name owner : String}
      {typeArgs : Option (List TypeNode)} {args args' : List Expr} :
      Injected cx.model locals source object →
      Calls cx.model (cx.model.typeOf locals object) name owner →
      (∀ text, exprText cx written (.receiverCall span owner name args') = .ok text →
        ∃ item info first rest, cx.model.class? owner = some (item, info) ∧
          text = cx.piece (Naming.receiverFunction (item.writtenName cx.mangling) name) ++
            argList (first :: rest) ∧
          Passed cx locals written owner object first) →
      PassesReceiver locals written (.call span (.property place source name) typeArgs args)
        (.receiverCall span owner name args')
  | there {span : Span} {owner name : String} {args args' : List Expr} :
      PassesReceiver locals written (.receiverCall span owner name args)
        (.receiverCall span owner name args')

/-- The receiver calls that are written of an expression pass the objects. They go in pairs, in
order, with the parts of the expression that become one. -/
def PassesReceivers (visited written : Visited Expr) : Prop :=
  List.Forall₂ (PassesReceiver cx visited.locals written.locals)
    (visited.node.parts.filter (turns cx.model visited.locals)) written.node.receiverCalls

variable {cx} {program : Program} {preludes : List Program} {model : TypedModel}

theorem Paired.passesReceivers {visited written : Visited Expr}
    (hbuild : Model.build program preludes = .ok model) (hcx : cx.model = model)
    (h : Paired cx.options.passes cx.model visited written.occurrence)
    (hclass : written.locals.thisClass = visited.locals.thisClass) :
    PassesReceivers cx visited written := by
  have htyped : cx.model.Typed := hcx ▸ model.typed
  obtain ⟨injected, hinjected, hmaterializes⟩ := h.lowered
  have hextended : visited.locals.Extended written.locals := ⟨h.visible.imp fun _ h => h.2, hclass⟩
  refine (forall₂_comp (hinjected.explicit _ _) hmaterializes.receiverCalls).imp ?_
  rintro part result ⟨between, hexplicit, hsame⟩
  cases hsame with
  | intro hargs =>
  cases hexplicit with
  | there => exact .there
  | made hobject _ hcalls hpasses =>
    refine .made hobject hcalls fun text htext => ?_
    obtain ⟨lowered, more, hlowered, -, rfl⟩ := List.forall₂_cons_left_iff.mp hargs
    obtain ⟨item, info, first, rest, hfound, hfirst, -, rfl⟩ := receiverCall_text htext
    refine ⟨item, info, first, rest, hfound, rfl, ?_, ?_⟩
    · exact fun hregular =>
        hregular.pointed hbuild hcx hextended hcalls.pointee hpasses hlowered hfirst
    · exact thisShared_text hextended hcalls.pointee hpasses hlowered hfirst

/-- **How receivers are passed.** -/
theorem functionLike_receivers {session after : Session} {shape : FunctionShape} {span : Span}
    (hbuild : Model.build program preludes = .ok model) (hcx : cx.model = model)
    (hidle : Idle cx session) (hreceiver : cx.options.passes.receiver = true)
    (hgives : Gives (functionLike cx shape span) session () after) :
    ∃ log, Gives (functionLikeLogged cx shape span) session ((), log) after ∧
      List.Forall₂ (PassesReceivers cx) log.passes.receiver log.emit := by
  have htyped : cx.model.Typed := hcx ▸ model.typed
  obtain ⟨log, hlogged, hpairs⟩ := functionLike_pairs hidle hreceiver hgives
  refine ⟨log, hlogged, hpairs.imp fun visited written h => ?_⟩
  obtain ⟨hpaired, hvisited, hwritten⟩ := h
  exact Paired.passesReceivers hbuild hcx hpaired (hwritten.trans hvisited.symm)

end Functions

/-! ## Strokes -/

section Strokes

open Build

/-- A function of a class that passes a handle, a pointer, the current instance, a variable and a
value without one. -/
def strokes : FunctionShape :=
  { returnType := some "void", qualifier := none, name := "tscc_main"
    params := [param "node" (type "Node"), param "place" (pointer (type "Node")),
      param "pen" (type "Pen")]
    body :=
      [exprStmt (methodCall (ident "node") "next" []),
        exprStmt (methodCall (ident "place") "next" []),
        exprStmt (methodCall thisRef "stroke" [ident "node"]),
        exprStmt (methodCall (ident "pen") "stroke" [ident "node"]),
        exprStmt (methodCall (call (ident "make") []) "stroke" [ident "node"])]
    thisClass := some "Pen", visibility := none }

theorem functionLike_receivers_strokes : ∃ model after log,
    Model.build cursor [] = .ok model ∧
      Gives (functionLike ⟨model, { passes := .all }⟩ strokes {}) (.start {}) () after ∧
      Gives (functionLikeLogged ⟨model, { passes := .all }⟩ strokes {}) (.start {}) ((), log) after ∧
      List.Forall₂ (PassesReceivers ⟨model, { passes := .all }⟩) log.passes.receiver log.emit := by
  have hready : (Model.build cursor []).toOption.map (fun model : TypedModel =>
      ((functionLike ⟨model, { passes := .all }⟩ strokes {}).run (.start {})).1.toOption)
      = some (some ()) := by decide +kernel
  cases hbuild : Model.build cursor [] with
  | error e =>
    rw [hbuild] at hready
    cases hready
  | ok model =>
    rw [hbuild] at hready
    have hwritten := Option.some.inj hready
    dsimp only at hwritten
    cases hrun : (functionLike ⟨model, { passes := .all }⟩ strokes {}).run (.start {}) with
    | mk result after =>
      rw [hrun] at hwritten
      cases result with
      | error e => cases hwritten
      | ok value =>
        obtain ⟨log, hlogged, hpasses⟩ :=
          @functionLike_receivers ⟨model, { passes := .all }⟩ _ _ model _ _ _ _ hbuild rfl
            ⟨rfl, rfl⟩ rfl hrun
        exact ⟨model, after, log, rfl, hrun, hlogged, hpasses⟩

/-- The text of a function's body in a program. -/
def bodyText (source : Program) (shape : FunctionShape) : Option String := do
  let model ← (Model.build source []).toOption
  let record ← (functionRecord ⟨model, { passes := .all }⟩ shape).toOption
  return record.body.text

example : bodyText cursor strokes = some (String.join
    ["    tscc_Node_next(node.get());\n",
      "    tscc_Node_next(place);\n",
      "    tscc_Pen_stroke(this, node);\n",
      "    tscc_Pen_stroke(&pen, node);\n",
      "    tscc_Pen _tscc_temp_1;\n",
      "    tscc_Pen_stroke((_tscc_temp_1 = tscc_make(), &_tscc_temp_1), node);\n"]) := by
  decide +kernel

/-- A function with one statement, the call of a method. -/
def calling (thisClass : Option String) (params : List Param) (object : Expr) (method : String)
    (args : List Expr) : FunctionShape :=
  { strokes with params, body := [exprStmt (methodCall object method args)], thisClass }

/-- The function for addresses returns a node here, so an address is taken for a handle. -/
def mistypedCursor : Program :=
  program [declaredFunction "addressof" [] (type "Node"),
    classOf "Node" [method "next" [] (type "Node") []],
    valueClass "Pen" [method "stroke" [param "from" (type "Node")] void []]]

/-- A shared instance passes itself on as if it were a handle, which it is not. In parentheses the
current instance is taken for a value, even if it is none of a shared class. A pointer to a pointer
is passed as it is, a variable that has the name of the function for addresses is called, an address
that seems to be a handle is treated as one, and a handle that is hidden by the variable of an
operand is taken for what that holds. -/
theorem irregular_receivers :
    bodyText cursor (calling (some "Node") [] thisRef "next" []) =
      some "    tscc_Node_next(this.get());\n" ∧
    bodyText cursor (calling (some "Pen") [param "node" (type "Node")] (paren thisRef) "stroke"
        [ident "node"]) =
      some (String.join ["    tscc_Pen _tscc_temp_1;\n",
        "    tscc_Pen_stroke((_tscc_temp_1 = (this), &_tscc_temp_1), node);\n"]) ∧
    bodyText cursor (calling none [param "place" (pointer (pointer (type "Node")))] (ident "place")
        "next" []) =
      some "    tscc_Node_next(place);\n" ∧
    bodyText cursor (calling none [param "addressof" (keyword .number), param "pen" (type "Pen")]
        (ident "pen") "stroke" []) =
      some "    tscc_Pen_stroke(addressof(pen));\n" ∧
    bodyText mistypedCursor (calling none [param "pen" (type "Pen")] (ident "pen") "stroke" []) =
      some "    tscc_Pen_stroke(&pen.get());\n" ∧
    bodyText cursor (calling none [param "_tscc_temp_1" (type "Node")] (ident "_tscc_temp_1") "next"
        [call (ident "addressof") [call (ident "make") []]]) =
      some (String.join ["    tscc_Pen _tscc_temp_1;\n",
        "    tscc_Node_next(_tscc_temp_1, (_tscc_temp_1 = tscc_make(), &_tscc_temp_1));\n"]) := by
  refine ⟨?_, ?_, ?_, ?_, ?_, ?_⟩ <;> decide +kernel

end Strokes

end Receiver

end NativeLowering
