import NativeLowering.Proofs.Emit.ExprText
import NativeLowering.Pass.Receiver
import NativeLowering.Proofs.Success
import NativeLowering.Syntax.Build
import NativeLowering.Proofs.Model.Tables

/-!
# What of a call is written

A call has a callee, type arguments and arguments, and the callee decides how the call is written
(`Expr.callForm`). `calls_in_full` says what becomes of the rest:

* the arguments are all written, each once and in order, between texts that they have no part in; but
  a destructor is called without any, whatever it is given;
* type arguments are the type of a size, or else the call of a global function fails that is written
  by its name or is `sizeof`. Everywhere else they make no difference, and a call that gets an
  explicit receiver has none any more.

So arguments and type arguments can be lost without a word (`counterCalls_lose`).
-/

set_option autoImplicit false

namespace NativeLowering

open Vocabulary (Builtin)

/-! ## Forms of calls -/

/-- How a call is written. -/
inductive CallForm where
  | address
  | size
  /-- A global function by its written name. -/
  | function
  | destructor
  /-- Anything else that is applied to arguments. -/
  | applied
  deriving DecidableEq

namespace CallForm

/-- The form of a call of a global function. -/
def ofBuiltin : Option Builtin → CallForm
  | some .addressOf => .address
  | some .sizeOf => .size
  | none | some .allocate => .function
  | some _ => .applied

/-- Whether the type arguments of the call are looked at. -/
def readsTypeArgs : CallForm → Bool
  | .size | .function => true
  | .address | .destructor | .applied => false

/-- Whether the arguments are one that denotes a storage location. -/
def ofPlace : List Expr → Bool
  | [value] => value.isAddressable
  | _ => false

/-- A call as it is written, from the texts of its callee, its type arguments and its arguments. -/
def text (cx : Context) (callee : String) (types : List String) (args : List Expr)
    (texts : List String) : CallForm → String
  | .address => "&" ++ commaList texts
  | .size =>
    match types with
    | [] => if ofPlace args then "sizeof " ++ commaList texts else "sizeof" ++ argList texts
    | type :: _ => cx.piece ("sizeof(" ++ type ++ ")")
  | .destructor => callee ++ "()"
  | .function | .applied => callee ++ argList texts

end CallForm

/-- Whether a member of an object is the destructor of its class. -/
def Context.isDestructor (cx : Context) (locals : Locals) (object : Expr) (name : String) : Bool :=
  match cx.model.typeOf locals object with
  | .classTy owner =>
    match cx.model.class? owner with
    | some (_, info) => decide (name = Spelling.destructor ∧ info.hasDestructor = true)
    | none => false
  | _ => false

/-- The name that a destructor of an object's class is written with. -/
def Context.destructorOf (cx : Context) (locals : Locals) (object : Expr) : String :=
  match cx.model.typeOf locals object with
  | .classTy owner =>
    match cx.model.class? owner with
    | some (item, _) => Naming.destructor (item.writtenName cx.mangling)
    | none => ""
  | _ => ""

/-- The word that a call of a name begins with, unless it is an address or a size. -/
def Context.calleeWord (cx : Context) (locals : Locals) (name : String) : String :=
  if locals.binds name then cx.piece name
  else
    match cx.model.resolve? name with
    | none => ""
    | some symbol =>
      match symbol.function?.bind FunctionInfo.builtin with
      | none | some .allocate => cx.piece (symbol.writtenName cx.mangling)
      | some builtin => builtin.spelling

/-- The text of a callee in a call. -/
def calleeText (cx : Context) (locals : Locals) (span : Span) : Expr → Lowered String
  | .ident _ name => .ok (cx.calleeWord locals name)
  | .property _ object name =>
    if cx.isDestructor locals object name then
      memberText cx locals object (cx.model.typeOf locals object) (cx.destructorOf locals object) span
        (exprText cx locals object)
    else propertyText cx locals object name span (exprText cx locals object)
  | callee => exprText cx locals callee

/-- The form of a call with a callee. -/
def Expr.callForm (cx : Context) (locals : Locals) : Expr → CallForm
  | .ident _ name =>
    if locals.binds name then .applied
    else .ofBuiltin ((cx.model.function? name).bind FunctionInfo.builtin)
  | .property _ object name => if cx.isDestructor locals object name then .destructor else .applied
  | _ => .applied

/-- What has become of a call: `head` is the text of the callee. -/
structure CallWritten (cx : Context) (locals : Locals) (span : Span) (callee : Expr) (head : String)
    (typeArgs : Option (List TypeNode)) (args : List Expr) (text : String) : Prop where
  /-- The text has the arguments of every call but that of a destructor, and the type arguments where
  they are looked at: none, or the single one of a size. -/
  inFull : ∃ types texts, text = (callee.callForm cx locals).text cx head types args texts ∧
    (callee.callForm cx locals ≠ .destructor → exprTexts cx locals args = .ok texts) ∧
    ((callee.callForm cx locals).readsTypeArgs = true →
      typeTexts cx.model cx.mangling (typeArgs.getD []) = .ok types ∧
        (types = [] ∨ callee.callForm cx locals = .size ∧ args = [] ∧ ∃ type, types = [type]))
  /-- An address is that of a storage location. -/
  place : callee.callForm cx locals = .address → CallForm.ofPlace args = true
  /-- The arguments of a destructor make no difference. -/
  argsLost : callee.callForm cx locals = .destructor →
    ∀ others, exprText cx locals (.call span callee typeArgs others) = .ok text
  /-- Type arguments that are not looked at make no difference. -/
  typeArgsLost : (callee.callForm cx locals).readsTypeArgs = false →
    ∀ others, exprText cx locals (.call span callee others args) = .ok text

section Written

variable {cx : Context} {locals : Locals} {span : Span} {text : String} {args : List Expr}
  {typeArgs : Option (List TypeNode)} {argTexts : Lowered (List String)}

theorem addressText_eq_ok (h : addressText span args argTexts = .ok text) :
    CallForm.ofPlace args = true ∧ ∃ texts, argTexts = .ok texts ∧ text = "&" ++ commaList texts := by
  unfold addressText at h
  split at h
  · split at h
    · rename_i hplace
      exact ⟨hplace, Lowered.map_eq_ok.mp h⟩
    · cases h
  · cases h

theorem sizeText_eq_ok {nodes : List TypeNode} (h : sizeText cx span nodes args argTexts = .ok text) :
    (∃ node type, nodes = [node] ∧ args = [] ∧ typeText cx.model cx.mangling node = .ok type ∧
        text = cx.piece ("sizeof(" ++ type ++ ")")) ∨
      nodes = [] ∧ ∃ texts, argTexts = .ok texts ∧ text = CallForm.size.text cx "" [] args texts := by
  unfold sizeText at h
  split at h
  · obtain ⟨type, htype, rfl⟩ := Lowered.map_eq_ok.mp h
    exact .inl ⟨_, type, rfl, rfl, htype, rfl⟩
  · exact .inr ⟨rfl, Lowered.map_eq_ok.mp h⟩
  · cases h

theorem plainCallText_eq_ok {name : String} {symbol : Symbol} {nodes : List TypeNode}
    (h : plainCallText cx name symbol span nodes argTexts = .ok text) :
    nodes = [] ∧ ∃ texts, argTexts = .ok texts ∧
      text = cx.piece (symbol.writtenName cx.mangling) ++ argList texts := by
  unfold plainCallText at h
  split at h
  · cases h
  · exact ⟨rfl, Lowered.map_eq_ok.mp h⟩

theorem conversionText_eq_ok {builtin : Builtin}
    (h : conversionText span builtin args argTexts = .ok text) :
    ∃ texts, argTexts = .ok texts ∧ text = builtin.spelling ++ argList texts := by
  unfold conversionText at h
  split at h
  · exact Lowered.map_eq_ok.mp h
  · cases h

/-- Texts of a callee and of arguments, one after the other. -/
theorem applied_eq_ok {callee : Lowered String}
    (h : (do
      let head ← callee
      let texts ← argTexts
      return head ++ argList texts) = .ok text) :
    ∃ head texts, callee = .ok head ∧ argTexts = .ok texts ∧ text = head ++ argList texts := by
  obtain ⟨head, hhead, h⟩ := Lowered.bind_eq_ok.mp h
  obtain ⟨texts, htexts, h⟩ := Lowered.bind_eq_ok.mp h
  exact ⟨head, texts, hhead, htexts, Lowered.pure_eq_ok.mp h⟩

/-- What has become of a call follows from its form. -/
theorem CallWritten.of_form {form : CallForm} {callee : Expr} {head : String}
    (hform : callee.callForm cx locals = form)
    (hfull : ∃ types texts, text = form.text cx head types args texts ∧
      (form ≠ .destructor → exprTexts cx locals args = .ok texts) ∧
      (form.readsTypeArgs = true →
        typeTexts cx.model cx.mangling (typeArgs.getD []) = .ok types ∧
          (types = [] ∨ form = .size ∧ args = [] ∧ ∃ type, types = [type])))
    (hplace : form = .address → CallForm.ofPlace args = true)
    (hargs : form = .destructor →
      ∀ others, exprText cx locals (.call span callee typeArgs others) = .ok text)
    (htypeArgs : form.readsTypeArgs = false →
      ∀ others, exprText cx locals (.call span callee others args) = .ok text) :
    CallWritten cx locals span callee head typeArgs args text := by
  subst hform
  exact ⟨hfull, hplace, hargs, htypeArgs⟩

/-- A call whose arguments stand in parentheses and whose type arguments are not looked at. -/
theorem CallWritten.applied {callee : Expr} {head : String} {texts : List String}
    (hform : callee.callForm cx locals = .applied) (htexts : exprTexts cx locals args = .ok texts)
    (htext : text = head ++ argList texts)
    (hsame : ∀ others, exprText cx locals (.call span callee others args) = .ok text) :
    CallWritten cx locals span callee head typeArgs args text :=
  .of_form hform ⟨[], texts, htext, fun _ => htexts, by simp [CallForm.readsTypeArgs]⟩ (by simp)
    (by simp) fun _ => hsame

/-- A call that is written by a name and given no type arguments. -/
theorem CallWritten.function {callee : Expr} {head : String} {texts : List String}
    (hform : callee.callForm cx locals = .function) (hnone : typeArgs.getD [] = [])
    (htexts : exprTexts cx locals args = .ok texts) (htext : text = head ++ argList texts) :
    CallWritten cx locals span callee head typeArgs args text := by
  have htypes : typeTexts cx.model cx.mangling (typeArgs.getD []) = .ok [] := by
    rw [hnone]
    rfl
  exact .of_form hform ⟨[], texts, htext, fun _ => htexts, fun _ => ⟨htypes, .inl rfl⟩⟩ (by simp)
    (by simp) (by simp [CallForm.readsTypeArgs])

/-- An address has no word of its own: the callee is gone. -/
theorem CallWritten.address {callee : Expr} {head : String}
    (hform : callee.callForm cx locals = .address)
    (h : addressText span args (exprTexts cx locals args) = .ok text)
    (hsame : ∀ others, exprText cx locals (.call span callee others args) = .ok text) :
    CallWritten cx locals span callee head typeArgs args text := by
  obtain ⟨hplace, texts, htexts, rfl⟩ := addressText_eq_ok h
  exact .of_form hform ⟨[], texts, rfl, fun _ => htexts, by simp [CallForm.readsTypeArgs]⟩
    (fun _ => hplace) (by simp) fun _ => hsame

/-- A size is that of the one type argument, or else of the arguments. -/
theorem CallWritten.size {callee : Expr} {head : String} (hform : callee.callForm cx locals = .size)
    (h : sizeText cx span (typeArgs.getD []) args (exprTexts cx locals args) = .ok text) :
    CallWritten cx locals span callee head typeArgs args text := by
  rcases sizeText_eq_ok h with ⟨node, type, hnodes, rfl, htype, rfl⟩ | ⟨hnone, texts, htexts, rfl⟩
  · have hwritten : typeTextWith cx.model cx.mangling .owned node = .ok type := htype
    have htypes : typeTexts cx.model cx.mangling (typeArgs.getD []) = .ok [type] := by
      rw [hnodes, typeTexts, hwritten]
      rfl
    exact .of_form hform
      ⟨[type], [], rfl, fun _ => rfl, fun _ => ⟨htypes, .inr ⟨rfl, rfl, type, rfl⟩⟩⟩ (by simp)
      (by simp) (by simp [CallForm.readsTypeArgs])
  · have htypes : typeTexts cx.model cx.mangling (typeArgs.getD []) = .ok [] := by
      rw [hnone]
      rfl
    exact .of_form hform ⟨[], texts, rfl, fun _ => htexts, fun _ => ⟨htypes, .inl rfl⟩⟩ (by simp)
      (by simp) (by simp [CallForm.readsTypeArgs])

/-! ## Callee by callee -/

/-- The call of a global function. -/
theorem globalCall_written {place : Span} {name : String} {symbol : Symbol} {info : FunctionInfo}
    (hbound : ¬ locals.binds name = true) (hsymbol : cx.model.resolve? name = some symbol)
    (hfunction : symbol.function? = some info)
    (h : exprText cx locals (.call span (.ident place name) typeArgs args) = .ok text) :
    CallWritten cx locals span (.ident place name) (cx.calleeWord locals name) typeArgs args text := by
  have hform : (Expr.ident place name).callForm cx locals = .ofBuiltin info.builtin := by
    simp [Expr.callForm, hbound, Names.function?, hsymbol, hfunction]
  have hcall : ∀ typeArgs, exprText cx locals (.call span (.ident place name) typeArgs args)
      = functionCallText cx name span typeArgs args (exprTexts cx locals args) := by
    intro typeArgs
    simp only [exprText, hbound, Bool.false_eq_true, if_false]
  have hword : cx.calleeWord locals name = match info.builtin with
      | none | some .allocate => cx.piece (symbol.writtenName cx.mangling)
      | some builtin => builtin.spelling := by
    simp only [Context.calleeWord, hbound, Bool.false_eq_true, if_false, hsymbol, hfunction,
      Option.bind_some]
  simp only [functionCallText, hsymbol, hfunction] at hcall
  -- Only the builtin decides, and the allocator is called like any function of the program.
  cases hbuiltin : info.builtin with
  | none =>
    simp only [hbuiltin] at hform hword hcall
    rw [hcall] at h
    obtain ⟨hnone, texts, htexts, htext⟩ := plainCallText_eq_ok h
    rw [hword]
    exact .function hform hnone htexts htext
  | some builtin =>
    cases builtin with
    | allocate =>
      simp only [hbuiltin] at hform hword hcall
      rw [hcall] at h
      obtain ⟨hnone, texts, htexts, htext⟩ := plainCallText_eq_ok h
      rw [hword]
      exact .function hform hnone htexts htext
    | addressOf =>
      simp only [hbuiltin] at hform hcall
      rw [hcall] at h
      exact .address hform h fun others => (hcall others).trans h
    | sizeOf =>
      simp only [hbuiltin] at hform hcall
      rw [hcall] at h
      exact .size hform h
    | _ =>
      simp only [hbuiltin] at hform hword hcall
      rw [hcall] at h
      obtain ⟨texts, htexts, htext⟩ := conversionText_eq_ok h
      rw [hword]
      exact .applied hform htexts htext fun others => (hcall others).trans h

/-- The call of a name: a variable in scope, or else a global function. -/
theorem identCall_written {place : Span} {name : String}
    (h : exprText cx locals (.call span (.ident place name) typeArgs args) = .ok text) :
    CallWritten cx locals span (.ident place name) (cx.calleeWord locals name) typeArgs args text := by
  by_cases hbound : locals.binds name = true
  · have hsame : ∀ others,
        exprText cx locals (.call span (.ident place name) others args) = .ok text := by
      intro others
      simpa only [exprText, hbound, if_true] using h
    simp only [exprText, hbound, if_true] at h
    obtain ⟨texts, htexts, htext⟩ := Lowered.bind_eq_ok.mp h
    have hword : cx.calleeWord locals name = cx.piece name := by simp [Context.calleeWord, hbound]
    rw [hword]
    exact .applied (by simp [Expr.callForm, hbound]) htexts (Lowered.pure_eq_ok.mp htext) hsame
  have hcall : exprText cx locals (.call span (.ident place name) typeArgs args)
      = functionCallText cx name span typeArgs args (exprTexts cx locals args) := by
    simp only [exprText, hbound, Bool.false_eq_true, if_false]
  cases hsymbol : cx.model.resolve? name with
  | none =>
    rw [hcall, functionCallText, hsymbol] at h
    cases h
  | some symbol =>
    cases hfunction : symbol.function? with
    | none =>
      simp only [hcall, functionCallText, hsymbol, hfunction] at h
      cases h
    | some info => exact globalCall_written hbound hsymbol hfunction h

/-- The call of a member that is no destructor. -/
theorem methodCallText_eq_ok {object : Expr} {name : String} {objectText : Lowered String}
    (hno : cx.isDestructor locals object name = false)
    (h : methodCallText cx locals object name span objectText argTexts = .ok text) :
    ∃ head texts, propertyText cx locals object name span objectText = .ok head ∧
      argTexts = .ok texts ∧ text = head ++ argList texts := by
  unfold methodCallText at h
  dsimp only at h
  split at h
  · rename_i owner howner
    split at h
    · cases h
    · rename_i item info hclass
      split at h
      · rename_i hdestructor
        simp only [Context.isDestructor, howner, hclass, hdestructor] at hno
        cases hno
      · split at h
        · cases h
        · exact applied_eq_ok h
  · split at h
    · exact applied_eq_ok h
    · cases h
  · cases h
  · exact applied_eq_ok h

/-- The call of a destructor. -/
theorem methodCallText_destructor {object : Expr} {name : String} {objectText : Lowered String}
    (hdestructor : cx.isDestructor locals object name = true) :
    methodCallText cx locals object name span objectText argTexts
      = (memberText cx locals object (cx.model.typeOf locals object) (cx.destructorOf locals object)
          span objectText).map (· ++ "()") := by
  unfold Context.isDestructor at hdestructor
  split at hdestructor
  · rename_i owner howner
    split at hdestructor
    · rename_i item info hclass
      have hcondition := of_decide_eq_true hdestructor
      simp only [methodCallText, Context.destructorOf, howner, hclass, hcondition, and_self, if_true]
      cases memberText cx locals object (.classTy owner)
        (Naming.destructor (item.writtenName cx.mangling)) span objectText <;> rfl
    · cases hdestructor
  · cases hdestructor

/-- The call of a member. -/
theorem memberCall_written {place : Span} {object : Expr} {name : String}
    (h : exprText cx locals (.call span (.property place object name) typeArgs args) = .ok text) :
    ∃ head, calleeText cx locals span (.property place object name) = .ok head ∧
      CallWritten cx locals span (.property place object name) head typeArgs args text := by
  have hcall : ∀ typeArgs args,
      exprText cx locals (.call span (.property place object name) typeArgs args)
        = methodCallText cx locals object name span (exprText cx locals object)
          (exprTexts cx locals args) := fun _ _ => by rw [exprText]
  have hsame : ∀ others,
      exprText cx locals (.call span (.property place object name) others args) = .ok text := by
    intro others
    rw [hcall] at h ⊢
    exact h
  by_cases hdestructor : cx.isDestructor locals object name = true
  · have hform : (Expr.property place object name).callForm cx locals = .destructor := by
      simp [Expr.callForm, hdestructor]
    have hany : ∀ others,
        exprText cx locals (.call span (.property place object name) typeArgs others) = .ok text := by
      intro others
      rw [hcall, methodCallText_destructor hdestructor] at h ⊢
      exact h
    rw [hcall, methodCallText_destructor hdestructor] at h
    obtain ⟨head, hhead, rfl⟩ := Lowered.map_eq_ok.mp h
    exact ⟨head, by simpa [calleeText, hdestructor] using hhead,
      .of_form hform ⟨[], [], rfl, by simp, by simp [CallForm.readsTypeArgs]⟩ (by simp) (fun _ => hany)
        fun _ => hsame⟩
  · rw [Bool.not_eq_true] at hdestructor
    have hform : (Expr.property place object name).callForm cx locals = .applied := by
      simp [Expr.callForm, hdestructor]
    rw [hcall] at h
    obtain ⟨head, texts, hhead, htexts, htext⟩ := methodCallText_eq_ok hdestructor h
    exact ⟨head, by simpa [calleeText, hdestructor] using hhead, .applied hform htexts htext hsame⟩

/-- Every call. -/
theorem call_written {callee : Expr}
    (h : exprText cx locals (.call span callee typeArgs args) = .ok text) :
    ∃ head, calleeText cx locals span callee = .ok head ∧
      CallWritten cx locals span callee head typeArgs args text := by
  have hcomputed (hcall : ∀ typeArgs, exprText cx locals (.call span callee typeArgs args) = do
        let head ← exprText cx locals callee
        let texts ← exprTexts cx locals args
        return head ++ argList texts) (hform : callee.callForm cx locals = .applied)
      (hcallee : calleeText cx locals span callee = exprText cx locals callee) :
      ∃ head, calleeText cx locals span callee = .ok head ∧
        CallWritten cx locals span callee head typeArgs args text := by
    have hsame : ∀ others, exprText cx locals (.call span callee others args) = .ok text := by
      intro others
      rw [hcall] at h ⊢
      exact h
    rw [hcall] at h
    obtain ⟨head, texts, hhead, htexts, htext⟩ := applied_eq_ok h
    exact ⟨head, hcallee.trans hhead, .applied hform htexts htext hsame⟩
  cases callee with
  | ident place name => exact ⟨_, rfl, identCall_written h⟩
  | property place object name => exact memberCall_written h
  | _ => exact hcomputed (fun _ => rfl) rfl rfl

end Written

/-! ## Constructions and receiver calls -/

/-- A construction has its arguments behind a text that they have no part in. -/
theorem new_written (cx : Context) (locals : Locals) (span : Span) (target : Expr) :
    ∃ head, ∀ args text, exprText cx locals (.new span target args) = .ok text →
      ∃ texts, exprTexts cx locals args = .ok texts ∧ text = head ++ argList texts := by
  have hnew : ∀ args, exprText cx locals (.new span target args)
      = newText cx target span (exprTexts cx locals args) := fun _ => by rw [exprText]
  cases target with
  | ident place name =>
    cases hclass : cx.model.class? name with
    | none =>
      refine ⟨"", fun args text h => ?_⟩
      rw [hnew, newText, hclass] at h
      cases h
    | some found =>
      refine ⟨cx.piece (found.2.traits.ownership.constructorCallee (found.1.writtenName cx.mangling)),
        fun args text h => ?_⟩
      rw [hnew, newText, hclass] at h
      obtain ⟨texts, htexts, h⟩ := Lowered.bind_eq_ok.mp h
      exact ⟨texts, htexts, Lowered.pure_eq_ok.mp h⟩
  | _ =>
    refine ⟨"", fun args text h => ?_⟩
    rw [hnew] at h
    cases h

/-- A receiver call has its arguments behind a text that they have no part in. All that is added to
them is that the raw pointer is taken from the receiver. -/
theorem receiverCall_written (cx : Context) (locals : Locals) (span : Span) (owner method : String) :
    ∃ head, ∀ args text, exprText cx locals (.receiverCall span owner method args) = .ok text →
      ∃ receiver texts raw, exprTexts cx locals args = .ok (receiver :: texts) ∧
        (raw = "" ∨ raw = ".get()") ∧ text = head ++ argList ((receiver ++ raw) :: texts) := by
  have hcall : ∀ args, exprText cx locals (.receiverCall span owner method args)
      = receiverCallText cx locals owner method args span (exprTexts cx locals args) :=
    fun _ => by rw [exprText]
  cases hclass : cx.model.class? owner with
  | none =>
    refine ⟨"", fun args text h => ?_⟩
    rw [hcall, receiverCallText, hclass] at h
    cases h
  | some found =>
    refine ⟨cx.piece (Naming.receiverFunction (found.1.writtenName cx.mangling) method),
      fun args text h => ?_⟩
    rw [hcall, receiverCallText, hclass] at h
    cases args with
    | nil => cases h
    | cons first rest =>
      obtain ⟨texts, htexts, h⟩ := Lowered.bind_eq_ok.mp h
      obtain ⟨receiver, -, hmore⟩ := Lowered.bind_eq_ok.mp (exprTexts.eq_2 cx locals .. ▸ htexts)
      obtain ⟨more, -, hmore⟩ := Lowered.bind_eq_ok.mp hmore
      obtain rfl := Lowered.pure_eq_ok.mp hmore
      refine ⟨receiver, more, if isSharedHandle cx locals first then ".get()" else "", htexts, ?_,
        Lowered.pure_eq_ok.mp h⟩
      split
      · exact .inr rfl
      · exact .inl rfl

/-- The arguments of a call that gets an explicit receiver come behind the receiver. Its type
arguments make no difference. -/
theorem injectCall_passes {model : Model} {locals : Locals} {span : Span} {callee : Expr}
    {typeArgs : Option (List TypeNode)} {args : List Expr} {place : Span} {owner method : String}
    {passed : List Expr}
    (h : Receiver.injectCall model locals (.call span callee typeArgs args)
      = .ok (.receiverCall place owner method passed)) :
    (∃ receiver, passed = receiver :: args) ∧
      ∀ others, Receiver.injectCall model locals (.call span callee others args)
        = .ok (.receiverCall place owner method passed) := by
  cases callee with
  | property at' object name =>
    unfold Receiver.injectCall at h ⊢
    dsimp only at h ⊢
    split at h
    · cases h
    · rename_i hname
      simp only [hname, if_false]
      obtain ⟨found, hfound, h⟩ := Lowered.bind_eq_ok.mp h
      rw [hfound]
      cases found with
      | none => cases h
      | some own =>
        obtain ⟨receiver, hreceiver, h⟩ := Lowered.bind_eq_ok.mp h
        cases Lowered.pure_eq_ok.mp h
        refine ⟨⟨receiver, rfl⟩, fun _ => ?_⟩
        rw [Lowered.bind_eq_ok]
        exact ⟨some _, rfl, Lowered.bind_eq_ok.mpr ⟨receiver, hreceiver, rfl⟩⟩
  | _ => cases h

/-! ## The whole of a call -/

/-- What is written of the arguments and type arguments of calls, constructions and receiver calls,
and what receiver injection keeps of them. -/
theorem calls_in_full (cx : Context) (locals : Locals) :
    (∀ span callee typeArgs args text,
      exprText cx locals (.call span callee typeArgs args) = .ok text →
      ∃ head, calleeText cx locals span callee = .ok head ∧
        CallWritten cx locals span callee head typeArgs args text) ∧
    (∀ span target, ∃ head, ∀ args text, exprText cx locals (.new span target args) = .ok text →
      ∃ texts, exprTexts cx locals args = .ok texts ∧ text = head ++ argList texts) ∧
    (∀ span owner method, ∃ head, ∀ args text,
      exprText cx locals (.receiverCall span owner method args) = .ok text →
      ∃ receiver texts raw, exprTexts cx locals args = .ok (receiver :: texts) ∧
        (raw = "" ∨ raw = ".get()") ∧ text = head ++ argList ((receiver ++ raw) :: texts)) ∧
    ∀ span callee typeArgs args place owner method passed,
      Receiver.injectCall cx.model locals (.call span callee typeArgs args)
        = .ok (.receiverCall place owner method passed) →
      (∃ receiver, passed = receiver :: args) ∧
        ∀ others, Receiver.injectCall cx.model locals (.call span callee others args)
          = .ok (.receiverCall place owner method passed) :=
  ⟨fun _ _ _ _ _ => call_written, new_written cx locals, receiverCall_written cx locals,
    fun _ _ _ _ _ _ _ _ => injectCall_passes⟩

/-- A model that knows one class, `Counter`, which has a method and a destructor. -/
def counterModel : TypedModel := Names.model <| Tables.names <|
  let info : ClassInfo :=
    { traits := {}, declared := false, fields := [], hasConstructor := false
      methods := ["reset", Spelling.destructor].map fun name =>
        { name, visibility := .publicMember, returnType := none } }
  let item : Item := { name := "Counter", span := {}, info := .classInfo info }
  { values := [("Counter", .item item)], types := [("Counter", .item item)] }

/-- A counter is in scope. -/
def counterLocals : Locals := (Locals.start none).declare "counter" (.classTy "Counter")

open Build in
/-- The argument of a method that is called as one is written. -/
theorem calls_in_full_reset :
    CallWritten ⟨counterModel, {}⟩ counterLocals {} (property (ident "counter") "reset")
      "counter->reset" none [number "1"] "counter->reset(1)" := by
  obtain ⟨head, hhead, hwritten⟩ := (calls_in_full ⟨counterModel, {}⟩ counterLocals).1 {}
    (property (ident "counter") "reset") none [number "1"] "counter->reset(1)" (by cbv)
  have hown : calleeText ⟨counterModel, {}⟩ counterLocals {} (property (ident "counter") "reset")
      = .ok "counter->reset" := by cbv
  rw [hown] at hhead
  cases hhead
  exact hwritten

open Build in
/-- The type arguments of a method call are lost, whether the method is called as one or with an
explicit receiver, and so is the argument of a destructor, even one that has no text. -/
theorem counterCalls_lose :
    let cx : Context := ⟨counterModel, {}⟩
    let reset := callWith (property (ident "counter") "reset") [keyword .number] []
    exprText cx counterLocals reset = .ok "counter->reset()" ∧
    Receiver.injectCall counterModel counterLocals reset
      = .ok (.receiverCall {} "Counter" "reset" [ident "counter"]) ∧
    exprText cx counterLocals (methodCall (ident "counter") Spelling.destructor [ident "missing"])
      = .ok "counter->~tscc_Counter()" ∧
    exprText cx counterLocals (ident "missing") = .error (.fault {} (.unresolvedName "missing")) := by
  refine ⟨?_, ?_, ?_, ?_⟩ <;> cbv

end NativeLowering
