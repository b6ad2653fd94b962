import NativeLowering.Proofs.Model.Build
import NativeLowering.Proofs.Model.Typed
import NativeLowering.Proofs.Syntax.Bodies
import NativeLowering.TypeText

/-!
# Names that an addition to the surface spares

A prelude adds names to what native code provides. What is written against a model cannot tell
whether the model knows these names, as long as it asks for none of them. This file says what it
means for a syntax tree to spare the names of an addition (`SparesExpr`, `SparesType`), relates a
model to the one with the addition (`Extended`), and shows that both type a tree the same way
(`typeOf_same`), up to a difference that nothing observes (`Ty.Same`).

A plain identifier need not be spared. It may be the name of a variable that a pass has made up; and
if it is neither bound nor known without the addition, nothing can be written in the first place.
What may not be among the new functions is the name of a callee, since a call is typed by its name
whether or not the name is bound.
-/

set_option autoImplicit false

namespace NativeLowering

open Vocabulary (Builtin BuiltinType)

/-- The names that a prelude adds. -/
structure Addition where
  names : List String
  /-- Those of them that are names of functions. -/
  functions : List String
  functions_subset : functions ⊆ names

namespace Addition

variable (added : Addition)

/-! ## Syntax trees -/

def Spares (name : String) : Prop := name ∉ added.names

instance (name : String) : Decidable (added.Spares name) :=
  inferInstanceAs (Decidable (name ∉ added.names))

/-- The components of a dotted name are spared. -/
def SparesParts (name : String) : Prop := ∀ part ∈ nameComponents name, added.Spares part

instance (name : String) : Decidable (added.SparesParts name) :=
  inferInstanceAs (Decidable (∀ part ∈ nameComponents name, added.Spares part))

/-- The pointer constructor is not looked up, so an addition may have its name. -/
def SparesReference (name : List String) : Prop :=
  (∃ own, name = [own] ∧ BuiltinType.ofString? own = some .pointer) ∨
    (∀ segment ∈ name, added.Spares segment) ∧ added.SparesParts (".".intercalate name)

mutual

/-- The names that an annotation refers to are spared. -/
def SparesType : TypeNode → Prop
  | .keyword .. => True
  | .reference _ name args => added.SparesReference name ∧ SparesTypes args

def SparesTypes : List TypeNode → Prop
  | [] => True
  | node :: rest => SparesType node ∧ SparesTypes rest

end

def SparesOption (type : Option TypeNode) : Prop := ∀ node, type = some node → added.SparesType node

/-- What may be called. The bare instance is called under the name of the receiver parameter once
that has taken its place, so whether it may be called is left open here. -/
def SparesCallee (thisCalled : Prop) : Expr → Prop
  | .ident _ name => name ∉ added.functions
  | .thisRef _ => thisCalled
  | _ => True

mutual

/-- The names that an expression refers to are spared, except for plain identifiers. -/
def SparesExpr (thisCalled : Prop) : Expr → Prop
  | .ident .. | .thisRef _ | .literal .. => True
  | .property _ object _ => SparesExpr thisCalled object
  | .call _ callee typeArgs args =>
    (added.SparesCallee thisCalled callee ∧ added.SparesTypes (typeArgs.getD [])) ∧
      SparesExpr thisCalled callee ∧ SparesExprs thisCalled args
  | .new _ target args =>
    (∀ span name, target = .ident span name → added.Spares name ∧ added.SparesParts name) ∧
      SparesExprs thisCalled args
  | .binary _ _ left right => SparesExpr thisCalled left ∧ SparesExpr thisCalled right
  | .unary _ _ operand => SparesExpr thisCalled operand
  | .paren _ inner => SparesExpr thisCalled inner
  | .comma _ items => SparesExprs thisCalled items
  | .receiverCall _ owner _ args => added.Spares owner ∧ SparesExprs thisCalled args

def SparesExprs (thisCalled : Prop) : List Expr → Prop
  | [] => True
  | item :: rest => SparesExpr thisCalled item ∧ SparesExprs thisCalled rest

end

/-! ## Models -/

/-- What is known of an item spares the addition. -/
def SparesItem (item : Item) : Prop :=
  match item.info with
  | .classInfo info =>
    (∀ field ∈ info.fields, added.SparesOption field.type) ∧
      ∀ method ∈ info.methods, added.SparesOption method.returnType
  | .functionInfo info => added.SparesOption info.returnType
  | .interfaceInfo _ | .aliasInfo => True

theorem SparesItem.of_class? {added : Addition} {item : Item} (h : added.SparesItem item)
    {info : ClassInfo} (hinfo : item.class? = some info) :
    (∀ field ∈ info.fields, added.SparesOption field.type) ∧
      ∀ method ∈ info.methods, added.SparesOption method.returnType := by
  unfold Item.class? at hinfo
  unfold SparesItem at h
  split at hinfo
  · rename_i heq
    cases hinfo
    rw [heq] at h
    exact h
  · cases hinfo

theorem SparesItem.of_function? {added : Addition} {item : Item} (h : added.SparesItem item)
    {info : FunctionInfo} (hinfo : item.function? = some info) :
    added.SparesOption info.returnType := by
  unfold Item.function? at hinfo
  unfold SparesItem at h
  split at hinfo
  · rename_i heq
    cases hinfo
    rw [heq] at h
    exact h
  · cases hinfo

structure SparesModule (ambient : AmbientModule) : Prop where
  specifier : added.Spares ambient.specifier
  members : ∀ name item, ambient.member? name = some item → added.SparesItem item

def SparesSymbol : Symbol → Prop
  | .item item => added.SparesItem item
  | .ambient ambient => added.SparesModule ambient

/-- The names that a model knows are spared, and so is all that it knows of them. -/
structure SparesNames (names : Names) : Prop where
  value : ∀ name symbol, names.resolve? name = some symbol →
    added.Spares name ∧ added.SparesSymbol symbol
  type : ∀ name symbol, names.resolveType? name = some symbol →
    added.Spares name ∧ added.SparesSymbol symbol
  module : ∀ name ambient, names.module? name = some ambient →
    added.Spares name ∧ added.SparesModule ambient

/-- The second model is the first with the addition: it knows the same of every name that is spared,
and what it knows besides are items. -/
structure Extended (names names' : Names) : Prop where
  spares : added.SparesNames names
  proper : names.Proper
  value : ∀ name, added.Spares name → names'.resolve? name = names.resolve? name
  type : ∀ name, added.Spares name → names'.resolveType? name = names.resolveType? name
  module : ∀ name, added.Spares name → names'.module? name = names.module? name
  items : ∀ name symbol, ¬ added.Spares name → names'.resolve? name = some symbol →
    ∃ item, symbol = .item item ∧ (item.function?.isSome → name ∈ added.functions)

end Addition

namespace Addition.Extended

variable {added : Addition} {names names' : Names} (h : added.Extended names names')
include h

theorem resolve? {name : String} {symbol : Symbol} (hknown : names.resolve? name = some symbol) :
    names'.resolve? name = some symbol :=
  (h.value name (h.spares.value name symbol hknown).1).trans hknown

theorem resolveType? {name : String} {symbol : Symbol}
    (hknown : names.resolveType? name = some symbol) : names'.resolveType? name = some symbol :=
  (h.type name (h.spares.type name symbol hknown).1).trans hknown

theorem module? {name : String} {ambient : AmbientModule}
    (hknown : names.module? name = some ambient) : names'.module? name = some ambient :=
  (h.module name (h.spares.module name ambient hknown).1).trans hknown

theorem class?_of_spares {name : String} (hname : added.Spares name) :
    names'.class? name = names.class? name := by
  simp only [Names.class?, h.type name hname]

theorem class? {name : String} {found : Item × ClassInfo}
    (hknown : names.class? name = some found) : names'.class? name = some found := by
  obtain ⟨item, info⟩ := found
  obtain ⟨hitem, hinfo⟩ := Names.class?_eq_some.mp hknown
  exact Names.class?_eq_some.mpr ⟨h.resolveType? hitem, hinfo⟩

theorem classInfo?_of_spares {name : String} (hname : added.Spares name) :
    names'.classInfo? name = names.classInfo? name := by
  simp only [Names.classInfo?, h.class?_of_spares hname]

theorem isSharedClass_of_spares {name : String} (hname : added.Spares name) :
    names'.isSharedClass name = names.isSharedClass name := by
  simp only [Names.isSharedClass, h.classInfo?_of_spares hname]

/-- A name that is none of the new functions is the same function, or still none. -/
theorem function? {name : String} (hname : name ∉ added.functions) :
    names'.function? name = names.function? name := by
  by_cases hspared : added.Spares name
  · simp only [Names.function?, h.value name hspared]
  · have hunknown : names.resolve? name = none := by
      cases hknown : names.resolve? name with
      | none => rfl
      | some symbol => exact absurd (h.spares.value name symbol hknown).1 hspared
    simp only [Names.function?, hunknown, Option.bind_none]
    cases hnew : names'.resolve? name with
    | none => rfl
    | some symbol =>
      obtain ⟨item, rfl, hitem⟩ := h.items name symbol hspared hnew
      cases hfunction : item.function? with
      | none => exact hfunction
      | some info => exact absurd (hitem (by simp [hfunction])) hname

theorem builtin? {builtin : Builtin} {symbol : Symbol}
    (hknown : names.builtin? builtin = some symbol) : names'.builtin? builtin = some symbol := by
  unfold Names.builtin? at hknown ⊢
  obtain ⟨found, hfound, hrest⟩ := Option.bind_eq_some_iff.mp hknown
  exact Option.bind_eq_some_iff.mpr ⟨found, h.resolve? hfound, hrest⟩

/-- A built-in is declared under its own spelling, so that is known and not among the new names. -/
theorem builtin?_name {builtin : Builtin} {symbol : Symbol}
    (hknown : names.builtin? builtin = some symbol) : symbol.name ∉ added.functions := by
  have hname : symbol.name = builtin.spelling :=
    Builtin.eq_spelling (h.proper.ofString?_name hknown)
  obtain ⟨found, hfound, -⟩ := Option.bind_eq_some_iff.mp hknown
  intro hmem
  rw [hname] at hmem
  exact (h.spares.value builtin.spelling found hfound).1 (added.functions_subset hmem)

end Addition.Extended

/-! ## Types -/

namespace Addition

variable (added : Addition)

/-- The names in a type are spared, also once it is written as an annotation. -/
def SparesTy : Ty → Prop
  | .classTy name | .interfaceTy name => added.Spares name ∧ added.SparesParts name
  | .named name => added.SparesParts name
  | .pointer inner => SparesTy inner
  | .moduleTy specifier => added.Spares specifier
  | .primitive _ | .function | .unknown => True

end Addition

/-- Nothing is known of a value of the type but that it may be a function. -/
def Ty.Blank : Ty → Prop
  | .function | .unknown => True
  | _ => False

/-- The types are the same and spared, or nothing is known in either case. -/
def Ty.Same (added : Addition) (type type' : Ty) : Prop :=
  (type' = type ∧ added.SparesTy type) ∨ (type.Blank ∧ type'.Blank)

/-- The components of a name make up the name again. -/
theorem nameComponents_joined (name : String) : ".".intercalate (nameComponents name) = name := by
  have hchars : (".".intercalate (nameComponents name)).toList = name.toList := by
    rw [String.toList_intercalate, nameComponents, List.map_map]
    simp only [Function.comp_def, String.toList_ofList, List.map_id']
    exact List.intercalate_splitOn '.'
  exact String.toList_injective hchars

/-- What a type is written with spares what the type spares. -/
theorem Addition.toTypeNode?_spares {added : Addition} {type : Ty} (htype : added.SparesTy type)
    {span : Span} {node : TypeNode} (hnode : type.toTypeNode? span = some node) :
    added.SparesType node := by
  have hname (name : String) (hparts : added.SparesParts name) :
      added.SparesType (.reference span (nameComponents name) []) := by
    refine ⟨.inr ⟨hparts, ?_⟩, trivial⟩
    rw [nameComponents_joined]
    exact hparts
  induction type generalizing node with
  | classTy name | interfaceTy name =>
    cases hnode
    exact hname name htype.2
  | named name =>
    cases hnode
    exact hname name htype
  | pointer inner ih =>
    obtain ⟨written, hwritten, rfl⟩ := Option.map_eq_some_iff.mp hnode
    exact ⟨.inl ⟨_, rfl, rfl⟩, ih htype hwritten, trivial⟩
  | primitive keyword =>
    cases hnode
    trivial
  | moduleTy | function | unknown => cases hnode

namespace Addition.Extended

variable {added : Addition} {names names' : Names}

/-! ### Annotations -/

section Annotations

variable (h : added.Extended names names')
include h

theorem namedType_same {name : String} (hname : added.Spares name)
    (hparts : added.SparesParts name) :
    names'.namedType name = names.namedType name ∧ added.SparesTy (names.namedType name) := by
  unfold Names.namedType
  rw [h.type name hname]
  refine ⟨rfl, ?_⟩
  split
  · exact ⟨hname, hparts⟩
  · exact ⟨hname, hparts⟩
  · exact hparts

/-- A simple name that is no pointer. -/
theorem simpleType_same {name : String} (hname : added.SparesReference [name])
    (hpointer : BuiltinType.ofString? name ≠ some .pointer) :
    names'.namedType name = names.namedType name ∧ added.SparesTy (names.namedType name) := by
  rcases hname with ⟨own, heq, hown⟩ | ⟨hsegments, hparts⟩
  · cases heq
    exact absurd hown hpointer
  · exact h.namedType_same (hsegments name (by simp)) hparts

theorem typeFromNode_names : ∀ node : TypeNode, added.SparesType node →
    names'.typeFromNode node = names.typeFromNode node ∧ added.SparesTy (names.typeFromNode node)
  | .keyword _ keyword, _ => ⟨rfl, trivial⟩
  | .reference _ [name] [], hnode => by
    simp only [Names.typeFromNode]
    split
    · exact ⟨rfl, trivial⟩
    · rename_i hpointer
      exact h.simpleType_same hnode.1 hpointer
  | .reference _ [name] (inner :: rest), hnode => by
    simp only [Names.typeFromNode]
    split
    · obtain ⟨heq, hspares⟩ := typeFromNode_names inner hnode.2.1
      exact ⟨by rw [heq], hspares⟩
    · rename_i hpointer
      exact h.simpleType_same hnode.1 hpointer
  | .reference _ [] _, hnode => by
    refine ⟨rfl, ?_⟩
    rcases hnode.1 with ⟨own, heq, -⟩ | ⟨-, hparts⟩
    · cases heq
    · exact hparts
  | .reference _ (_ :: _ :: _) _, hnode => by
    refine ⟨rfl, ?_⟩
    rcases hnode.1 with ⟨own, heq, -⟩ | ⟨-, hparts⟩
    · cases heq
    · exact hparts

theorem typeFromOption_names {type : Option TypeNode} (htype : added.SparesOption type) :
    names'.typeFromOption type = names.typeFromOption type ∧
      added.SparesTy (names.typeFromOption type) := by
  cases type with
  | none => exact ⟨rfl, trivial⟩
  | some node => exact h.typeFromNode_names node (htype node rfl)

end Annotations

/-! ### Members and calls -/

section Members

variable (h : added.Extended names names')
include h

theorem classInfo?_spares {name : String} {info : ClassInfo}
    (hknown : names.classInfo? name = some info) :
    (∀ field ∈ info.fields, added.SparesOption field.type) ∧
      ∀ method ∈ info.methods, added.SparesOption method.returnType := by
  obtain ⟨⟨item, found⟩, hclass, rfl⟩ := Option.map_eq_some_iff.mp hknown
  obtain ⟨hitem, hinfo⟩ := Names.class?_eq_some.mp hclass
  have hspares : added.SparesItem item := (h.spares.type name _ hitem).2
  exact hspares.of_class? hinfo

theorem function?_spares {name : String} {info : FunctionInfo}
    (hknown : names.function? name = some info) : added.SparesOption info.returnType := by
  obtain ⟨symbol, hsymbol, hinfo⟩ := Option.bind_eq_some_iff.mp hknown
  have hspares := (h.spares.value name symbol hsymbol).2
  cases symbol with
  | ambient ambient => cases hinfo
  | item item => exact SparesItem.of_function? hspares hinfo

theorem exportedFunction?_spares {specifier name : String} {info : FunctionInfo}
    (hknown : names.exportedFunction? specifier name = some info) :
    added.SparesOption info.returnType := by
  obtain ⟨ambient, hambient, hknown⟩ := Option.bind_eq_some_iff.mp hknown
  obtain ⟨item, hitem, hinfo⟩ := Option.bind_eq_some_iff.mp hknown
  exact ((h.spares.module specifier ambient hambient).2.members name item hitem).of_function? hinfo

theorem exportedFunction?_of_spares {specifier : String} (hname : added.Spares specifier)
    (name : String) :
    names'.exportedFunction? specifier name = names.exportedFunction? specifier name := by
  simp only [Names.exportedFunction?, h.module specifier hname]

theorem resultType_same {info : Option FunctionInfo}
    (hinfo : ∀ found, info = some found → added.SparesOption found.returnType) :
    names'.resultType info = names.resultType info ∧ added.SparesTy (names.resultType info) := by
  cases info with
  | none => exact ⟨rfl, trivial⟩
  | some found => exact h.typeFromOption_names (hinfo found rfl)

theorem methodResultType_same {owner : String} (howner : added.Spares owner) (name : String) :
    names'.methodResultType owner name = names.methodResultType owner name ∧
      added.SparesTy (names.methodResultType owner name) := by
  unfold Names.methodResultType
  rw [h.classInfo?_of_spares howner]
  cases hmethod : (names.classInfo? owner).bind (·.method? name) with
  | none => exact ⟨rfl, trivial⟩
  | some method =>
    obtain ⟨info, hinfo, hfound⟩ := Option.bind_eq_some_iff.mp hmethod
    exact h.typeFromOption_names
      ((h.classInfo?_spares hinfo).2 method (List.mem_of_find?_eq_some hfound))

theorem classMemberType_same {owner : String} {info : ClassInfo}
    (hknown : names.classInfo? owner = some info) (name : String) :
    names'.classMemberType info name = names.classMemberType info name ∧
      added.SparesTy (names.classMemberType info name) := by
  unfold Names.classMemberType
  cases hfield : info.field? name with
  | some field =>
    exact h.typeFromOption_names
      ((h.classInfo?_spares hknown).1 field (List.mem_of_find?_eq_some hfield))
  | none =>
    refine ⟨rfl, ?_⟩
    dsimp only
    split <;> trivial

theorem memberType_same {type : Ty} (htype : added.SparesTy type) (name : String) :
    names'.memberType type name = names.memberType type name ∧
      added.SparesTy (names.memberType type name) := by
  induction type with
  | classTy owner =>
    simp only [Names.memberType, h.classInfo?_of_spares htype.1]
    cases hinfo : names.classInfo? owner with
    | none => exact ⟨rfl, trivial⟩
    | some info => exact h.classMemberType_same hinfo name
  | moduleTy specifier =>
    simp only [Names.memberType, h.exportedFunction?_of_spares htype]
    refine ⟨trivial, ?_⟩
    split <;> trivial
  | pointer inner ih => exact ih htype
  | interfaceTy | named | primitive | function | unknown => exact ⟨rfl, trivial⟩

theorem methodCallType_same {type : Ty} (htype : added.SparesTy type) (name : String) :
    names'.methodCallType type name = names.methodCallType type name ∧
      added.SparesTy (names.methodCallType type name) := by
  cases type with
  | classTy owner => exact h.methodResultType_same htype.1 name
  | moduleTy specifier =>
    simp only [Names.methodCallType, h.exportedFunction?_of_spares htype]
    exact h.resultType_same fun _ hfound => h.exportedFunction?_spares hfound
  | pointer | interfaceTy | named | primitive | function | unknown => exact ⟨rfl, trivial⟩

/-- A global name that is not known without the addition has no type worth mentioning. -/
theorem valueType_same (name : String) :
    Ty.Same added (names.valueType name) (names'.valueType name) := by
  unfold Names.valueType
  by_cases hname : added.Spares name
  · rw [h.value name hname]
    refine .inl ⟨rfl, ?_⟩
    cases hknown : names.resolve? name with
    | none => trivial
    | some symbol =>
      cases symbol with
      | ambient ambient =>
        have hspares : added.SparesModule ambient := (h.spares.value name _ hknown).2
        exact hspares.specifier
      | item item =>
        dsimp only
        split <;> trivial
  · have hunknown : names.resolve? name = none := by
      cases hknown : names.resolve? name with
      | none => rfl
      | some symbol => exact absurd (h.spares.value name symbol hknown).1 hname
    rw [hunknown]
    refine .inr ⟨trivial, ?_⟩
    cases hnew : names'.resolve? name with
    | none => trivial
    | some symbol =>
      obtain ⟨item, rfl, -⟩ := h.items name symbol hname hnew
      dsimp only
      split <;> trivial

end Members

end Addition.Extended

/-! ## Bindings -/

/-- The same names are bound, to types that are the same as far as anything is known. -/
structure Locals.Same (added : Addition) (locals locals' : Locals) : Prop where
  thisClass : locals'.thisClass = locals.thisClass
  owner : ∀ owner, locals.thisClass = some owner → added.Spares owner ∧ added.SparesParts owner
  frames : List.Forall₂ (fun frame frame' => List.Forall₂ (fun binding binding' =>
    binding'.1 = binding.1 ∧ Ty.Same added binding.2 binding'.2) frame.bindings frame'.bindings)
    locals.frames locals'.frames

namespace Locals.Same

variable {added : Addition} {locals locals' : Locals}

theorem push (h : Locals.Same added locals locals') (kind : FrameKind) :
    Locals.Same added (locals.push kind) (locals'.push kind) :=
  ⟨h.thisClass, h.owner, .cons .nil h.frames⟩

theorem pop (h : Locals.Same added locals locals') :
    Locals.Same added locals.pop.2 locals'.pop.2 := by
  obtain ⟨frames, thisClass⟩ := locals
  obtain ⟨frames', thisClass'⟩ := locals'
  obtain ⟨hthis, howner, hframes⟩ := h
  cases hframes with
  | nil => exact ⟨hthis, howner, .nil⟩
  | cons hframe hrest => exact ⟨hthis, howner, hrest⟩

theorem declare (h : Locals.Same added locals locals') (name : String) {type type' : Ty}
    (htype : Ty.Same added type type') :
    Locals.Same added (locals.declare name type) (locals'.declare name type') := by
  obtain ⟨frames, thisClass⟩ := locals
  obtain ⟨frames', thisClass'⟩ := locals'
  obtain ⟨hthis, howner, hframes⟩ := h
  cases hframes with
  | nil => exact ⟨hthis, howner, .nil⟩
  | cons hframe hrest => exact ⟨hthis, howner, .cons (.cons ⟨rfl, htype⟩ hframe) hrest⟩

theorem visible (h : Locals.Same added locals locals') :
    List.Forall₂ (fun binding binding' => binding'.1 = binding.1 ∧
      Ty.Same added binding.2 binding'.2) locals.visible locals'.visible := by
  have hframes := h.frames
  unfold Locals.visible
  generalize locals.frames = frames, locals'.frames = frames' at hframes
  induction hframes with
  | nil => exact .nil
  | cons hframe hrest ih =>
    rw [List.flatMap_cons, List.flatMap_cons]
    exact List.rel_append hframe ih

theorem lookup? (h : Locals.Same added locals locals') (name : String) :
    Option.Rel (Ty.Same added) (locals.lookup? name) (locals'.lookup? name) := by
  have hvisible := h.visible
  unfold Locals.lookup?
  generalize locals.visible = bindings, locals'.visible = bindings' at hvisible
  induction hvisible with
  | nil => exact .none
  | cons hbinding hrest ih =>
    obtain ⟨hname, htype⟩ := hbinding
    rw [List.lookup_cons, List.lookup_cons, hname]
    split
    · exact .some htype
    · exact ih

theorem binds (h : Locals.Same added locals locals') (name : String) :
    locals'.binds name = locals.binds name := by
  have hlookup := h.lookup? name
  unfold Locals.binds
  generalize locals.lookup? name = bound, locals'.lookup? name = bound' at hlookup
  cases hlookup with
  | none => rfl
  | some htype => rfl

end Locals.Same

/-! ## Expressions -/

namespace Addition.Extended

variable {added : Addition} {names names' : Names} {thisCalled : Prop}

section Parts

variable (h : added.Extended names names')
include h

theorem memberType_like {type type' : Ty} (htype : Ty.Same added type type') (name : String) :
    Ty.Same added (names.memberType type name) (names'.memberType type' name) := by
  rcases htype with ⟨rfl, hspares⟩ | ⟨hblank, hblank'⟩
  · exact .inl (h.memberType_same hspares name)
  · cases type <;> cases hblank <;> cases type' <;> cases hblank' <;> exact .inr ⟨trivial, trivial⟩

theorem methodCallType_like {type type' : Ty} (htype : Ty.Same added type type') (name : String) :
    Ty.Same added (names.methodCallType type name) (names'.methodCallType type' name) := by
  rcases htype with ⟨rfl, hspares⟩ | ⟨hblank, hblank'⟩
  · exact .inl (h.methodCallType_same hspares name)
  · cases type <;> cases hblank <;> cases type' <;> cases hblank' <;> exact .inr ⟨trivial, trivial⟩

/-- A construction is of a class, or nothing is known of it. -/
theorem newType_same (span : Span) {target : Expr}
    (htarget : ∀ place name, target = .ident place name →
      added.Spares name ∧ added.SparesParts name) (args : List Expr) (locals locals' : Locals) :
    Ty.Same added (names.typeOf locals (.new span target args))
      (names'.typeOf locals' (.new span target args)) := by
  cases target with
  | ident place name =>
    obtain ⟨hname, hparts⟩ := htarget place name rfl
    simp only [Names.typeOf, h.class?_of_spares hname]
    split
    · exact .inl ⟨rfl, hname, hparts⟩
    · exact .inl ⟨rfl, trivial⟩
  | _ => exact .inl ⟨rfl, trivial⟩

theorem identType_same {locals locals' : Locals} (hlocals : Locals.Same added locals locals')
    (span : Span) (name : String) :
    Ty.Same added (names.typeOf locals (.ident span name))
      (names'.typeOf locals' (.ident span name)) := by
  have hlookup := hlocals.lookup? name
  rw [Names.typeOf, Names.typeOf]
  generalize locals.lookup? name = bound, locals'.lookup? name = bound' at hlookup
  cases hlookup with
  | none => exact h.valueType_same name
  | some htype => exact htype

end Parts

section Typing

variable {locals locals' : Locals}

mutual

theorem typeOf_names (h : added.Extended names names')
    (hlocals : Locals.Same added locals locals') :
    ∀ value : Expr, added.SparesExpr thisCalled value →
    Ty.Same added (names.typeOf locals value) (names'.typeOf locals' value)
  | .ident span name, _ => h.identType_same hlocals span name
  | .thisRef span, _ => by
    rw [Names.typeOf, Names.typeOf, hlocals.thisClass]
    cases howner : locals.thisClass with
    | none => exact .inl ⟨rfl, trivial⟩
    | some owner => exact .inl ⟨rfl, hlocals.owner owner howner⟩
  | .literal _ value, _ => by
    refine .inl ⟨rfl, ?_⟩
    cases value <;> trivial
  | .property _ object name, hvalue => h.memberType_like (typeOf_names h hlocals object hvalue) name
  | .call _ (.ident _ name) _ _, hvalue => by
    have hname : name ∉ added.functions := hvalue.1.1
    rw [Names.typeOf, Names.typeOf, h.function? hname]
    exact .inl (h.resultType_same fun _ hfound => h.function?_spares hfound)
  | .call _ (.property _ object name) _ _, hvalue =>
    h.methodCallType_like (typeOf_names h hlocals object hvalue.2.1) name
  | .call _ (.thisRef _) _ _, _ | .call _ (.literal ..) _ _, _ | .call _ (.call ..) _ _, _
  | .call _ (.new ..) _ _, _ | .call _ (.binary ..) _ _, _ | .call _ (.unary ..) _ _, _
  | .call _ (.paren ..) _ _, _ | .call _ (.comma ..) _ _, _ | .call _ (.receiverCall ..) _ _, _ =>
    .inl ⟨rfl, trivial⟩
  | .new span target args, hvalue => h.newType_same span hvalue.1 args locals locals'
  | .binary _ op left _, hvalue => by
    rw [Names.typeOf, Names.typeOf]
    split
    · exact .inl ⟨rfl, trivial⟩
    · exact typeOf_names h hlocals left hvalue.1
  | .unary _ op operand, hvalue => by
    cases op with
    | not => exact .inl ⟨rfl, trivial⟩
    | neg | plus | bitNot => exact typeOf_names h hlocals operand hvalue
  | .paren _ inner, hvalue => typeOf_names h hlocals inner hvalue
  | .comma _ items, hvalue => typeOfLast_names h hlocals items hvalue
  | .receiverCall _ owner method _, hvalue => .inl (h.methodResultType_same hvalue.1 method)

theorem typeOfLast_names (h : added.Extended names names')
    (hlocals : Locals.Same added locals locals') :
    ∀ items : List Expr, added.SparesExprs thisCalled items →
    Ty.Same added (names.typeOfLast locals items) (names'.typeOfLast locals' items)
  | [], _ => .inl ⟨rfl, trivial⟩
  | [item], hitems => typeOf_names h hlocals item hitems.1
  | _ :: next :: rest, hitems => typeOfLast_names h hlocals (next :: rest) hitems.2

end

end Typing

/-! ## Typed models -/

section Typed

variable {model model' : Model} [model.Typed] [model'.Typed]

theorem typeFromNode_same (h : added.Extended model model') (node : TypeNode)
    (hnode : added.SparesType node) :
    model'.typeFromNode node = model.typeFromNode node ∧
      added.SparesTy (model.typeFromNode node) := by
  rw [model.typeFromNode_eq, model'.typeFromNode_eq]
  exact h.typeFromNode_names node hnode

variable {locals locals' : Locals}

theorem typeOf_same (h : added.Extended model model') (hlocals : Locals.Same added locals locals')
    (value : Expr) (hvalue : added.SparesExpr thisCalled value) :
    Ty.Same added (model.typeOf locals value) (model'.typeOf locals' value) := by
  rw [model.typeOf_eq, model'.typeOf_eq]
  exact h.typeOf_names hlocals value hvalue

theorem declaredType_same (h : added.Extended model model')
    (hlocals : Locals.Same added locals locals') {decl : VariableDecl}
    (hdecl : decl.All (added.SparesExpr thisCalled) fun _ type => added.SparesOption type) :
    Ty.Same added (model.declaredType locals decl) (model'.declaredType locals' decl) := by
  obtain ⟨htype, hinit⟩ := hdecl
  unfold Model.declaredType
  cases hnode : decl.type with
  | some node => exact .inl (h.typeFromNode_same node (htype node hnode))
  | none =>
    cases hvalue : decl.init with
    | none => exact .inl ⟨rfl, trivial⟩
    | some value => exact h.typeOf_same hlocals value (hinit value hvalue)

end Typed

/-! ## Types as they are written -/

variable {model model' : Model}

theorem qualifiedItem_same (h : added.Extended model model') {qualifier : String}
    (hname : added.Spares qualifier) (name : String) (span : Span) :
    qualifiedItem model' qualifier name span = qualifiedItem model qualifier name span := by
  simp only [qualifiedItem, h.value qualifier hname]

/-- A simple name is written the same way, given that it is so as a pointer and that its arguments
are. -/
theorem simpleText_same (h : added.Extended model model') {name mangling : String}
    (hname : added.SparesReference [name])
    {wrapping : Wrapping} {span : Span} {args : List TypeNode} {pointer pointer' : Lowered String}
    {texts texts' : Lowered (List String)} (hpointer : pointer' = pointer)
    (htexts : texts' = texts) :
    (if BuiltinType.ofString? name = some .pointer then pointer'
      else
        match model'.resolveType? name with
        | some (.item item) => itemTypeText mangling item none args texts' wrapping span
        | some (.ambient source) => failAt span (.notType source.specifier .moduleKind)
        | none => texts'.map (appliedType name))
    = if BuiltinType.ofString? name = some .pointer then pointer
      else
        match model.resolveType? name with
        | some (.item item) => itemTypeText mangling item none args texts wrapping span
        | some (.ambient source) => failAt span (.notType source.specifier .moduleKind)
        | none => texts.map (appliedType name) := by
  subst hpointer htexts
  rcases hname with ⟨own, heq, hown⟩ | ⟨hsegments, -⟩
  · cases heq
    rw [if_pos hown, if_pos hown]
  · rw [h.type name (hsegments name (by simp))]

mutual

theorem typeTextWith_same (h : added.Extended model model') (mangling : String) :
    ∀ (wrapping : Wrapping) (node : TypeNode),
    added.SparesType node →
    typeTextWith model' mangling wrapping node = typeTextWith model mangling wrapping node
  | _, .keyword .., _ => rfl
  | wrapping, .reference span [name] [], hnode => by
    rw [typeTextWith.eq_def, typeTextWith.eq_def]
    exact h.simpleText_same hnode.1 rfl rfl
  | wrapping, .reference span [name] [inner], hnode => by
    rw [typeTextWith.eq_def, typeTextWith.eq_def]
    refine h.simpleText_same hnode.1 ?_ (typeTexts_same h mangling [inner] hnode.2)
    simp only [typeTextWith_same h mangling .bare inner hnode.2.1]
  | wrapping, .reference span [name] (first :: second :: rest), hnode => by
    rw [typeTextWith.eq_def, typeTextWith.eq_def]
    have htexts := typeTexts_same h mangling (first :: second :: rest) hnode.2
    exact h.simpleText_same hnode.1 rfl htexts
  | wrapping, .reference span [qualifier, name] args, hnode => by
    rcases hnode.1 with ⟨own, heq, -⟩ | ⟨hsegments, -⟩
    · cases heq
    · simp only [typeTextWith, h.qualifiedItem_same (hsegments qualifier (by simp)),
        typeTexts_same h mangling args hnode.2]
  | _, .reference _ [] _, _ => rfl
  | _, .reference _ (_ :: _ :: _ :: _) _, _ => rfl

theorem typeTexts_same (h : added.Extended model model') (mangling : String) :
    ∀ nodes : List TypeNode, added.SparesTypes nodes →
    typeTexts model' mangling nodes = typeTexts model mangling nodes
  | [], _ => rfl
  | node :: rest, hnodes => by
    rw [typeTexts, typeTexts, typeTextWith_same h mangling .owned node hnodes.1,
      typeTexts_same h mangling rest hnodes.2]

end

end Addition.Extended

end NativeLowering
