import NativeLowering.Emit.Decl
import NativeLowering.Proofs.Layout.Lines
import NativeLowering.Proofs.Pass.Condition
import NativeLowering.Proofs.Surface.Spared

/-!
# Names that can start a line

The text of a program is put together from names that the program and its preludes choose freely,
blanks and line breaks included. A syntax tree is legible if each of its names can start a line, and
nothing is left empty that stands between two others (`Expr.Legible`, `TypeNode.Legible`). A model
is legible if that is true of the names it has things written under, and of the annotations it knows
(`Model.Legible`).

The passes keep a body legible (`Model.Legible.passes`), although they put in names and annotations
that stand nowhere in the body: they take them from the model, or make them up.
-/

set_option autoImplicit false

namespace NativeLowering

open Text (Unbroken StartsLine)
open Stmt (AllList)
open Vocabulary (Builtin BuiltinType)

/-! ## Syntax trees -/

/-- The name of a type can start a line. A name of several components is not written itself: it
stands for an item of a module. -/
def LegibleName : List String → Prop
  | [] => False
  | [name] => StartsLine name
  | _ :: _ :: _ => True

mutual

def TypeNode.Legible : TypeNode → Prop
  | .keyword .. => True
  | .reference _ name args => LegibleName name ∧ TypeNode.LegibleList args

def TypeNode.LegibleList : List TypeNode → Prop
  | [] => True
  | node :: rest => node.Legible ∧ TypeNode.LegibleList rest

end

instance : (name : List String) → Decidable (LegibleName name)
  | [] => inferInstanceAs (Decidable False)
  | [name] => inferInstanceAs (Decidable (StartsLine name))
  | _ :: _ :: _ => inferInstanceAs (Decidable True)

mutual

def TypeNode.decideLegible : (node : TypeNode) → Decidable node.Legible
  | .keyword .. => inferInstanceAs (Decidable True)
  | .reference _ name args =>
    have := TypeNode.decideLegibleList args
    inferInstanceAs (Decidable (LegibleName name ∧ TypeNode.LegibleList args))

def TypeNode.decideLegibleList : (nodes : List TypeNode) → Decidable (TypeNode.LegibleList nodes)
  | [] => inferInstanceAs (Decidable True)
  | node :: rest =>
    have := node.decideLegible
    have := TypeNode.decideLegibleList rest
    inferInstanceAs (Decidable (node.Legible ∧ TypeNode.LegibleList rest))

end

instance (node : TypeNode) : Decidable node.Legible := node.decideLegible

/-- A number is written in the spelling it has. -/
def Literal.Legible : Literal → Prop
  | .number spelling => StartsLine spelling
  | .string _ | .bool _ | .null => True

mutual

/-- Every name in the expression can start a line, and no list of expressions between commas is
empty. -/
def Expr.Legible : Expr → Prop
  | .ident _ name => StartsLine name
  | .thisRef _ => True
  | .literal _ value => value.Legible
  | .property _ object name => object.Legible ∧ StartsLine name
  | .call _ callee typeArgs args =>
    callee.Legible ∧ TypeNode.LegibleList (typeArgs.getD []) ∧ Expr.LegibleList args
  | .new _ target args => target.Legible ∧ Expr.LegibleList args
  | .binary _ _ left right => left.Legible ∧ right.Legible
  | .unary _ _ operand => operand.Legible
  | .paren _ inner => inner.Legible
  | .comma _ items => items ≠ [] ∧ Expr.LegibleList items
  | .receiverCall _ _ method args => StartsLine method ∧ Expr.LegibleList args

def Expr.LegibleList : List Expr → Prop
  | [] => True
  | item :: rest => item.Legible ∧ Expr.LegibleList rest

end

/-- The name and the annotation of a variable can start a line. -/
def LegibleBinding : DeclCondition := fun name type =>
  (∀ own, name = .ident own → StartsLine own) ∧ ∀ node, type = some node → node.Legible

/-- What is written of a function, method, constructor or destructor between its braces is legible,
and so are the types of its parameters. -/
structure Emit.FunctionShape.Legible (shape : Emit.FunctionShape) : Prop where
  owner : ∀ owner, shape.thisClass = some owner → StartsLine owner
  params : ∀ param ∈ shape.params, ∀ node, param.type = some node → node.Legible
  body : AllList Expr.Legible LegibleBinding shape.body

/-! ## Models -/

/-- The annotations on an item that typing looks at. -/
def Item.annotations (item : Item) : List TypeNode :=
  match item.info with
  | .classInfo info =>
    info.fields.filterMap FieldInfo.type ++ info.methods.filterMap MethodInfo.returnType
  | .functionInfo info => info.returnType.toList
  | .interfaceInfo _ | .aliasInfo => []

@[mk_iff] structure Item.Legible (mangling : String) (item : Item) : Prop where
  name : StartsLine item.name
  written : StartsLine (item.writtenName mangling)
  types : ∀ node ∈ item.annotations, node.Legible

instance (mangling : String) (item : Item) : Decidable (item.Legible mangling) :=
  decidable_of_iff _ (Item.legible_iff mangling item).symm

/-- The members of a module are written with its native namespace. -/
@[mk_iff] structure AmbientModule.Legible (mangling : String) (ambient : AmbientModule) : Prop where
  items : ∀ entry ∈ ambient.members, entry.2.Legible mangling
  qualified : ∀ entry ∈ ambient.members,
    StartsLine (Naming.qualifiedIn ambient.traits.nativeSpace (entry.2.writtenName mangling))

instance (mangling : String) (ambient : AmbientModule) : Decidable (ambient.Legible mangling) :=
  decidable_of_iff _ (AmbientModule.legible_iff mangling ambient).symm

def Symbol.Legible (mangling : String) : Symbol → Prop
  | .item own => own.Legible mangling
  | .ambient source => source.Legible mangling

instance (mangling : String) : (symbol : Symbol) → Decidable (symbol.Legible mangling)
  | .item own => inferInstanceAs (Decidable (own.Legible mangling))
  | .ambient source => inferInstanceAs (Decidable (source.Legible mangling))

/-- Everything that names stand for is written under a name that can start a line, and has legible
annotations. -/
structure Names.Legible (mangling : String) (names : Names) : Prop where
  value : ∀ name symbol, names.resolve? name = some symbol → symbol.Legible mangling
  type : ∀ name symbol, names.resolveType? name = some symbol → symbol.Legible mangling
  module : ∀ specifier ambient, names.module? specifier = some ambient → ambient.Legible mangling

/-- The same of all that stands in tables, which can be decided. -/
@[mk_iff] structure Tables.Legible (mangling : String) (tables : Tables) : Prop where
  values : ∀ entry ∈ tables.values, entry.2.Legible mangling
  types : ∀ entry ∈ tables.types, entry.2.Legible mangling
  modules : ∀ entry ∈ tables.modules, entry.2.Legible mangling

instance (mangling : String) (tables : Tables) : Decidable (tables.Legible mangling) :=
  decidable_of_iff _ (Tables.legible_iff mangling tables).symm

theorem Tables.Legible.names {mangling : String} {tables : Tables} (h : tables.Legible mangling) :
    tables.names.Legible mangling where
  value _ _ hknown := h.values _ (mem_of_lookup hknown)
  type _ _ hknown := h.types _ (mem_of_lookup hknown)
  module _ _ hknown := h.modules _ (mem_of_lookup hknown)

namespace Names.Legible

variable {mangling : String} {names : Names} (h : names.Legible mangling)
include h

theorem class? {name : String} {item : Item} {info : ClassInfo}
    (hknown : names.class? name = some (item, info)) :
    item.Legible mangling ∧ item.info = .classInfo info := by
  obtain ⟨hsymbol, hclass⟩ := Names.class?_eq_some.mp hknown
  refine ⟨h.type _ _ hsymbol, ?_⟩
  unfold Item.class? at hclass
  split at hclass
  · rename_i hinfo
    cases hclass
    exact hinfo
  · cases hclass

end Names.Legible

/-! ## Types -/

/-- The names in the type can start a line once the type is written as an annotation. -/
def Ty.Legible : Ty → Prop
  | .classTy name | .interfaceTy name | .named name => LegibleName (nameComponents name)
  | .pointer inner => inner.Legible
  | .primitive _ | .moduleTy _ | .function | .unknown => True

theorem legibleName_components {name : String} (h : StartsLine name) :
    LegibleName (nameComponents name) := by
  have hjoined := nameComponents_joined name
  cases hparts : nameComponents name with
  | nil =>
    rw [hparts] at hjoined
    exact absurd hjoined.symm h.opens.ne_empty
  | cons first rest =>
    cases rest with
    | nil =>
      rw [hparts, String.intercalate_singleton] at hjoined
      rw [hjoined]
      exact h
    | cons second others => trivial

/-- A name that is put together from several components falls apart into several. -/
theorem legibleName_dotted (first second : String) (rest : List String) :
    LegibleName (nameComponents (".".intercalate (first :: second :: rest))) := by
  have hchars : (".".intercalate (first :: second :: rest)).toList
      = first.toList ++ '.' :: (".".intercalate (second :: rest)).toList := by
    rw [String.intercalate_cons_cons]
    simp
  rw [nameComponents, hchars, List.splitOn_append_cons_self, List.map_append]
  cases hfirst : first.toList.splitOn '.' with
  | nil => exact absurd hfirst (List.splitOn_ne_nil _ _)
  | cons part parts =>
    cases hrest : (".".intercalate (second :: rest)).toList.splitOn '.' with
    | nil => exact absurd hrest (List.splitOn_ne_nil _ _)
    | cons other others => cases parts <;> trivial

theorem TypeNode.Legible.type (names : Names) : ∀ node : TypeNode, node.Legible →
    (names.typeFromNode node).Legible
  | .keyword .., _ => trivial
  | .reference _ [name] args, h => by
    have hnamed : (names.namedType name).Legible := by
      unfold Names.namedType
      split <;> exact legibleName_components h.1
    cases args with
    | nil =>
      rw [Names.typeFromNode]
      split
      · trivial
      · exact hnamed
    | cons inner rest =>
      rw [Names.typeFromNode]
      split
      · exact TypeNode.Legible.type names inner h.2.1
      · exact hnamed
  | .reference _ [] _, h => nomatch h.1
  | .reference _ (first :: second :: rest) _, _ => legibleName_dotted first second rest

theorem Ty.Legible.node {type : Ty} (h : type.Legible) {span : Span} {node : TypeNode}
    (hnode : type.toTypeNode? span = some node) : node.Legible := by
  induction type generalizing node with
  | classTy name | interfaceTy name | named name =>
    cases hnode
    exact ⟨h, trivial⟩
  | pointer inner ih =>
    obtain ⟨written, hwritten, rfl⟩ := Option.map_eq_some_iff.mp hnode
    refine ⟨?_, ih h hwritten, trivial⟩
    show StartsLine BuiltinType.pointer.spelling
    decide
  | primitive keyword =>
    cases hnode
    trivial
  | moduleTy | function | unknown => cases hnode

/-! ## Bindings -/

/-- The types of the variables in scope, and the class of the instance, are legible. -/
structure Locals.Legible (locals : Locals) : Prop where
  owner : ∀ owner, locals.thisClass = some owner → StartsLine owner
  types : ∀ frame ∈ locals.frames, ∀ binding ∈ frame.bindings, binding.2.Legible

namespace Locals.Legible

variable {locals : Locals}

theorem push (h : locals.Legible) (kind : FrameKind) : (locals.push kind).Legible :=
  ⟨h.owner, List.forall_mem_cons.mpr ⟨nofun, h.types⟩⟩

theorem declare (h : locals.Legible) (name : String) {type : Ty} (htype : type.Legible) :
    (locals.declare name type).Legible := by
  obtain ⟨frames, thisClass⟩ := locals
  cases frames with
  | nil => exact h
  | cons frame rest =>
    obtain ⟨hframe, hrest⟩ := List.forall_mem_cons.mp h.types
    exact ⟨h.owner, List.forall_mem_cons.mpr ⟨List.forall_mem_cons.mpr ⟨htype, hframe⟩, hrest⟩⟩

theorem lookup? (h : locals.Legible) {name : String} {type : Ty}
    (hbound : locals.lookup? name = some type) : type.Legible := by
  obtain ⟨frame, hframe, hbinding⟩ := List.mem_flatMap.mp (mem_of_lookup hbound)
  exact h.types frame hframe _ hbinding

end Locals.Legible

/-! ## Typing -/

namespace Names.Legible

variable {mangling : String} {names : Names}

theorem typeFromOption {type : Option TypeNode} (htype : ∀ node, type = some node → node.Legible) :
    (names.typeFromOption type).Legible := by
  cases type with
  | none => trivial
  | some node => exact (htype node rfl).type names node

section Members

variable (h : names.Legible mangling)
include h

theorem classInfo? {owner : String} {info : ClassInfo}
    (hknown : names.classInfo? owner = some info) :
    (∀ field ∈ info.fields, ∀ node, field.type = some node → node.Legible) ∧
      ∀ method ∈ info.methods, ∀ node, method.returnType = some node → node.Legible := by
  obtain ⟨⟨item, found⟩, hfound, rfl⟩ := Option.map_eq_some_iff.mp hknown
  obtain ⟨hitem, hinfo⟩ := h.class? hfound
  have htypes := hitem.types
  simp only [Item.annotations, hinfo, List.mem_append, List.mem_filterMap] at htypes
  constructor
  · intro field hfield node hnode
    exact htypes node (.inl ⟨field, hfield, hnode⟩)
  · intro method hmethod node hnode
    exact htypes node (.inr ⟨method, hmethod, hnode⟩)

theorem memberType (type : Ty) (name : String) : (names.memberType type name).Legible := by
  induction type with
  | classTy owner =>
    rw [Names.memberType]
    cases hknown : names.classInfo? owner with
    | none => trivial
    | some info =>
      obtain ⟨hfields, -⟩ := h.classInfo? hknown
      dsimp only
      unfold Names.classMemberType
      cases hfield : info.field? name with
      | none =>
        dsimp only
        split <;> trivial
      | some field =>
        exact typeFromOption (hfields field (List.mem_of_find?_eq_some hfield))
  | moduleTy specifier =>
    rw [Names.memberType]
    split <;> trivial
  | pointer inner ih => exact ih
  | interfaceTy | named | primitive | function | unknown => trivial

theorem methodResultType (owner name : String) : (names.methodResultType owner name).Legible := by
  unfold Names.methodResultType
  split
  · rename_i method hmethod
    obtain ⟨info, hknown, hfound⟩ := Option.bind_eq_some_iff.mp hmethod
    exact typeFromOption ((h.classInfo? hknown).2 method (List.mem_of_find?_eq_some hfound))
  · trivial

omit h in
theorem result {info : Option FunctionInfo}
    (hinfo : ∀ known, info = some known →
      ∃ item : Item, item.Legible mangling ∧ item.function? = info) :
    (names.resultType info).Legible := by
  cases info with
  | none => trivial
  | some known =>
    obtain ⟨item, hitem, hfunction⟩ := hinfo known rfl
    refine typeFromOption fun node hnode => hitem.types node ?_
    unfold Item.function? at hfunction
    split at hfunction
    · rename_i hfound
      cases hfunction
      simp [Item.annotations, hfound, hnode]
    · cases hfunction

theorem functionType (name : String) : (names.resultType (names.function? name)).Legible := by
  apply result
  intro known hknown
  obtain ⟨symbol, hsymbol, hfunction⟩ := Option.bind_eq_some_iff.mp hknown
  cases symbol with
  | item own => exact ⟨own, h.value _ _ hsymbol, hfunction.trans hknown.symm⟩
  | ambient source => cases hfunction

theorem methodCallType (type : Ty) (name : String) : (names.methodCallType type name).Legible := by
  cases type with
  | classTy owner => exact h.methodResultType owner name
  | moduleTy specifier =>
    apply result
    intro known hknown
    unfold Names.exportedFunction? at hknown ⊢
    obtain ⟨ambient, hambient, hmember⟩ := Option.bind_eq_some_iff.mp hknown
    obtain ⟨item, hitem, hfunction⟩ := Option.bind_eq_some_iff.mp hmember
    exact ⟨item, (h.module _ _ hambient).items _ (mem_of_lookup hitem), hfunction.trans hknown.symm⟩
  | interfaceTy | named | pointer | primitive | function | unknown => trivial

end Members

section Typing

variable {locals : Locals}

mutual

theorem typeOf (h : names.Legible mangling) (hlocals : locals.Legible) :
    ∀ value : Expr, value.Legible → (names.typeOf locals value).Legible
  | .ident _ name, _ => by
    rw [Names.typeOf]
    cases hbound : locals.lookup? name with
    | some type => exact hlocals.lookup? hbound
    | none =>
      dsimp only
      unfold Names.valueType
      split
      · trivial
      · split <;> trivial
      · trivial
  | .thisRef _, _ => by
    rw [Names.typeOf]
    cases howner : locals.thisClass with
    | none => trivial
    | some owner => exact legibleName_components (hlocals.owner owner howner)
  | .literal _ value, _ => by cases value <;> trivial
  | .property _ object name, _ => h.memberType (names.typeOf locals object) name
  | .call _ (.ident _ name) _ _, _ => h.functionType name
  | .call _ (.property _ object name) _ _, _ => h.methodCallType (names.typeOf locals object) name
  | .call _ (.thisRef _) _ _, _ | .call _ (.literal ..) _ _, _ | .call _ (.call ..) _ _, _
  | .call _ (.new ..) _ _, _ | .call _ (.binary ..) _ _, _ | .call _ (.unary ..) _ _, _
  | .call _ (.paren ..) _ _, _ | .call _ (.comma ..) _ _, _ | .call _ (.receiverCall ..) _ _, _ =>
    trivial
  | .new _ target _, hvalue => by
    cases target with
    | ident place name =>
      rw [Names.typeOf]
      split
      · exact legibleName_components hvalue.1
      · trivial
    | _ => trivial
  | .binary _ op left _, hvalue => by
    rw [Names.typeOf]
    split
    · trivial
    · exact typeOf h hlocals left hvalue.1
  | .unary _ op operand, hvalue => by
    cases op with
    | not => trivial
    | neg | plus | bitNot => exact typeOf h hlocals operand hvalue
  | .paren _ inner, hvalue => typeOf h hlocals inner hvalue
  | .comma _ items, hvalue => typeOfLast h hlocals items hvalue.2
  | .receiverCall _ owner method _, _ => h.methodResultType owner method

theorem typeOfLast (h : names.Legible mangling) (hlocals : locals.Legible) :
    ∀ items : List Expr, Expr.LegibleList items →
    (names.typeOfLast locals items).Legible
  | [], _ => trivial
  | [item], hitems => typeOf h hlocals item hitems.1
  | _ :: next :: rest, hitems => typeOfLast h hlocals (next :: rest) hitems.2

end

end Typing

section Models

variable {model : Model} [model.Typed]

theorem annotation {node : TypeNode} (h : node.Legible) : (model.typeFromNode node).Legible := by
  rw [model.typeFromNode_eq]
  exact h.type model node

variable {locals : Locals} (h : Names.Legible mangling model) (hlocals : locals.Legible)
include h hlocals

theorem expression {value : Expr} (hvalue : value.Legible) :
    (model.typeOf locals value).Legible := by
  rw [model.typeOf_eq]
  exact h.typeOf hlocals value hvalue

theorem declaredType {decl : VariableDecl} (hdecl : decl.All Expr.Legible LegibleBinding) :
    (model.declaredType locals decl).Legible := by
  obtain ⟨⟨-, htype⟩, hinit⟩ := hdecl
  unfold Model.declaredType
  cases hnode : decl.type with
  | some node => exact annotation (htype node hnode)
  | none =>
    cases hvalue : decl.init with
    | none => trivial
    | some value => exact h.expression hlocals (hinit value hvalue)

end Models

end Names.Legible

/-! ## Passes -/

/-- Legibility looks at each expression by itself. -/
def legibleNodes : NodeCondition where
  name := StartsLine
  literal := Literal.Legible
  types := TypeNode.LegibleList
  comma count := count ≠ 0
  receiver _ method _ := StartsLine method

mutual

theorem Expr.legible_iff : ∀ value : Expr, value.Legible ↔ value.Meets legibleNodes
  | .ident .. | .thisRef _ | .literal .. => Iff.rfl
  | .property _ object _ => and_congr (legible_iff object) Iff.rfl
  | .call _ callee _ args =>
    and_congr (legible_iff callee) (and_congr Iff.rfl (legibleList_iff args))
  | .new _ target args => and_congr (legible_iff target) (legibleList_iff args)
  | .binary _ _ left right => and_congr (legible_iff left) (legible_iff right)
  | .unary _ _ operand => legible_iff operand
  | .paren _ inner => legible_iff inner
  | .comma _ items =>
    and_congr (not_congr List.length_eq_zero_iff.symm) (legibleList_iff items)
  | .receiverCall _ _ _ args => and_congr Iff.rfl (legibleList_iff args)

theorem Expr.legibleList_iff : ∀ items : List Expr,
    Expr.LegibleList items ↔ Expr.AllMeet legibleNodes items
  | [] => Iff.rfl
  | item :: rest => and_congr (legible_iff item) (legibleList_iff rest)

end

theorem startsLine_temporary (n : Nat) : StartsLine (Spelling.temporary n) := by
  have hstem : StartsLine Spelling.temporaryStem := by decide
  refine hstem.append fun hfeed => ?_
  rw [Nat.toList_repr] at hfeed
  exact absurd (Nat.isDigit_of_mem_toDigits (by decide) (by decide) hfeed) (by decide)

namespace Names.Legible

variable {mangling : String} {model : Model} [model.Typed] (h : Names.Legible mangling model)
include h

/-- What the passes put into a legible body is legible. -/
theorem closed : legibleNodes.Closed LegibleBinding Locals.Legible model where
  push kind hlocals := hlocals.push kind
  declare hlocals hdecl _ := by
    have hlegible : VariableDecl.All Expr.Legible LegibleBinding _ :=
      ⟨hdecl.1, fun init hinit => (Expr.legible_iff init).mpr (hdecl.2 init hinit)⟩
    exact hlocals.declare _ (h.declaredType hlocals hlegible)
  noTypes := trivial
  pair := (by decide : 2 ≠ 0)
  destructor hname := ⟨hname.1 _ rfl, (by decide : StartsLine Spelling.destructor)⟩
  address hsymbol := by
    obtain ⟨own, rfl, hfound⟩ := Names.builtin?_eq_some hsymbol
    have hlegible : own.Legible mangling := h.value _ _ hfound
    exact hlegible.name
  receiver _ _ hmethod := hmethod
  temporary {_ value _ _} n hlocals hvalue hnode := by
    have htype := h.expression hlocals ((Expr.legible_iff value).mpr hvalue)
    refine ⟨startsLine_temporary n, ?_, ?_⟩
    · intro own hown
      cases hown
      exact startsLine_temporary n
    · intro node hsame
      cases hsame
      exact htype.node hnode

/-- **The passes keep a body legible.** -/
theorem passes {passes : PassSet} {policy : DestructorPolicy} {locals : Locals}
    (hlocals : locals.Legible) {body result : List Stmt}
    (hbody : AllList Expr.Legible LegibleBinding body)
    (hrun : passes.run model policy locals body = .ok result) :
    AllList Expr.Legible LegibleBinding result := by
  have hmeets : AllList (Expr.Meets legibleNodes) LegibleBinding body :=
    hbody.imp (fun value hvalue => (Expr.legible_iff value).mp hvalue) fun _ _ hdecl => hdecl
  exact (h.closed.passes hlocals hmeets hrun).imp
    (fun value hvalue => (Expr.legible_iff value).mpr hvalue) fun _ _ hdecl => hdecl

end Names.Legible

end NativeLowering
