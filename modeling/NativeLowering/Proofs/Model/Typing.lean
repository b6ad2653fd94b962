import NativeLowering.Proofs.Model.Build
import NativeLowering.Proofs.Model.Typed

/-!
# What holds of every type of an expression

Typing takes the types of expressions from few places: the bindings, the names of the model, and the
annotations that the model keeps. A condition that holds there (`Names.TypesMeet`,
`Locals.TypesMeet`) holds of the type of every expression (`Model.typeOf_meets`).
-/

set_option autoImplicit false

namespace NativeLowering

/-! ## Conditions -/

/-- A condition that holds of the types that typing takes from the names. -/
structure Names.TypesMeet (K : Ty → Prop) (names : Names) : Prop where
  primitive : ∀ keyword, K (.primitive keyword)
  function : K .function
  unknown : K .unknown
  /-- A pointer is looked through to its target. -/
  target : ∀ {inner : Ty}, K (.pointer inner) → K inner
  ambient : ∀ {name : String} {ambient : AmbientModule},
    names.resolve? name = some (.ambient ambient) → K (.moduleTy ambient.specifier)
  made : ∀ {name : String}, (names.class? name).isSome = true → K (.classTy name)
  field : ∀ {owner : String} {info : ClassInfo} {field : FieldInfo} {node : TypeNode},
    names.classInfo? owner = some info → field ∈ info.fields → field.type = some node →
    K (names.typeFromNode node)
  method : ∀ {owner : String} {info : ClassInfo} {method : MethodInfo} {node : TypeNode},
    names.classInfo? owner = some info → method ∈ info.methods →
    method.returnType = some node → K (names.typeFromNode node)
  result : ∀ {name : String} {info : FunctionInfo} {node : TypeNode},
    names.function? name = some info → info.returnType = some node → K (names.typeFromNode node)
  exported : ∀ {specifier name : String} {info : FunctionInfo} {node : TypeNode},
    names.exportedFunction? specifier name = some info → info.returnType = some node →
    K (names.typeFromNode node)

/-- The types of the variables and of the instance meet the condition. -/
structure Locals.TypesMeet (K : Ty → Prop) (locals : Locals) : Prop where
  owner : ∀ owner, locals.thisClass = some owner → K (.classTy owner)
  types : ∀ frame ∈ locals.frames, ∀ binding ∈ frame.bindings, K binding.2

/-! ## Bindings -/

namespace Locals.TypesMeet

variable {K : Ty → Prop} {locals : Locals}

theorem start {thisClass : Option String}
    (h : ∀ owner, thisClass = some owner → K (.classTy owner)) :
    (Locals.start thisClass).TypesMeet K :=
  ⟨h, by simp [Locals.start]⟩

theorem push (h : locals.TypesMeet K) (kind : FrameKind) : (locals.push kind).TypesMeet K :=
  ⟨h.owner, List.forall_mem_cons.mpr ⟨nofun, h.types⟩⟩

theorem pop (h : locals.TypesMeet K) : locals.pop.2.TypesMeet K := by
  obtain ⟨frames, thisClass⟩ := locals
  cases frames with
  | nil => exact h
  | cons frame rest => exact ⟨h.owner, (List.forall_mem_cons.mp h.types).2⟩

theorem declare (h : locals.TypesMeet K) (name : String) {type : Ty} (htype : K type) :
    (locals.declare name type).TypesMeet K := by
  obtain ⟨frames, thisClass⟩ := locals
  cases frames with
  | nil => exact h
  | cons frame rest =>
    obtain ⟨hframe, hrest⟩ := List.forall_mem_cons.mp h.types
    exact ⟨h.owner, List.forall_mem_cons.mpr ⟨List.forall_mem_cons.mpr ⟨htype, hframe⟩, hrest⟩⟩

theorem lookup? (h : locals.TypesMeet K) {name : String} {type : Ty}
    (hbound : locals.lookup? name = some type) : K type := by
  obtain ⟨frame, hframe, hbinding⟩ := List.mem_flatMap.mp (mem_of_lookup hbound)
  exact h.types frame hframe _ hbinding

end Locals.TypesMeet

/-! ## Typing -/

namespace Names

variable {K : Ty → Prop} {names : Names} (h : names.TypesMeet K)
include h

theorem classMemberType_meets {owner : String} {info : ClassInfo}
    (hinfo : names.classInfo? owner = some info) (name : String) :
    K (names.classMemberType info name) := by
  unfold classMemberType
  split
  · rename_i field hfield
    cases htype : field.type with
    | none => exact h.unknown
    | some node => exact h.field hinfo (List.mem_of_find?_eq_some hfield) htype
  · split
    · exact h.function
    · exact h.unknown

theorem memberType_meets {type : Ty} (htype : K type) (name : String) :
    K (names.memberType type name) := by
  induction type with
  | classTy owner =>
    rw [memberType]
    split
    · rename_i info hinfo
      exact classMemberType_meets h hinfo name
    · exact h.unknown
  | moduleTy specifier =>
    rw [memberType]
    split
    · exact h.function
    · exact h.unknown
  | pointer inner ih => exact ih (h.target htype)
  | interfaceTy | named | primitive | function | unknown => exact h.unknown

theorem resultType_meets {info : Option FunctionInfo}
    (hinfo : ∀ found, info = some found → ∀ node, found.returnType = some node →
      K (names.typeFromNode node)) : K (names.resultType info) := by
  cases info with
  | none => exact h.unknown
  | some found =>
    cases hnode : found.returnType with
    | none =>
      rw [resultType, hnode]
      exact h.unknown
    | some node =>
      rw [resultType, hnode]
      exact hinfo found rfl node hnode

theorem methodResultType_meets (owner name : String) : K (names.methodResultType owner name) := by
  unfold methodResultType
  split
  · rename_i method hmethod
    obtain ⟨info, hinfo, hfound⟩ := Option.bind_eq_some_iff.mp hmethod
    cases hnode : method.returnType with
    | none => exact h.unknown
    | some node => exact h.method hinfo (List.mem_of_find?_eq_some hfound) hnode
  · exact h.unknown

theorem methodCallType_meets (type : Ty) (name : String) : K (names.methodCallType type name) := by
  cases type with
  | classTy owner => exact methodResultType_meets h owner name
  | moduleTy specifier => exact resultType_meets h fun _ hinfo _ hnode => h.exported hinfo hnode
  | _ => exact h.unknown

theorem valueType_meets (name : String) : K (names.valueType name) := by
  unfold valueType
  split
  · rename_i ambient hambient
    exact h.ambient hambient
  · split
    · exact h.function
    · exact h.unknown
  · exact h.unknown

theorem literalType_meets (value : Literal) : K (literalType value) := by
  cases value with
  | null => exact h.unknown
  | number | string | bool => exact h.primitive _

variable {locals : Locals}

mutual

/-- The type of every expression meets a condition that holds of the types of the bindings and of
those that typing takes from the names. -/
theorem typeOf_meets (hlocals : locals.TypesMeet K) : ∀ value : Expr, K (names.typeOf locals value)
  | .ident _ name => by
    rw [typeOf]
    split
    · rename_i type hbound
      exact hlocals.lookup? hbound
    · exact valueType_meets h name
  | .thisRef _ => by
    rw [typeOf]
    split
    · rename_i owner howner
      exact hlocals.owner owner howner
    · exact h.unknown
  | .literal _ value => literalType_meets h value
  | .property _ object name => memberType_meets h (typeOf_meets hlocals object) name
  | .call _ (.ident _ name) _ _ => resultType_meets h fun _ hinfo _ hnode => h.result hinfo hnode
  | .call _ (.property _ object name) _ _ =>
    methodCallType_meets h (names.typeOf locals object) name
  | .call _ (.thisRef _) _ _ | .call _ (.literal ..) _ _ | .call _ (.call ..) _ _
  | .call _ (.new ..) _ _ | .call _ (.binary ..) _ _ | .call _ (.unary ..) _ _
  | .call _ (.paren ..) _ _ | .call _ (.comma ..) _ _ | .call _ (.receiverCall ..) _ _ => h.unknown
  | .new _ target _ => by
    cases target with
    | ident place name =>
      rw [typeOf]
      split
      · rename_i hclass
        exact h.made hclass
      · exact h.unknown
    | _ => exact h.unknown
  | .binary _ op left _ => by
    rw [typeOf]
    split
    · exact h.primitive _
    · exact typeOf_meets hlocals left
  | .unary _ op operand => by
    cases op with
    | not => exact h.primitive _
    | neg | plus | bitNot => exact typeOf_meets hlocals operand
  | .paren _ inner => typeOf_meets hlocals inner
  | .comma _ items => typeOfLast_meets hlocals items
  | .receiverCall _ owner method _ => methodResultType_meets h owner method

theorem typeOfLast_meets (hlocals : locals.TypesMeet K) :
    ∀ items : List Expr, K (names.typeOfLast locals items)
  | [] => h.unknown
  | [item] => typeOf_meets hlocals item
  | _ :: next :: rest => typeOfLast_meets hlocals (next :: rest)

end

end Names

/-! ## Typed models -/

namespace Model

variable {model : Model} [model.Typed] {K : Ty → Prop} {locals : Locals}

theorem typeOf_meets (h : Names.TypesMeet K model) (hlocals : locals.TypesMeet K) (value : Expr) :
    K (model.typeOf locals value) := by
  rw [model.typeOf_eq]
  exact Names.typeOf_meets h hlocals value

theorem declaredType_meets (h : Names.TypesMeet K model) (hlocals : locals.TypesMeet K)
    {decl : VariableDecl} (hdecl : ∀ node, decl.type = some node → K (model.typeFromNode node)) :
    K (model.declaredType locals decl) := by
  unfold declaredType
  split
  · rename_i hnode
    exact hdecl _ hnode
  · exact typeOf_meets h hlocals _
  · exact h.unknown

end Model

end NativeLowering
