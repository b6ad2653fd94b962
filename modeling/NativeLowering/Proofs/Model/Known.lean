import NativeLowering.Proofs.Model.Kept
import NativeLowering.Proofs.Model.Typing
import NativeLowering.Proofs.Receiver.Defined

/-!
# Types a model can answer for

Writing looks up the classes and modules that the types of expressions mention. With a model that is
built from the program itself it always finds them: a type is a class type only because the model
has the class, a name stands for a module only because its specifier does, and the bindings of a
body hold such types only (`Locals.Reached.known`).
-/

set_option autoImplicit false

namespace NativeLowering

/-! ## Conditions -/

/-- The classes and modules that the type mentions are there. -/
def Ty.KnownTo (names : Names) : Ty → Prop
  | .classTy name => (names.class? name).isSome = true
  | .moduleTy specifier => (names.module? specifier).isSome = true
  | .pointer inner => inner.KnownTo names
  | .interfaceTy _ | .named _ | .primitive _ | .function | .unknown => True

/-- What stands for a module is found under the module's specifier. -/
def Names.Linked (names : Names) : Prop :=
  ∀ name ambient, names.resolve? name = some (.ambient ambient) →
    names.module? ambient.specifier = some ambient

/-- The bindings that passes and writing come to in a program: a body starts with those of its
parameters, opens and closes frames and declares variables, with the type of an annotation or of an
initial value. -/
inductive Locals.Reached (model : Model) (program : Program) : Locals → Prop
  | free : Reached model program (.start none)
  | member {owner : String} : program.Owns owner → Reached model program (.start (some owner))
  | push {locals : Locals} (kind : FrameKind) : Reached model program locals →
    Reached model program (locals.push kind)
  | pop {locals : Locals} : Reached model program locals → Reached model program locals.pop.2
  | annotated {locals : Locals} (name : String) (node : TypeNode) : Reached model program locals →
    Reached model program (locals.declare name (model.typeFromNode node))
  | declared {locals : Locals} (name : String) (decl : VariableDecl) :
    Reached model program locals →
    Reached model program (locals.declare name (model.declaredType locals decl))

/-! ## Typing -/

namespace Names

variable {names : Names}

theorem namedType_known (name : String) : (names.namedType name).KnownTo names := by
  unfold namedType
  split
  next hkind =>
    obtain ⟨symbol, hsymbol, hkind⟩ := Option.map_eq_some_iff.mp hkind
    match symbol, hsymbol, hkind with
    | .item ⟨own, span, .classInfo info⟩, hsymbol, _ =>
      rw [Ty.KnownTo, class?_eq_some.mpr ⟨hsymbol, rfl⟩]
      rfl
  next => trivial
  next => trivial

theorem typeFromNode_known : ∀ node : TypeNode, (names.typeFromNode node).KnownTo names
  | .keyword .. => trivial
  | .reference _ [] _ => trivial
  | .reference _ [name] [] => by
    rw [typeFromNode]
    split
    · trivial
    · exact namedType_known name
  | .reference _ [name] (inner :: _) => by
    rw [typeFromNode]
    split
    · exact typeFromNode_known inner
    · exact namedType_known name
  | .reference _ (_ :: _ :: _) _ => trivial

/-- Typing finds types that are known. -/
theorem typesMeet_known (hnames : names.Linked) : names.TypesMeet (Ty.KnownTo names) where
  primitive _ := trivial
  function := trivial
  unknown := trivial
  target hinner := hinner
  ambient hambient := by
    rw [Ty.KnownTo, hnames _ _ hambient]
    rfl
  made hclass := hclass
  field _ _ _ := typeFromNode_known _
  method _ _ _ := typeFromNode_known _
  result _ _ := typeFromNode_known _
  exported _ _ := typeFromNode_known _

end Names

theorem Model.typeFromNode_known {model : Model} [model.Typed] (node : TypeNode) :
    (model.typeFromNode node).KnownTo model := by
  rw [model.typeFromNode_eq]
  exact Names.typeFromNode_known node

/-- The model answers for the bindings: their classes and modules are there, and so are those of
whatever it types at them. -/
structure Model.Answers (model : Model) (locals : Locals) : Prop where
  typed : model.Typed
  linked : model.Linked
  known : locals.TypesMeet (Ty.KnownTo model)

/-- The type of an expression is known, if the bindings are. -/
theorem Model.Answers.typeOf_known {model : Model} {locals : Locals} (h : model.Answers locals)
    (value : Expr) : (model.typeOf locals value).KnownTo model :=
  have := h.typed
  typeOf_meets (Names.typesMeet_known h.linked) h.known value

/-! ## Bindings -/

theorem Locals.Reached.known {model : Model} [model.Typed] {program : Program}
    (hmodel : model.Linked)
    (howns : ∀ owner, program.Owns owner → (model.class? owner).isSome = true) {locals : Locals}
    (h : locals.Reached model program) : locals.TypesMeet (Ty.KnownTo model) := by
  induction h with
  | free => exact .start nofun
  | member hown =>
    refine .start ?_
    intro other hother
    cases hother
    exact howns _ hown
  | push kind _ ih => exact ih.push kind
  | pop _ ih => exact ih.pop
  | annotated name node _ ih => exact ih.declare name (Model.typeFromNode_known node)
  | declared name decl _ ih =>
    refine ih.declare name (Model.declaredType_meets (Names.typesMeet_known hmodel) ih ?_)
    exact fun node _ => Model.typeFromNode_known node

/-! ## Models that are built -/

namespace Tables

/-- A declared module has its specifier. -/
theorem declare_specifier {decl : Decl} {own : Tables} {specifier : String}
    {ambient : AmbientModule} (hown : declare {} decl = .ok own)
    (hambient : own.module? specifier = some ambient) :
    ambient.specifier = specifier := by
  cases declare_eq_ok.mp hown with
  | moduleDecl hnew hsource =>
    obtain ⟨rfl, rfl⟩ := (lookup_cons_cases hambient).resolve_right (by simp)
    exact ambientModule_specifier hsource
  | _ => cases hambient

/-- An import binds no modules but those that are declared. -/
theorem bindFrom_ambient {find : String → Option AmbientModule} {decl : Decl} {own : Tables}
    {name : String} {ambient : AmbientModule} (hown : bindFrom find {} decl = .ok own)
    (hambient : own.resolve? name = some (.ambient ambient)) :
    ∃ specifier, find specifier = some ambient := by
  cases decl with
  | importDecl span decl =>
    obtain ⟨specifier, -, hown⟩ := Lowered.bind_eq_ok.mp hown
    split at hown
    · cases hown
      cases hambient
    · rename_i source hsource
      unfold bindClause at hown
      split at hown
      · cases hown
        cases hambient
      · obtain ⟨values, hvalues, hown⟩ := Lowered.bind_eq_ok.mp hown
        cases hown
        obtain ⟨-, rfl⟩ := enter_eq_ok.mp hvalues
        obtain ⟨-, hsame⟩ := (lookup_cons_cases hambient).resolve_right (by simp)
        cases hsame
        exact ⟨specifier, hsource⟩
      · -- The names of a named import stand for items.
        rename_i items _
        have hitems (state : Tables) (item : ImportItem) (after : Tables) (_ : item ∈ items)
            (hstate : ∀ name source, state.resolve? name ≠ some (.ambient source))
            (hstep : bindItem source decl.specifier.span state item = .ok after) :
            ∀ name source, after.resolve? name ≠ some (.ambient source) := by
          obtain ⟨member, values, types, -, hvalues, -, rfl⟩ := bindItem_cases hstep
          rcases hvalues with hvalues | rfl
          · obtain ⟨-, rfl⟩ := enter_eq_ok.mp hvalues
            intro name source hsource
            rcases lookup_cons_cases hsource with ⟨-, hsame⟩ | hsource
            · cases hsame
            · exact hstate name source hsource
          · exact hstate
        have hempty (name : String) (source : AmbientModule) :
            resolve? {} name ≠ some (.ambient source) := by
          intro hsource
          cases hsource
        exact absurd hambient (foldlM_keeps hitems hempty hown name ambient)
  | _ =>
    cases hown
    cases hambient

end Tables

namespace Model

section Sources

variable {program : Program} {preludes : List Program} {model : TypedModel}
  (h : build program preludes = .ok model)
include h

theorem build_linked : model.Linked := by
  obtain ⟨tables, htables, rfl⟩ := build_eq_ok.mp h
  intro name ambient hambient
  obtain ⟨owns, imports, hparts, hknown⟩ := Tables.build_parts htables
  obtain ⟨part, hpart, hambient⟩ :=
    List.exists_of_findSome?_eq_some ((hknown.value name).symm.trans hambient)
  rcases List.mem_append.mp hpart with hown | himport
  · obtain ⟨decl, -, hdecl⟩ := Tables.Brings.exists_of_mem hparts.declared hown
    obtain ⟨item, -, -, hsame⟩ := Tables.declare_value hdecl hambient
    cases hsame
  · obtain ⟨decl, -, hdecl⟩ := Tables.Brings.exists_of_mem hparts.imported himport
    obtain ⟨specifier, hfound⟩ := Tables.bindFrom_ambient hdecl hambient
    obtain ⟨own, hown, hmodule⟩ := List.exists_of_findSome?_eq_some hfound
    obtain ⟨source, -, hsource⟩ := Tables.Brings.exists_of_mem hparts.declared hown
    rw [Tables.declare_specifier hsource hmodule]
    refine (hknown.module specifier).trans ?_
    rw [Tables.ambientOf] at hfound
    rw [List.findSome?_append, hfound]
    rfl

theorem build_owns {owner : String} (howns : program.Owns owner) :
    (model.class? owner).isSome = true := by
  obtain ⟨span, decl, hdecl, -, hname⟩ := howns
  obtain ⟨item, hitem, htype⟩ := build_class h hdecl
  obtain rfl : owner = item.name := Option.some.inj (hname.symm.trans (classItem_name hitem))
  have hinfo : (item.class?).isSome = true := by
    unfold classItem at hitem
    split at hitem
    · cases hitem
    · obtain ⟨traits, -, hitem⟩ := Lowered.bind_eq_ok.mp hitem
      cases hitem
      rfl
  obtain ⟨info, hinfo⟩ := Option.isSome_iff_exists.mp hinfo
  rw [Names.class?_eq_some.mpr ⟨htype, hinfo⟩]
  rfl

/-- The name of a function of the program stands for a function. -/
theorem build_function {span : Span} {decl : FunctionDecl} {name : String}
    (hdecl : .functionDecl span decl ∈ program.decls) (hname : decl.name = some name) :
    ∃ symbol, model.resolve? name = some symbol ∧ symbol.kind = .functionKind := by
  have hsource : .functionDecl span decl ∈ sources program preludes := by
    simp only [sources, List.mem_flatMap, List.mem_append, List.mem_singleton]
    exact ⟨program, .inr rfl, hdecl⟩
  obtain ⟨before, behind, hdecls⟩ := List.append_of_mem hsource
  obtain ⟨tables, htables, rfl⟩ := build_eq_ok.mp h
  obtain ⟨owns, imports, hparts, hknown⟩ := Tables.build_parts htables
  obtain ⟨item, hitem, hown, hvalue, -⟩ := hparts.keeps hknown hdecls rfl
  have hkind : item.kind = .functionKind := functionItem_kind hitem
  obtain rfl : name = item.name := Option.some.inj (hname.symm.trans hown)
  obtain ⟨found, hfound, hstands⟩ := hvalue (by rw [hkind]; rfl)
  exact ⟨_, hfound, hstands.kind.trans hkind⟩

end Sources

end Model

end NativeLowering
