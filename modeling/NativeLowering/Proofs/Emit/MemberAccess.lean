import NativeLowering.Generate
import NativeLowering.Proofs.Emit.ExprText
import NativeLowering.Proofs.Model.Build
import NativeLowering.Proofs.Syntax.Bodies

/-!
# Member access and the type of the owner

The annotation of a variable is read twice: once for the native type the variable is declared with
(`typeText`), once for what stands between the variable and a member (`separator`). The two readings
have to agree, since a member of a shared instance is reached through its handle and a member of a
value is not.

`Model.accessOf` says what an annotation asks for, from the class it resolves to. For a keyword, a
pointer and a simple name that is what is written. A name qualified by a module is read as a class
for the type and as an unknown native name for the access, so a dot is written whatever the class
(`property_access_iff`).
-/

set_option autoImplicit false

namespace NativeLowering

open Vocabulary (BuiltinType)

/-! ## What an annotation asks for -/

namespace TypeNode

/-- Whether the annotation is a raw pointer. -/
def isPointer : TypeNode → Bool
  | .reference _ [name] _ => BuiltinType.ofString? name = some .pointer
  | _ => false

/-- Whether the annotation is a name in a module. -/
def isQualified : TypeNode → Bool
  | .reference _ [_, _] _ => true
  | _ => false

end TypeNode

namespace Model

/-- The class that an annotation refers to, by a simple name or by a name in a module. -/
def annotatedClass? (model : Model) : TypeNode → Option ClassInfo
  | .reference _ [name] _ =>
    if BuiltinType.ofString? name = some .pointer then none else model.classInfo? name
  | .reference _ [qualifier, name] _ => do
    let ambient ← (model.resolve? qualifier).bind Symbol.ambient?
    let item ← ambient.member? name
    item.class?
  | _ => none

/-- What has to stand between a variable with the annotation and a member. -/
def accessOf (model : Model) (node : TypeNode) : String :=
  match model.annotatedClass? node with
  | some info =>
    if info.traits.nativeSpace.isSome then "::" else if info.isShared then "->" else "."
  | none => if node.isPointer then "->" else "."

end Model

/-- A point of a body in the scope of a parameter or variable with an annotation. Entering one binds
its name to the type that the annotation denotes; blocks are opened and other names are bound
after that. -/
inductive InScope (model : Model) (name : String) (node : TypeNode) : Locals → Prop
  | entered {locals : Locals} (framed : locals.frames ≠ []) :
    InScope model name node (locals.declare name (model.typeFromNode node))
  | inner {locals : Locals} (kind : FrameKind) (outer : InScope model name node locals) :
    InScope model name node (locals.push kind)
  | beside {locals : Locals} {other : String} (type : Ty) (ne : other ≠ name)
    (outer : InScope model name node locals) :
    InScope model name node (locals.declare other type)

variable {model : Model} {name : String} {node : TypeNode} {locals : Locals}

theorem InScope.framed (h : InScope model name node locals) : locals.frames ≠ [] := by
  induction h with
  | entered framed => exact Locals.declare_frames_ne_nil framed _ _
  | inner kind outer ih => simp [Locals.push]
  | beside type ne outer ih => exact Locals.declare_frames_ne_nil ih _ _

theorem InScope.lookup (h : InScope model name node locals) :
    locals.lookup? name = some (model.typeFromNode node) := by
  induction h with
  | entered framed => simp [Locals.lookup?_declare framed]
  | inner kind outer ih =>
    rw [← ih, Locals.lookup?, Locals.lookup?, Locals.visible_push]
  | beside type ne outer ih => rw [Locals.lookup?_declare outer.framed, if_neg ne.symm, ih]

/-! ## The type as it is written -/

/-- An item that has a text as a type is a class or a type alias, and a class is wrapped as its
ownership asks. -/
theorem itemTypeText_owned {mangling : String} {item : Item} {space : Option String}
    {args : List TypeNode} {argTexts : Lowered (List String)} {span : Span} {text : String}
    (h : itemTypeText mangling item space args argTexts .owned span = .ok text) :
    (∃ info written, item.class? = some info ∧
      text = info.traits.ownership.typeReference written) ∨
      item.class? = none ∧ item.kind = .aliasKind := by
  unfold itemTypeText at h
  cases hinfo : item.info with
  | classInfo info =>
    rw [hinfo] at h
    cases args with
    | nil =>
      left
      refine ⟨info, Naming.qualifiedIn space (info.traits.writtenName mangling item.name), ?_, ?_⟩
      · simp [Item.class?, hinfo]
      · cases h
        rfl
    | cons arg rest => cases h
  | aliasInfo =>
    right
    simp [Item.class?, Item.kind, hinfo]
  | functionInfo info =>
    rw [hinfo] at h
    cases h
  | interfaceInfo methods =>
    rw [hinfo] at h
    cases h

/-- The text of a simple name that is not the pointer constructor. -/
theorem typeTextWith_simple {model : Model} {mangling : String} {wrapping : Wrapping} {span : Span}
    {name : String} (hpointer : BuiltinType.ofString? name ≠ some .pointer) (args : List TypeNode) :
    typeTextWith model mangling wrapping (.reference span [name] args)
      = match model.resolveType? name with
        | some (.item item) =>
          itemTypeText mangling item none args (typeTexts model mangling args) wrapping span
        | some (.ambient source) => failAt span (.notType source.specifier .moduleKind)
        | none => (typeTexts model mangling args).map (appliedType name) := by
  rw [typeTextWith.eq_def]
  exact if_neg hpointer

section Readings

variable {cx : Context} {place : Span} {args : List TypeNode} {written : String}

/-- There are three ways to reach a member. -/
theorem separator_cases {owner : Ty} {member : String} {span : Span} {between : String}
    (h : separator cx owner member span = .ok between) :
    between = "." ∨ between = "->" ∨ between = "::" := by
  unfold separator at h
  split at h
  · split at h
    · cases h
    · rename_i info _
      split at h
      · cases h
        exact .inr (.inr rfl)
      · cases h
        cases info.traits.ownership
        · exact .inl rfl
        · exact .inr (.inl rfl)
  · cases h
    exact .inr (.inl rfl)
  · cases h
    exact .inl rfl
  · cases h
    exact .inl rfl
  · cases h
  · cases h
  · cases h
  · cases h

/-- A class of a simple name is accessed as its traits ask. -/
theorem separator_class {name : String} {item : Item} {info : ClassInfo}
    (hitem : cx.model.resolveType? name = some (.item item)) (hinfo : item.class? = some info)
    (member : String) (span : Span) :
    separator cx (.classTy name) member span = .ok
      (if info.traits.nativeSpace.isSome then "::" else if info.isShared then "->" else ".") := by
  rw [separator, Names.classInfo?_eq hitem, hinfo]
  by_cases hspace : info.traits.nativeSpace.isSome = true
  · simp [hspace]
  · cases hown : info.traits.ownership <;>
      simp [hspace, ClassInfo.isShared, Ownership.memberAccess, hown]

theorem qualified_reading {qualifier name : String}
    (h : typeText cx.model cx.mangling (.reference place [qualifier, name] args) = .ok written) :
    ∀ info, cx.model.annotatedClass? (.reference place [qualifier, name] args) = some info →
      ∃ own, written = info.traits.ownership.typeReference own := by
  intro info hinfo
  obtain ⟨ambient, hambient, hinfo⟩ := Option.bind_eq_some_iff.mp hinfo
  obtain ⟨item, hmember, hinfo⟩ := Option.bind_eq_some_iff.mp hinfo
  simp only [typeText, typeTextWith, qualifiedItem, hambient, hmember] at h
  rcases itemTypeText_owned h with ⟨found, own, hfound, rfl⟩ | ⟨hnone, -⟩
  · rw [hfound] at hinfo
    cases hinfo
    exact ⟨own, rfl⟩
  · rw [hnone] at hinfo
    cases hinfo

variable [cx.model.Typed]

theorem pointer_reading {name : String} (hpointer : BuiltinType.ofString? name = some .pointer)
    (h : typeText cx.model cx.mangling (.reference place [name] args) = .ok written)
    (member : String) (span : Span) :
    separator cx (cx.model.typeFromNode (.reference place [name] args)) member span = .ok "->" := by
  cases args with
  | nil =>
    -- A pointer without an argument has no text.
    simp only [typeText, typeTextWith, hpointer, if_true] at h
    cases h
  | cons inner rest => rw [cx.model.typeFromNode_pointer hpointer, separator]

theorem simple_reading {name : String} (hpointer : BuiltinType.ofString? name ≠ some .pointer)
    (h : typeText cx.model cx.mangling (.reference place [name] args) = .ok written)
    (member : String) (span : Span) :
    (∀ info, cx.model.classInfo? name = some info →
      ∃ own, written = info.traits.ownership.typeReference own) ∧
    separator cx (cx.model.typeFromNode (.reference place [name] args)) member span
      = .ok (cx.model.accessOf (.reference place [name] args)) := by
  rw [typeText, typeTextWith_simple hpointer] at h
  have haccess : cx.model.accessOf (.reference place [name] args)
      = match cx.model.classInfo? name with
        | some info =>
          if info.traits.nativeSpace.isSome then "::" else if info.isShared then "->" else "."
        | none => "." := by
    simp only [Model.accessOf, Model.annotatedClass?, TypeNode.isPointer, hpointer]
    cases cx.model.classInfo? name <;> simp
  rw [cx.model.typeFromNode_simple hpointer, haccess]
  match hitem : cx.model.resolveType? name with
  | none =>
    have hnone : cx.model.classInfo? name = none := by
      simp [Names.classInfo?, Names.class?, hitem]
    rw [Names.namedType_other (by simp [hitem]), hnone]
    exact ⟨by simp, rfl⟩
  | some (.ambient source) =>
    rw [hitem] at h
    cases h
  | some (.item item) =>
    rw [hitem] at h
    rw [Names.classInfo?_eq hitem]
    rcases itemTypeText_owned h with ⟨info, own, hinfo, rfl⟩ | ⟨hnone, halias⟩
    · rw [Names.namedType_class hitem hinfo, hinfo, separator_class hitem hinfo]
      refine ⟨fun found hfound => ?_, rfl⟩
      cases hfound
      exact ⟨own, rfl⟩
    · have hother : cx.model.namedType name = .named name := by
        refine Names.namedType_other fun found hfound => ?_
        rw [hitem] at hfound
        cases hfound
        exact halias
      rw [hother, hnone]
      exact ⟨by simp, rfl⟩

/-- **The two readings of an annotation.** Where the annotation has a text as a type, the class that
it refers to is wrapped as its ownership asks, and the access is the one that the annotation asks
for, except that a qualified name always gets a dot. -/
theorem typeText_separator {node : TypeNode}
    (h : typeText cx.model cx.mangling node = .ok written) (member : String) (span : Span) :
    (∀ info, cx.model.annotatedClass? node = some info →
      ∃ own, written = info.traits.ownership.typeReference own) ∧
    separator cx (cx.model.typeFromNode node) member span
      = .ok (if node.isQualified then "." else cx.model.accessOf node) := by
  match node, h with
  | .keyword place keyword, h =>
    rw [cx.model.typeFromNode_keyword]
    exact ⟨by simp [Model.annotatedClass?], rfl⟩
  | .reference place [name] args, h =>
    by_cases hpointer : BuiltinType.ofString? name = some .pointer
    · refine ⟨by simp [Model.annotatedClass?, hpointer], ?_⟩
      rw [pointer_reading hpointer h]
      simp [TypeNode.isQualified, Model.accessOf, Model.annotatedClass?, TypeNode.isPointer, hpointer]
    · simpa [Model.annotatedClass?, hpointer, TypeNode.isQualified]
        using simple_reading hpointer h member span
  | .reference place [qualifier, name] args, h =>
    rw [cx.model.typeFromNode_qualified]
    exact ⟨qualified_reading h, rfl⟩
  | .reference place [] args, h | .reference place (_ :: _ :: _ :: _) args, h =>
    simp only [typeText, typeTextWith] at h
    cases h

end Readings

/-! ## The access as it is written -/

theorem accessOf_cases (model : Model) (node : TypeNode) :
    model.accessOf node = "." ∨ model.accessOf node = "->" ∨ model.accessOf node = "::" := by
  unfold Model.accessOf
  split
  · split
    · simp
    · split <;> simp
  · split <;> simp

/-- An access in front of a member is a piece by itself. -/
theorem Context.piece_access (cx : Context) {access : String}
    (h : access = "." ∨ access = "->" ∨ access = "::") (member : String) :
    cx.piece (access ++ member) = access ++ cx.piece member := by
  refine cx.layout.inline_append ?_ member
  rcases h with rfl | rfl | rfl <;> simp

/-- **What stands between a variable and its member agrees with the type of the variable exactly for
annotations that are not qualified, or that ask for a dot anyway.** The variable is one with an
annotation, at any point of its scope. Its type is written with the wrapping of the class that the
annotation refers to. -/
theorem property_access_iff {cx : Context} [cx.model.Typed] {locals : Locals} {name : String}
    {node : TypeNode} (hscope : InScope cx.model name node locals) {written : String}
    (htype : typeText cx.model cx.mangling node = .ok written) {span place : Span} {member : String}
    {text : String}
    (htext : exprText cx locals (.property span (.ident place name) member) = .ok text) :
    (∀ info, cx.model.annotatedClass? node = some info →
      ∃ own, written = info.traits.ownership.typeReference own) ∧
    text = cx.piece name ++ (if node.isQualified then "." else cx.model.accessOf node) ++
      cx.piece member ∧
    (text = cx.piece name ++ cx.model.accessOf node ++ cx.piece member ↔
      (node.isQualified = true → cx.model.accessOf node = ".")) := by
  obtain ⟨hwrapped, hseparator⟩ := typeText_separator htype member span
  have howner : cx.model.typeOf locals (.ident place name) = cx.model.typeFromNode node := by
    rw [cx.model.typeOf_ident, hscope.lookup, Option.getD_some]
  have hbound : locals.binds name = true := by simp [Locals.binds, hscope.lookup]
  have hname : exprText cx locals (.ident place name) = .ok (cx.piece name) := by
    simp [exprText, identText_eq, hbound]
  have hmodule : ∀ specifier, cx.model.typeFromNode node ≠ .moduleTy specifier := by
    intro specifier heq
    rw [heq] at hseparator
    cases hseparator
  have haccess : text = cx.piece name ++
      (if node.isQualified then "." else cx.model.accessOf node) ++ cx.piece member := by
    rw [exprText, propertyText_member (.inr fun specifier => howner ▸ hmodule specifier), howner,
      memberText, hseparator, hname] at htext
    cases htext
    rw [cx.piece_access, String.append_assoc]
    split
    · exact .inl rfl
    · exact accessOf_cases cx.model node
  refine ⟨hwrapped, haccess, ?_⟩
  rw [haccess]
  cases node.isQualified with
  | false => simp
  | true =>
    simp only [if_true, forall_const]
    constructor
    · intro heq
      have hleft := (String.append_left_inj (cx.piece member)).mp heq
      exact ((String.append_right_inj (cx.piece name)).mp hleft).symm
    · intro heq
      rw [heq]

/-! ## A canvas -/

/-- A shared class that a module provides, under its simple name and under the module's. -/
def canvasProgram (segments : List String) : Program :=
  ⟨[.moduleDecl {} [] true "gfx"
      [.classDecl {}
        { decorators := [], declared := true, name := some "Canvas"
          members := [.property {}
            { visibility := .publicMember, name := "width", type := some (.keyword {} .number) }] }],
    .importDecl {} { specifier := .literal {} (.string "gfx"), clause := some (.whole "gfx") },
    .importDecl {}
      { specifier := .literal {} (.string "gfx"), clause := some (.named [⟨"Canvas", none⟩]) },
    .functionDecl {}
      { decorators := [], declared := false, name := some "main", typeParams := []
        params := [{ span := {}, name := .ident "c", type := some (.reference {} segments [])
                     default := none, rest := false }]
        returnType := some (.keyword {} .void)
        body := some [.expr {} (.property {} (.ident {} "c") "width")] }]⟩

/-- What the names of that program stand for. -/
def canvasTables : Tables :=
  let canvas : Item :=
    { name := "Canvas", span := {}
      info := .classInfo
        { traits := {}, declared := true
          fields := [{ name := "width", visibility := .publicMember
                       type := some (.keyword {} .number) }]
          methods := [], hasConstructor := false } }
  let gfx : AmbientModule :=
    { specifier := "gfx", span := {}, traits := {}, members := [("Canvas", canvas)] }
  let main : Item :=
    { name := "main", span := {}
      info := .functionInfo
        { traits := {}, declared := false, returnType := some (.keyword {} .void), builtin := none } }
  { values := [("Canvas", .item canvas), ("gfx", .ambient gfx), ("main", .item main)]
    types := [("Canvas", .item canvas)], modules := [("gfx", gfx)] }

def canvasModel : TypedModel := canvasTables.names.model

def canvasLocals (segments : List String) : Locals :=
  (Locals.start none).declare "c" (canvasModel.typeFromNode (.reference {} segments []))

/-- Under its simple name the canvas is a handle, and its members are reached through it. -/
theorem property_access_iff_canvas :
    Model.build (canvasProgram ["Canvas"]) [] = .ok canvasModel ∧
    typeText canvasModel Spelling.mangling (.reference {} ["Canvas"] [])
      = .ok "std::shared_ptr<tscc_Canvas>" ∧
    canvasModel.accessOf (.reference {} ["Canvas"] []) = "->" ∧
    ∀ text, exprText ⟨canvasModel, {}⟩ (canvasLocals ["Canvas"])
        (.property {} (.ident {} "c") "width") = .ok text → text = "c->width" := by
  refine ⟨Model.build_eq_ok.mpr ⟨canvasTables, by cbv, rfl⟩, rfl, rfl, fun text htext => ?_⟩
  have hscope : InScope canvasModel "c" (.reference {} ["Canvas"] []) (canvasLocals ["Canvas"]) :=
    .entered (by simp [Locals.start])
  obtain ⟨-, hwritten, -⟩ :=
    @property_access_iff ⟨canvasModel, {}⟩ canvasModel.typed _ _ _ hscope _ rfl _ _ _ _ htext
  rw [hwritten]
  rfl

/-- Under a qualified name the same canvas is a handle still, and its members are accessed as if it
were a value. -/
theorem qualifiedCanvas_dotted :
    typeText canvasModel Spelling.mangling (.reference {} ["gfx", "Canvas"] [])
      = .ok "std::shared_ptr<tscc_Canvas>" ∧
    canvasModel.accessOf (.reference {} ["gfx", "Canvas"] []) = "->" ∧
    (generate {} (canvasProgram ["gfx", "Canvas"]) []).toOption = some
      ("#include <gfx>\n#include <gfx>\n\nvoid tscc_main(std::shared_ptr<tscc_Canvas> c)\n" ++
        "\x7b\n    c.width;\n\x7d\n") := by
  refine ⟨rfl, rfl, ?_⟩
  decide +kernel

end NativeLowering
