import NativeLowering.Locals
import NativeLowering.Model.Symbol

/-!
# The model of a program

Passes and writing ask a model what the names of a program stand for and what type annotations and
expressions have. They see its answers and nothing of how it comes to them, so a model may be one
that is built from the program (`Model.build`) or any other.
-/

set_option autoImplicit false

namespace NativeLowering

open Vocabulary (Builtin)

/-! ## Names -/

/-- What the names of a program stand for. -/
structure Names where
  /-- What a name stands for as a value. -/
  resolve? : String → Option Symbol := fun _ => none
  /-- What a name stands for as a type. -/
  resolveType? : String → Option Symbol := fun _ => none
  /-- The ambient module of a specifier. -/
  module? : String → Option AmbientModule := fun _ => none

namespace Names

/-- The class of a name, with its item. -/
def class? (names : Names) (name : String) : Option (Item × ClassInfo) := do
  let symbol ← names.resolveType? name
  let item ← symbol.item?
  let info ← item.class?
  return (item, info)

/-- What is known of the class of a name. -/
def classInfo? (names : Names) (name : String) : Option ClassInfo :=
  (names.class? name).map Prod.snd

/-- What is known of the function that a name stands for as a value. -/
def function? (names : Names) (name : String) : Option FunctionInfo :=
  (names.resolve? name).bind Symbol.function?

/-- The function that a module exports under a name. -/
def exportedFunction? (names : Names) (specifier name : String) : Option FunctionInfo := do
  let ambient ← names.module? specifier
  let member ← ambient.member? name
  member.function?

/-- The symbol that is a built-in, if it is declared. -/
def builtin? (names : Names) (builtin : Builtin) : Option Symbol := do
  let symbol ← names.resolve? builtin.spelling
  let info ← symbol.function?
  if info.builtin = some builtin then some symbol else none

/-- Whether a class of the name exists and its instances are shared. -/
def isSharedClass (names : Names) (name : String) : Bool :=
  match names.classInfo? name with
  | some info => info.isShared
  | none => false

end Names

/-! ## Models -/

/-- What passes and writing ask about a program. -/
structure Model extends Names where
  /-- The type that an annotation denotes. -/
  typeFromNode : TypeNode → Ty
  /-- The type of an expression at a point of a body. -/
  typeOf : Locals → Expr → Ty

namespace Model

instance : Coe Model Names := ⟨toNames⟩

/-- The type that an annotation denotes, unknown where there is none. -/
def typeFromOption (model : Model) : Option TypeNode → Ty
  | none => .unknown
  | some node => model.typeFromNode node

/-- The type of a declared variable: its annotation's, else its initial value's. -/
def declaredType (model : Model) (locals : Locals) (decl : VariableDecl) : Ty :=
  match decl.type, decl.init with
  | some node, _ => model.typeFromNode node
  | none, some init => model.typeOf locals init
  | none, none => .unknown

end Model

end NativeLowering
