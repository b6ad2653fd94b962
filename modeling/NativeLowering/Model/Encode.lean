import NativeLowering.Model.Symbol
import NativeLowering.Model.Type
import NativeLowering.Syntax.Decode
import NativeLowering.Syntax.Encode

/-!
# Models as JSON

Semantic types and symbols as JSON, for tools that look into a model. A type can be read back; a
symbol is only written.
-/

set_option autoImplicit false

namespace NativeLowering

open Vocabulary (Builtin)

namespace Ty

/-- A semantic type as JSON. -/
def encode : Ty → Json
  | .classTy name => .tagged "Class" (.ofString name)
  | .interfaceTy name => .tagged "Interface" (.ofString name)
  | .named name => .tagged "Named" (.ofString name)
  | .pointer inner => .tagged "Pointer" inner.encode
  | .primitive keyword => .tagged "Primitive" keyword.encode
  | .moduleTy specifier => .tagged "Module" (.ofString specifier)
  | .function => .ofString "Function"
  | .unknown => .ofString "Unknown"

/-- A semantic type from JSON, with at most so many pointers. -/
def decode : Nat → Json → Option Ty
  | _, .string (some "Function") => some .function
  | _, .string (some "Unknown") => some .unknown
  | n, .object [(some tag, payload)] =>
    match n, tag with
    | n + 1, "Pointer" => (decode n payload).map .pointer
    | _, "Class" => payload.text?.map .classTy
    | _, "Interface" => payload.text?.map .interfaceTy
    | _, "Named" => payload.text?.map .named
    | _, "Module" => payload.text?.map .moduleTy
    | _, "Primitive" => (payload.text?.bind Keyword.ofString?).map .primitive
    | _, _ => none
  | _, _ => none

end Ty

/-- The name of an ownership. -/
def Ownership.spelling : Ownership → String
  | .value => "value"
  | .sharedHeap => "shared_heap"

/-- The traits of a declaration as JSON. -/
def Traits.encode (traits : Traits) : Json :=
  .record
    [("ownership", .ofString traits.ownership.spelling),
     ("native_name", .ofOption (traits.nativeName.map .ofString)),
     ("namespace", .ofOption (traits.nativeSpace.map .ofString))]

/-- A field of a class as JSON. -/
def FieldInfo.encode (info : FieldInfo) : Json :=
  .record
    [("name", .ofString info.name), ("visibility", info.visibility.encode),
     ("ty", TypeNode.encodeOption info.type)]

/-- A method as JSON. -/
def MethodInfo.encode (info : MethodInfo) : Json :=
  .record
    [("name", .ofString info.name), ("visibility", info.visibility.encode),
     ("return_type", TypeNode.encodeOption info.returnType)]

/-- What is known of an item, as JSON. -/
def ItemInfo.encode : ItemInfo → Json
  | .classInfo info =>
    .record
      [("traits", info.traits.encode), ("declare", .bool info.declared),
       ("fields", .ofList FieldInfo.encode info.fields),
       ("methods", .ofList MethodInfo.encode info.methods),
       ("has_constructor", .bool info.hasConstructor),
       ("has_destructor", .bool info.hasDestructor)]
  | .functionInfo info =>
    .record
      [("traits", info.traits.encode), ("declare", .bool info.declared),
       ("return_type", TypeNode.encodeOption info.returnType),
       ("builtin", .ofOption (info.builtin.map fun builtin => .ofString builtin.spelling))]
  | .interfaceInfo methods => .record [("methods", .ofList MethodInfo.encode methods)]
  | .aliasInfo => .record []

/-- The names of what a module exports, in code point order. -/
def AmbientModule.memberNames (ambient : AmbientModule) : List String :=
  (ambient.members.map Prod.fst).mergeSort fun a b => decide (a ≤ b)

namespace Symbol

/-- What is known of a symbol beside its kind, as JSON. -/
def encodeDetail : Symbol → Json
  | .item i => i.info.encode
  | .ambient m =>
    .record [("traits", m.traits.encode), ("members", .ofList .ofString m.memberNames)]

/-- A symbol as JSON. -/
def encode (symbol : Symbol) : Json :=
  .record
    [("name", .ofString symbol.name), ("span", symbol.span.encode),
     ("describe", .ofString symbol.kind.describe), ("is_type", .bool symbol.kind.isType),
     ("is_value", .bool symbol.kind.isValue), ("detail", symbol.encodeDetail)]

end Symbol

end NativeLowering
