import NativeLowering.Syntax.Expr
import NativeLowering.Vocabulary.Builtin

/-!
# Semantic types

What lowering has to know of the type of an expression. Where it knows nothing the type is
unknown; typing never fails.
-/

set_option autoImplicit false

namespace NativeLowering

open Vocabulary (BuiltinType)

/-- The type of an expression or a variable. -/
inductive Ty where
  /-- A class, by the name it is visible under as a type. -/
  | classTy (name : String)
  | interfaceTy (name : String)
  /-- A type alias, or a name that nothing is known of. -/
  | named (name : String)
  | pointer (inner : Ty)
  | primitive (keyword : Keyword)
  /-- An ambient module, by its specifier. -/
  | moduleTy (specifier : String)
  /-- A function or a method that is not called. -/
  | function
  | unknown
  deriving DecidableEq

/-- The components of a dotted name. -/
def nameComponents (name : String) : List String :=
  (name.toList.splitOn '.').map String.ofList

namespace Ty

/-- A type annotation that denotes the type, for the types that have one. -/
def toTypeNode? (span : Span) : Ty → Option TypeNode
  | .classTy name | .interfaceTy name | .named name =>
    some (.reference span (nameComponents name) [])
  | .pointer inner =>
    (toTypeNode? span inner).map fun node =>
      .reference span [BuiltinType.pointer.spelling] [node]
  | .primitive keyword => some (.keyword span keyword)
  | .moduleTy _ | .function | .unknown => none

end Ty

end NativeLowering
