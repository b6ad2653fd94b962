import NativeLowering.Vocabulary.Entry

/-!
# Decorators

The decorators an author may put on a declaration to choose how it meets native code.
-/

set_option autoImplicit false

namespace NativeLowering.Vocabulary

/-- A decorator the library acts on. -/
inductive DecoratorName where
  /-- Binds the declaration to a native symbol, under the name its argument gives. -/
  | nativeBinding
  /-- Gives a class value semantics. -/
  | valueSemantics
  /-- Puts the declaration's members in a native namespace. -/
  | nativeNamespace
  deriving DecidableEq

namespace DecoratorName

/-- Every decorator, in table order. -/
def table : List (Entry DecoratorName) :=
  [{ item := .nativeBinding, canonical := "extern_c",
     description :=
      "Bind the declaration to a native symbol; the optional literal overrides the emitted name." },
   { item := .valueSemantics, canonical := "struct",
     description := "Give a class value semantics (constructed in place, accessed with `.`)." },
   { item := .nativeNamespace, canonical := "cpp_namespace",
     description := "Map an ambient module onto a C++ namespace (members accessed with `::`)." }]

/-- How the decorator is written, without its `@`. -/
def spelling : DecoratorName → String
  | .nativeBinding => "extern_c"
  | .valueSemantics => "struct"
  | .nativeNamespace => "cpp_namespace"

/-- The decorator a name stands for. -/
def ofString? (name : String) : Option DecoratorName := Entry.lookup table name

/-- A decorator is found under its own spelling. -/
theorem ofString?_spelling (d : DecoratorName) : ofString? d.spelling = some d := by
  cases d <;> rfl

end DecoratorName

end NativeLowering.Vocabulary
