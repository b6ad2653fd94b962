import NativeLowering.Vocabulary.Entry

/-!
# Built-in functions and types

The names that get a lowering of their own. A built-in is still declared like any other function
by the program or one of its preludes; only a declared function of one of these names is the
built-in, a function with a body is not.
-/

set_option autoImplicit false

namespace NativeLowering.Vocabulary

/-- A function with a lowering of its own. -/
inductive Builtin where
  | addressOf
  | sizeOf
  /-- The native allocation entry point that constructors rely on. -/
  | allocate
  | u8 | u16 | u32 | u64
  | i8 | i16 | i32 | i64
  | float | double
  deriving DecidableEq

namespace Builtin

/-- Every built-in function, in table order. -/
def table : List (Entry Builtin) :=
  [{ item := .addressOf, canonical := "addressof",
     description := "Take the address of an addressable operand." },
   { item := .sizeOf, canonical := "sizeof",
     description := "Query the size of a type or of a value." },
   { item := .allocate, canonical := "tscc_allocator_alloc",
     description := "Native allocation entry point required by constructors." },
   { item := .u8, canonical := "u8", description := "Convert to an unsigned 8-bit integer." },
   { item := .u16, canonical := "u16", description := "Convert to an unsigned 16-bit integer." },
   { item := .u32, canonical := "u32", description := "Convert to an unsigned 32-bit integer." },
   { item := .u64, canonical := "u64", description := "Convert to an unsigned 64-bit integer." },
   { item := .i8, canonical := "i8", description := "Convert to a signed 8-bit integer." },
   { item := .i16, canonical := "i16", description := "Convert to a signed 16-bit integer." },
   { item := .i32, canonical := "i32", description := "Convert to a signed 32-bit integer." },
   { item := .i64, canonical := "i64", description := "Convert to a signed 64-bit integer." },
   { item := .float, canonical := "float", description := "Convert to a 32-bit float." },
   { item := .double, canonical := "double", description := "Convert to a 64-bit float." }]

/-- How the built-in is written. -/
def spelling : Builtin → String
  | .addressOf => "addressof"
  | .sizeOf => "sizeof"
  | .allocate => "tscc_allocator_alloc"
  | .u8 => "u8"
  | .u16 => "u16"
  | .u32 => "u32"
  | .u64 => "u64"
  | .i8 => "i8"
  | .i16 => "i16"
  | .i32 => "i32"
  | .i64 => "i64"
  | .float => "float"
  | .double => "double"

/-- The built-in a name stands for. -/
def ofString? (name : String) : Option Builtin := Entry.lookup table name

/-- A built-in is found under its own spelling. -/
theorem ofString?_spelling (b : Builtin) : ofString? b.spelling = some b := by
  cases b <;> rfl

/-- Whether the built-in converts its argument to a number of fixed width. -/
def isNumericConversion : Builtin → Bool
  | .addressOf | .sizeOf | .allocate => false
  | _ => true

end Builtin

/-- A type constructor with a lowering of its own. -/
inductive BuiltinType where
  /-- A raw native pointer. -/
  | pointer
  deriving DecidableEq

namespace BuiltinType

/-- Every built-in type constructor, in table order. -/
def table : List (Entry BuiltinType) :=
  [{ item := .pointer, canonical := "Ptr",
     description := "Raw native pointer; bypasses ownership wrapping." }]

/-- How the type constructor is written. -/
def spelling : BuiltinType → String
  | .pointer => "Ptr"

/-- The type constructor a name stands for. -/
def ofString? (name : String) : Option BuiltinType := Entry.lookup table name

end BuiltinType

end NativeLowering.Vocabulary
