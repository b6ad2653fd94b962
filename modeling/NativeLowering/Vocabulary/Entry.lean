/-!
# Vocabulary entries

A vocabulary is a fixed table of items, each with the spelling it goes by in a source program.
The tables of this folder (decorators, built-in functions, built-in types) share the row defined
here, and a spelling is looked up in all of them the same way: exactly, case included.
-/

set_option autoImplicit false

namespace NativeLowering.Vocabulary

/-- How settled an item of the vocabulary is. -/
inductive Stability where
  | stable
  deriving DecidableEq

/-- A row of a vocabulary table. -/
structure Entry (α : Type) where
  item : α
  /-- The spelling the item is written back with. -/
  canonical : String
  /-- Further spellings that are understood. -/
  aliases : List String := []
  description : String
  stability : Stability := .stable

namespace Entry

variable {α : Type}

/-- Whether a spelling means this row's item. -/
def accepts (entry : Entry α) (name : String) : Bool :=
  entry.canonical == name || entry.aliases.contains name

/-- The first row of a table that accepts a spelling. -/
def find? (table : List (Entry α)) (name : String) : Option (Entry α) :=
  table.find? fun entry => entry.accepts name

/-- The item a spelling means, if the table knows the spelling. -/
def lookup (table : List (Entry α)) (name : String) : Option α :=
  (find? table name).map Entry.item

end Entry

end NativeLowering.Vocabulary
