import NativeLowering.Model.Items
import NativeLowering.Model.Typing

/-!
# The symbol table of a program

A model is built from the program and any number of preludes, in two rounds: first every declaration
of every source is entered, then the imports are bound to what the ambient modules export. So a
module may be imported before it is declared.

Symbols are numbered in the order in which they are entered. A name of either name space is bound to
a number, or to a member of the module that has the number.

A name may be entered once per name space. The exception are functions that native code provides:
a second declaration of one is an overload, and the first stays.
-/

set_option autoImplicit false

namespace NativeLowering

/-- The number of a symbol. -/
structure SymbolId where
  index : Nat
  deriving DecidableEq

/-- What a name in scope refers to. -/
inductive Binding where
  | symbol (id : SymbolId)
  /-- What an ambient module exports under a name. -/
  | member (source : SymbolId) (name : String)
  deriving DecidableEq

/-- The symbols of a program and what its names are bound to. -/
structure SymbolTable where
  symbols : Array Symbol := #[]
  values : List (String × Binding) := []
  types : List (String × Binding) := []
  modules : List (String × SymbolId) := []

/-- Enters a name that is not entered yet. -/
def enter {α : Type} (table : List (String × α)) (name : String) (value : α) (span : Span) :
    Lowered (List (String × α)) :=
  if (table.lookup name).isSome then failAt span (.duplicateName name)
  else .ok ((name, value) :: table)

/-- Whether a function item repeats a name that already stands for a declared function, and is
itself declared. -/
def Names.isOverload (names : Names) (item : Item) : Bool :=
  item.isDeclaredFunction &&
    match names.function? item.name with
    | some info => info.declared
    | none => false

namespace SymbolTable

/-! ## Questions -/

/-- The symbol of a number. -/
def symbol? (table : SymbolTable) (id : SymbolId) : Option Symbol := table.symbols[id.index]?

/-- The ambient module of a number. -/
def ambient? (table : SymbolTable) (id : SymbolId) : Option AmbientModule :=
  (table.symbol? id).bind Symbol.ambient?

/-- The symbol that a binding refers to. -/
def bound? (table : SymbolTable) : Binding → Option Symbol
  | .symbol id => table.symbol? id
  | .member source name => ((table.ambient? source).bind (·.member? name)).map .item

/-- What a name stands for as a value. -/
def resolve? (table : SymbolTable) (name : String) : Option Symbol :=
  (table.values.lookup name).bind table.bound?

/-- What a name stands for as a type. -/
def resolveType? (table : SymbolTable) (name : String) : Option Symbol :=
  (table.types.lookup name).bind table.bound?

/-- The ambient module of a specifier. -/
def module? (table : SymbolTable) (specifier : String) : Option AmbientModule :=
  (table.modules.lookup specifier).bind table.ambient?

/-- What names stand for by the table. -/
def names (table : SymbolTable) : Names where
  resolve? := table.resolve?
  resolveType? := table.resolveType?
  module? := table.module?

/-! ## First round: declarations -/

/-- The number that the next symbol gets. -/
def next (table : SymbolTable) : SymbolId := ⟨table.symbols.size⟩

/-- Gives a symbol the next number. -/
def push (table : SymbolTable) (symbol : Symbol) : SymbolTable :=
  { table with symbols := table.symbols.push symbol }

/-- Enters a declaration. Imports wait for the second round. -/
def declare (table : SymbolTable) : Decl → Lowered SymbolTable
  | .importDecl .. => .ok table
  | .classDecl span decl => do
    let item ← classItem decl span
    let values ← enter table.values item.name (.symbol table.next) span
    let types ← enter table.types item.name (.symbol table.next) span
    return { table.push (.item item) with values, types }
  | .functionDecl span decl => do
    let item ← functionItem decl span
    if table.names.isOverload item then return table
    else
      let values ← enter table.values item.name (.symbol table.next) span
      return { table.push (.item item) with values }
  | .interfaceDecl span decl => do
    let types ← enter table.types decl.name (.symbol table.next) span
    return { table.push (.item (interfaceItem decl span)) with types }
  | .typeAlias span name => do
    let types ← enter table.types name (.symbol table.next) span
    return { table.push (.item (aliasItem name span)) with types }
  | .moduleDecl span decorators _ specifier body =>
    if (table.modules.lookup specifier).isSome then failAt span (.duplicateModule specifier)
    else do
      let ambient ← ambientModule span decorators specifier body
      return { table.push (.ambient ambient) with
        modules := (specifier, table.next) :: table.modules }

/-! ## Second round: imports -/

/-- Binds one name of a named import, in each space that the exported item lives in. -/
def bindItem (source : SymbolId) (specifier : String) (span : Span) (table : SymbolTable)
    (item : ImportItem) : Lowered SymbolTable :=
  match (table.ambient? source).bind (·.member? item.name) with
  | none => failAt span (.missingExport specifier item.name)
  | some member => do
    let values ←
      (if member.kind.isValue then enter table.values item.localName (.member source item.name) span
        else .ok table.values)
    let types ←
      (if member.kind.isType then enter table.types item.localName (.member source item.name) span
        else .ok table.types)
    return { table with values, types }

/-- Binds what an import clause names. -/
def bindClause (source : SymbolId) (specifier : String) (span : Span) (table : SymbolTable) :
    Option ImportClause → Lowered SymbolTable
  | none => .ok table
  | some (.whole name) => do
    let values ← enter table.values name (.symbol source) span
    return { table with values }
  | some (.named items) => items.foldlM (bindItem source specifier span) table

/-- Binds an import; other declarations are done with. A module that nobody declares exports
nothing and binds nothing. -/
def bindImport (table : SymbolTable) : Decl → Lowered SymbolTable
  | .importDecl _ decl => do
    let specifier ← decl.specifierText
    match table.modules.lookup specifier with
    | none => return table
    | some source => bindClause source specifier decl.specifier.span table decl.clause
  | _ => .ok table

/-- The table of all declarations of the sources. -/
def build (decls : List Decl) : Lowered SymbolTable := do
  let table ← decls.foldlM declare {}
  decls.foldlM bindImport table

end SymbolTable

namespace Model

/-- The declarations a model is built from: those of the preludes, then those of the program. -/
def sources (program : Program) (preludes : List Program) : List Decl :=
  (preludes ++ [program]).flatMap Program.decls

/-- The model of a program with preludes. -/
def build (program : Program) (preludes : List Program) : Lowered TypedModel :=
  (SymbolTable.build (sources program preludes)).map fun table => table.names.model

end Model

end NativeLowering
