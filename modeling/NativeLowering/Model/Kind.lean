/-!
# Kinds of symbols

What sort of thing a name stands for. Names live in two spaces: a class is both a type and a
value, functions and modules are values only, interfaces and type aliases types only.
-/

set_option autoImplicit false

namespace NativeLowering

/-- What sort of thing a name stands for. -/
inductive SymbolKind where
  | classKind | functionKind | moduleKind | interfaceKind | aliasKind
  deriving DecidableEq

namespace SymbolKind

/-- The kind with its article, for messages. -/
def describe : SymbolKind → String
  | .classKind => "a class"
  | .functionKind => "a function"
  | .moduleKind => "a module"
  | .interfaceKind => "an interface"
  | .aliasKind => "a type alias"

/-- Whether names of this kind live in the type space. -/
def isType : SymbolKind → Bool
  | .classKind | .interfaceKind | .aliasKind => true
  | .functionKind | .moduleKind => false

/-- Whether names of this kind live in the value space. -/
def isValue : SymbolKind → Bool
  | .classKind | .functionKind | .moduleKind => true
  | .interfaceKind | .aliasKind => false

end SymbolKind

end NativeLowering
