import NativeLowering.Model.Symbol

/-!
# Written names

The name a declaration is written under: its native name if it is bound to a native symbol, and
otherwise its declared name behind the mangling. Everything else here is put together from those
names.
-/

set_option autoImplicit false

namespace NativeLowering

/-- The declared name behind the mangling. -/
def mangle (mangling declared : String) : String := mangling ++ declared

/-- The written name of a declaration with the given traits. -/
def Traits.writtenName (traits : Traits) (mangling declared : String) : String :=
  traits.nativeName.getD (mangle mangling declared)

/-- The written name of an item. Only classes and functions are mangled. -/
def Item.writtenName (item : Item) (mangling : String) : String :=
  match item.info with
  | .classInfo info => info.traits.writtenName mangling item.name
  | .functionInfo info => info.traits.writtenName mangling item.name
  | .interfaceInfo _ | .aliasInfo => item.name

/-- The written name of a symbol. -/
def Symbol.writtenName (symbol : Symbol) (mangling : String) : String :=
  match symbol with
  | .item i => i.writtenName mangling
  | .ambient m => m.specifier

namespace Naming

/-- What a member defined outside its class is qualified with. -/
def memberQualifier (owner : String) : String := owner ++ "::"

/-- The name of a class's destructor. -/
def destructor (owner : String) : String := "~" ++ owner

/-- The function that takes the receiver of a method as its first argument. -/
def receiverFunction (owner method : String) : String := owner ++ "_" ++ method

/-- A name in a native namespace. -/
def qualified (space name : String) : String := space ++ "::" ++ name

/-- A name in a native namespace, if there is one. -/
def qualifiedIn (space : Option String) (name : String) : String :=
  match space with
  | some space => qualified space name
  | none => name

end Naming

/-! ## What ownership changes -/

namespace Ownership

/-- What stands between an object and its member. -/
def memberAccess : Ownership → String
  | .value => "."
  | .sharedHeap => "->"

/-- The type of a variable that holds an instance. -/
def typeReference (ownership : Ownership) (owner : String) : String :=
  match ownership with
  | .value => owner
  | .sharedHeap => Spelling.sharedPointer ++ "<" ++ owner ++ ">"

/-- What is called to construct an instance. -/
def constructorCallee (ownership : Ownership) (owner : String) : String :=
  match ownership with
  | .value => owner
  | .sharedHeap => Spelling.makeShared ++ "<" ++ owner ++ ">"

end Ownership

end NativeLowering
