import NativeLowering.Model.Traits
import NativeLowering.Vocabulary.Spelling

/-!
# Symbols

What a name of a program stands for. Items are what a declaration declares, at the top level or
in the body of an ambient module; an ambient module is a symbol of its own and holds items.
-/

set_option autoImplicit false

namespace NativeLowering

open Vocabulary (Builtin)

/-- A field of a class. -/
structure FieldInfo where
  name : String
  visibility : Visibility
  type : Option TypeNode

/-- A method of a class or an interface. -/
structure MethodInfo where
  name : String
  visibility : Visibility
  returnType : Option TypeNode

/-- The first method of a name. -/
def findMethod? (methods : List MethodInfo) (name : String) : Option MethodInfo :=
  methods.find? fun method => method.name == name

/-- What is known of a class. -/
structure ClassInfo where
  traits : Traits
  declared : Bool
  fields : List FieldInfo
  methods : List MethodInfo
  hasConstructor : Bool

namespace ClassInfo

/-- The first field of a name. -/
def field? (info : ClassInfo) (name : String) : Option FieldInfo :=
  info.fields.find? fun field => field.name == name

/-- The first method of a name. -/
def method? (info : ClassInfo) (name : String) : Option MethodInfo :=
  findMethod? info.methods name

/-- Whether one of the methods is the destructor. -/
def hasDestructor (info : ClassInfo) : Bool := (info.method? Spelling.destructor).isSome

/-- Whether instances live on the heap behind a counted reference. -/
def isShared (info : ClassInfo) : Bool := info.traits.ownership == .sharedHeap

end ClassInfo

/-- What is known of a function. -/
structure FunctionInfo where
  traits : Traits
  declared : Bool
  returnType : Option TypeNode
  /-- The built-in that the function is, if it is one. -/
  builtin : Option Builtin

/-- What is known of an item, by its kind. -/
inductive ItemInfo where
  | classInfo (info : ClassInfo)
  | functionInfo (info : FunctionInfo)
  | interfaceInfo (methods : List MethodInfo)
  | aliasInfo

/-- Something a declaration declares. -/
structure Item where
  name : String
  span : Span
  info : ItemInfo

namespace Item

/-- The kind of an item. -/
def kind (item : Item) : SymbolKind :=
  match item.info with
  | .classInfo _ => .classKind
  | .functionInfo _ => .functionKind
  | .interfaceInfo _ => .interfaceKind
  | .aliasInfo => .aliasKind

/-- What is known of the class, if the item is one. -/
def class? (item : Item) : Option ClassInfo :=
  match item.info with
  | .classInfo info => some info
  | _ => none

/-- What is known of the function, if the item is one. -/
def function? (item : Item) : Option FunctionInfo :=
  match item.info with
  | .functionInfo info => some info
  | _ => none

end Item

/-- An ambient module with what it exports. -/
structure AmbientModule where
  specifier : String
  span : Span
  traits : Traits
  members : List (String × Item)

/-- An exported item by name. -/
def AmbientModule.member? (ambient : AmbientModule) (name : String) : Option Item :=
  ambient.members.lookup name

/-- What a name in the value space stands for. -/
inductive Symbol where
  | item (item : Item)
  | ambient (source : AmbientModule)

namespace Symbol

/-- The declared name of an item, the specifier of a module. -/
def name : Symbol → String
  | .item i => i.name
  | .ambient m => m.specifier

/-- Where the declaration stands. -/
def span : Symbol → Span
  | .item i => i.span
  | .ambient m => m.span

/-- The kind of a symbol. -/
def kind : Symbol → SymbolKind
  | .item i => i.kind
  | .ambient _ => .moduleKind

/-- What is known of the function, if the symbol is one. -/
def function? : Symbol → Option FunctionInfo
  | .item i => i.function?
  | .ambient _ => none

/-- The item, if the symbol is one. -/
def item? : Symbol → Option Item
  | .item i => some i
  | .ambient _ => none

/-- The module, if the symbol is one. -/
def ambient? : Symbol → Option AmbientModule
  | .item _ => none
  | .ambient m => some m

end Symbol

end NativeLowering
