import NativeLowering.Model.Basic
import NativeLowering.Naming

/-!
# Types as they are written

`typeText` gives the native spelling of a type annotation. A class is wrapped as its ownership
asks, except directly under a pointer. A name that the model does not know, or knows as a type
alias, stands for a native type and is kept, its arguments lowered.
-/

set_option autoImplicit false

namespace NativeLowering

open Vocabulary (BuiltinType)

/-- Whether a class is wrapped as its ownership asks. -/
inductive Wrapping where
  | owned
  /-- The class itself, as the target of a pointer. -/
  | bare
  deriving DecidableEq

/-- The native spelling of a keyword type. -/
def Keyword.text : Keyword → String
  | .void => "void"
  | .boolean => "bool"
  | .number => "double"
  | .string => "const char*"

/-- A native type name with its arguments. -/
def appliedType (name : String) (args : List String) : String :=
  match args with
  | [] => name
  | _ :: _ => name ++ "<" ++ ", ".intercalate args ++ ">"

/-- The spelling of a reference to an item, which may be a member of a native namespace. -/
def itemTypeText (mangling : String) (item : Item) (space : Option String)
    (args : List TypeNode) (argTexts : Lowered (List String)) (wrapping : Wrapping)
    (span : Span) : Lowered String :=
  match item.info with
  | .classInfo info =>
    match args with
    | _ :: _ => failAt span (.classTypeArgs item.name)
    | [] =>
      let name := Naming.qualifiedIn space (info.traits.writtenName mangling item.name)
      match wrapping with
      | .owned => .ok (info.traits.ownership.typeReference name)
      | .bare => .ok name
  | .interfaceInfo _ => failAt span (.interfaceType item.name)
  | .aliasInfo => argTexts.map (appliedType (Naming.qualifiedIn space item.name))
  | .functionInfo _ => failAt span (.notType item.name .functionKind)

/-- The item that a name qualified by a module's local name stands for, with the module. -/
def qualifiedItem (model : Model) (qualifier name : String) (span : Span) :
    Lowered (AmbientModule × Item) :=
  match (model.resolve? qualifier).bind Symbol.ambient? with
  | none => failAt span (.qualifierNotModule qualifier name)
  | some ambient =>
    match ambient.member? name with
    | none => failAt span (.missingExportedType qualifier name)
    | some item => .ok (ambient, item)

mutual

/-- The spelling of a type annotation. -/
def typeTextWith (model : Model) (mangling : String) (wrapping : Wrapping) :
    TypeNode → Lowered String
  | .keyword _ keyword => .ok keyword.text
  | .reference span [name] args =>
    if BuiltinType.ofString? name = some .pointer then
      match args with
      | [inner] => (typeTextWith model mangling .bare inner).map (· ++ "*")
      | _ => failAt span .pointerArity
    else
      match model.resolveType? name with
      | some (.item item) =>
        itemTypeText mangling item none args (typeTexts model mangling args) wrapping span
      | some (.ambient source) => failAt span (.notType source.specifier .moduleKind)
      | none => (typeTexts model mangling args).map (appliedType name)
  | .reference span [qualifier, name] args => do
    let (ambient, item) ← qualifiedItem model qualifier name span
    itemTypeText mangling item ambient.traits.nativeSpace args (typeTexts model mangling args)
      wrapping span
  | .reference span name _ => failAt span (.qualifiedType name)

/-- The spellings of type arguments. -/
def typeTexts (model : Model) (mangling : String) : List TypeNode → Lowered (List String)
  | [] => .ok []
  | node :: rest => do
    let text ← typeTextWith model mangling .owned node
    let texts ← typeTexts model mangling rest
    return text :: texts

end

/-- The spelling of a type annotation of a variable, parameter or result. -/
def typeText (model : Model) (mangling : String) (node : TypeNode) : Lowered String :=
  typeTextWith model mangling .owned node

end NativeLowering
