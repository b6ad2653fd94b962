import NativeLowering.Model.Kind
import NativeLowering.Syntax.Span
import NativeLowering.Vocabulary.Builtin
import NativeLowering.Vocabulary.Decorator

/-!
# Why lowering fails

A fault is one cause of failure, with the names that its message mentions. It belongs to one of
five categories. An error is a fault at a place in the source, or the one failure that has no
place: the stack of open scopes was taken down past its root, which no program can bring about.
-/

set_option autoImplicit false

namespace NativeLowering

open Vocabulary (Builtin DecoratorName)

/-- What sort of failure a fault is. -/
inductive FaultCategory where
  /-- A part is missing or has a shape that cannot be lowered. -/
  | structural
  /-- A name does not resolve, or not to what its use needs. -/
  | semantic
  /-- Something happened outside the declaration it belongs in. -/
  | scopeDiscipline
  /-- A built-in that the lowering relies on is not declared. -/
  | builtinSurface
  /-- A construct outside the supported language. -/
  | unsupported
  deriving DecidableEq

/-- One cause of failure. -/
inductive Fault where
  -- structural
  | unnamedClass
  | unnamedFunction
  | computedSpecifier
  | computedDecoratorArg (decorator : DecoratorName)
  | pointerArity
  | untypedProperty (name : String)
  | methodWithoutBody (name : String)
  | destructorWithParams
  | methodWithoutReturnType (name : String)
  | incompleteMethod (name : String)
  | constructorWithoutBody (owner : String)
  | functionWithoutReturnType (name : String)
  | functionWithoutBody (name : String)
  | patternParam
  | untypedParam (name : String)
  | patternVariable
  | untypedVariable (name : String)
  | builtinArity (builtin : Builtin) (found : Nat)
  | sizeofArity
  | missingReceiver (method : String)
  -- semantic
  | duplicateModule (specifier : String)
  | duplicateName (name : String)
  | duplicateMember (name specifier : String)
  | missingExport (specifier name : String)
  | qualifierNotModule (qualifier name : String)
  | missingExportedType (qualifier name : String)
  | notType (name : String) (kind : SymbolKind)
  | untypedTemporary
  | interfaceReceiver (owner method : String)
  | classNotInTable (name : String)
  | functionNotInTable (name : String)
  | unresolvedFunction (name : String)
  | notFunction (name : String) (kind : SymbolKind)
  | missingClassMember (owner member : String)
  | notExportedFunction (name specifier : String)
  | interfaceCall (method owner : String)
  | notValue (name : String) (kind : SymbolKind)
  | unresolvedName (name : String)
  | interfaceAccess (member owner : String)
  | unknownOwner (member : String)
  | moduleNotDeclared (specifier : String)
  | missingModuleMember (specifier member : String)
  | notClass (name : String)
  /-- A failure that a caller of the library reports in its own words. -/
  | reported (message : String)
  -- scope discipline
  | nestedFunction (inner outer : String)
  | noOpenFunction
  | misplacedFunction (name : String)
  | outsideFunction
  | nestedClass (name : String)
  | noOpenClass
  | outsideClass
  | unfinished
  | thisOutsideMember
  | callOutsideFunction
  -- built-in surface
  | undeclaredBuiltin (builtin : Builtin)
  | constructorNeeds (owner : String) (builtin : Builtin)
  -- unsupported
  | unknownDecorator (name : String)
  | nestedModule
  | qualifiedType (name : List String)
  | classTypeArgs (name : String)
  | interfaceType (name : String)
  | moduleWithBody (name : String)
  | genericFunction (name : String)
  | restParam
  | addressOfValue
  | explicitTypeArgs (callee : String)
  | computedClass

namespace Fault

/-- The category a fault belongs to. -/
def category : Fault → FaultCategory
  | .unnamedClass | .unnamedFunction | .computedSpecifier | .computedDecoratorArg _
  | .pointerArity | .untypedProperty _ | .methodWithoutBody _ | .destructorWithParams
  | .methodWithoutReturnType _ | .incompleteMethod _ | .constructorWithoutBody _
  | .functionWithoutReturnType _ | .functionWithoutBody _ | .patternParam | .untypedParam _
  | .patternVariable | .untypedVariable _ | .builtinArity .. | .sizeofArity
  | .missingReceiver _ => .structural
  | .duplicateModule _ | .duplicateName _ | .duplicateMember .. | .missingExport ..
  | .qualifierNotModule .. | .missingExportedType .. | .notType .. | .untypedTemporary
  | .interfaceReceiver .. | .classNotInTable _ | .functionNotInTable _ | .unresolvedFunction _
  | .notFunction .. | .missingClassMember .. | .notExportedFunction .. | .interfaceCall ..
  | .notValue .. | .unresolvedName _ | .interfaceAccess .. | .unknownOwner _
  | .moduleNotDeclared _ | .missingModuleMember .. | .notClass _ | .reported _ => .semantic
  | .nestedFunction .. | .noOpenFunction | .misplacedFunction _ | .outsideFunction
  | .nestedClass _ | .noOpenClass | .outsideClass | .unfinished
  | .thisOutsideMember | .callOutsideFunction => .scopeDiscipline
  | .undeclaredBuiltin _ | .constructorNeeds .. => .builtinSurface
  | .unknownDecorator _ | .nestedModule | .qualifiedType _ | .classTypeArgs _ | .interfaceType _
  | .moduleWithBody _ | .genericFunction _ | .restParam | .addressOfValue | .explicitTypeArgs _
  | .computedClass => .unsupported

/-- What a fault says, without its category. -/
def detail : Fault → String
  | .unnamedClass => "class declaration requires a name"
  | .unnamedFunction => "function declaration requires a name"
  | .computedSpecifier => "only string literals are supported as module specifiers"
  | .computedDecoratorArg decorator =>
    let name := decorator.spelling
    s!"`@{name}` expects a string literal argument"
  | .pointerArity => "`Ptr` takes exactly one type argument"
  | .untypedProperty name => s!"property `{name}` requires a type annotation"
  | .methodWithoutBody name => s!"method `{name}` requires a body"
  | .destructorWithParams => "`destructor` takes no parameters"
  | .methodWithoutReturnType name => s!"method `{name}` requires a return type annotation"
  | .incompleteMethod name => s!"method `{name}` requires a return type annotation and a body"
  | .constructorWithoutBody owner => s!"constructor of `{owner}` requires a body"
  | .functionWithoutReturnType name => s!"function `{name}` requires a return type annotation"
  | .functionWithoutBody name => s!"function `{name}` requires a body"
  | .patternParam => "only identifier parameters are supported, not destructuring patterns"
  | .untypedParam name => s!"parameter `{name}` requires a type annotation"
  | .patternVariable => "only identifier bindings are supported, not destructuring patterns"
  | .untypedVariable name => s!"variable `{name}` requires a type annotation"
  | .builtinArity builtin found =>
    let name := builtin.spelling
    let count := found.repr
    s!"`{name}` takes exactly one argument, found {count}"
  | .sizeofArity =>
    "`sizeof` takes either exactly one type argument or exactly one value argument"
  | .missingReceiver method => s!"receiver call `{method}` has no receiver"
  | .duplicateModule specifier => s!"duplicate declaration of module \"{specifier}\""
  | .duplicateName name => s!"duplicate declaration of `{name}`"
  | .duplicateMember name specifier =>
    s!"duplicate declaration of `{name}` in module \"{specifier}\""
  | .missingExport specifier name => s!"module \"{specifier}\" has no exported member `{name}`"
  | .qualifierNotModule qualifier name =>
    s!"`{qualifier}` in `{qualifier}.{name}` is not a module"
  | .missingExportedType qualifier name =>
    s!"module `{qualifier}` has no exported type `{name}`"
  | .notType name kind =>
    let described := kind.describe
    s!"`{name}` is {described}, not a type"
  | .untypedTemporary => "cannot infer the type of the `addressof` operand for a temporary"
  | .interfaceReceiver owner method =>
    s!"`{owner}.{method}` is declared by an interface, not a class; it has no receiver function"
  | .classNotInTable name => s!"class `{name}` is not in the symbol table"
  | .functionNotInTable name => s!"function `{name}` is not in the symbol table"
  | .unresolvedFunction name => s!"cannot resolve function `{name}`"
  | .notFunction name kind =>
    let described := kind.describe
    s!"`{name}` is {described}, not a function"
  | .missingClassMember owner member => s!"class `{owner}` has no member `{member}`"
  | .notExportedFunction name specifier =>
    s!"`{name}` is not a function exported by \"{specifier}\""
  | .interfaceCall method owner =>
    s!"cannot call `{method}` through interface `{owner}`; " ++
      "interface methods have no native implementation"
  | .notValue name kind =>
    let described := kind.describe
    s!"`{name}` is {described} and cannot be used as a value"
  | .unresolvedName name => s!"cannot resolve `{name}`"
  | .interfaceAccess member owner =>
    s!"cannot access `{member}` through interface `{owner}`; interfaces have no native layout"
  | .unknownOwner member => s!"cannot determine the owner type of `{member}`"
  | .moduleNotDeclared specifier => s!"module \"{specifier}\" is not declared"
  | .missingModuleMember specifier member =>
    s!"module \"{specifier}\" has no member `{member}`"
  | .notClass name => s!"`{name}` is not a class"
  | .reported message => message
  | .nestedFunction inner outer =>
    s!"`{inner}` is declared inside `{outer}`; nested functions are not supported"
  | .noOpenFunction => "no function to finish"
  | .misplacedFunction name => s!"`{name}` does not match the enclosing class context"
  | .outsideFunction => "not inside a function"
  | .nestedClass name => s!"class `{name}` must be declared at the top level"
  | .noOpenClass => "no class to finish"
  | .outsideClass => "not inside a class"
  | .unfinished => "emission finished inside an open declaration"
  | .thisOutsideMember => "`this` used outside a class member"
  | .callOutsideFunction => "call outside a function"
  | .undeclaredBuiltin builtin =>
    let name := builtin.spelling
    s!"built-in `{name}` is not declared"
  | .constructorNeeds owner builtin =>
    let name := builtin.spelling
    s!"constructor of `{owner}` needs the built-in `{name}`, which is not declared"
  | .unknownDecorator name => s!"unknown decorator `@{name}`"
  | .nestedModule => "imports and nested modules inside an ambient module"
  | .qualifiedType name =>
    let joined := ".".intercalate name
    s!"type reference `{joined}`"
  | .classTypeArgs name => s!"type arguments on class type `{name}`"
  | .interfaceType name =>
    s!"interface `{name}` used as a type; only classes and native types can be lowered"
  | .moduleWithBody name =>
    s!"module `{name}` has a body; only ambient (`declare module`) modules are supported"
  | .genericFunction name => s!"generic function `{name}`"
  | .restParam => "rest parameters"
  | .addressOfValue =>
    "`addressof` of an expression that is not a variable or field; " ++
      "enable the `materialize` pass"
  | .explicitTypeArgs callee => s!"explicit type arguments in the call to `{callee}`"
  | .computedClass => "`new` of a computed class expression"

end Fault

/-- What was being done when the stack of scopes ran out. -/
inductive UnderflowContext where
  | popScope | popStatement | statementPrelude | statementStage | finish
  deriving DecidableEq

/-- How a message names what was being done. -/
def UnderflowContext.describe : UnderflowContext → String
  | .popScope => "pop_scope"
  | .popStatement => "pop_statement"
  | .statementPrelude => "statement prelude"
  | .statementStage => "statement stage"
  | .finish => "finish"

/-- A failure to lower. -/
inductive LoweringError where
  /-- A fault at a place in the source. -/
  | fault (span : Span) (cause : Fault)
  /-- The stack of open scopes was taken down past its root. -/
  | underflow (context : UnderflowContext)

namespace LoweringError

/-- Where the failure is, if it is anywhere. -/
def span? : LoweringError → Option Span
  | .fault span _ => some span
  | .underflow _ => none

/-- What the failure says. -/
def message : LoweringError → String
  | .fault _ cause =>
    match cause.category with
    | .unsupported => "unsupported: " ++ cause.detail
    | _ => cause.detail
  | .underflow context => "scope underflow: " ++ context.describe

/-- The code that a report of the failure carries. -/
def code : LoweringError → String
  | .fault _ cause =>
    match cause.category with
    | .structural => "tscc::structural"
    | .semantic => "tscc::semantic"
    | .scopeDiscipline => "tscc::scope_discipline"
    | .builtinSurface => "tscc::builtin_surface"
    | .unsupported => "tscc::unsupported"
  | .underflow _ => "tscc::scope_underflow"

/-- The advice that a report of the failure carries, if any. -/
def help? : LoweringError → Option String
  | .fault _ cause =>
    match cause.category with
    | .builtinSurface =>
      some ("declare the built-in in a prelude (for example " ++
        "`@extern_c() declare function sizeof<T>(expr?: T): number;`)")
    | _ => none
  | .underflow _ => some "this is a compiler bug; please report it"

end LoweringError

/-- The result of a step of lowering. -/
abbrev Lowered (α : Type) := Except LoweringError α

/-- Fails with a fault at a place. -/
def failAt {α : Type} (span : Span) (cause : Fault) : Lowered α := .error (.fault span cause)

end NativeLowering
