import NativeLowering.Error
import NativeLowering.Syntax.Decl

/-!
# Lowering traits

The decorators on a declaration, folded into the three decisions they stand for: who owns
instances of a class, what native name a declaration is bound to, and what native namespace it
belongs to. Nothing after this looks at a decorator again.
-/

set_option autoImplicit false

namespace NativeLowering

open Vocabulary (DecoratorName)

/-- Who owns the instances of a class. -/
inductive Ownership where
  /-- An instance is a plain value, constructed in place. -/
  | value
  /-- An instance lives on the heap behind a counted reference. -/
  | sharedHeap
  deriving DecidableEq

/-- What the decorators on a declaration decide. -/
structure Traits where
  ownership : Ownership := .sharedHeap
  /-- The name the declaration is bound to, if it is bound to a native symbol. -/
  nativeName : Option String := none
  /-- The native namespace, if there is one. -/
  nativeSpace : Option String := none
  deriving DecidableEq

namespace Traits

/-- The arguments of a decorator, where it stands first. -/
def args? (decorators : List Decorator) (name : DecoratorName) : Option (List Expr) :=
  (decorators.find? fun decorator => DecoratorName.ofString? decorator.name == some name).map
    Decorator.args

/-- The first argument, which has to be a string literal if there is one. -/
def literalArg (name : DecoratorName) : List Expr → Lowered (Option String)
  | [] => .ok none
  | .literal _ (.string text) :: _ => .ok (some text)
  | other :: _ => failAt other.span (.computedDecoratorArg name)

/-- Fails at the first decorator that is not in the vocabulary. -/
def checkKnown : List Decorator → Lowered Unit
  | [] => .ok ()
  | decorator :: rest =>
    if (DecoratorName.ofString? decorator.name).isSome then checkKnown rest
    else failAt decorator.span (.unknownDecorator decorator.name)

/-- Value semantics have to be asked for. -/
def ownershipOf (decorators : List Decorator) : Ownership :=
  if (args? decorators .valueSemantics).isSome then .value else .sharedHeap

/-- The name of a native binding is the declared name unless an argument gives another. -/
def nativeNameOf (decorators : List Decorator) (declared : String) : Lowered (Option String) :=
  match args? decorators .nativeBinding with
  | none => .ok none
  | some args => (literalArg .nativeBinding args).map fun text => some (text.getD declared)

/-- The namespace has to be given by an argument. -/
def nativeSpaceOf (decorators : List Decorator) : Lowered (Option String) :=
  match args? decorators .nativeNamespace with
  | none => .ok none
  | some args => literalArg .nativeNamespace args

/-- The traits of a declaration, from its decorators and its name. -/
def ofDecorators (decorators : List Decorator) (declared : String) : Lowered Traits := do
  checkKnown decorators
  let nativeName ← nativeNameOf decorators declared
  let nativeSpace ← nativeSpaceOf decorators
  return { ownership := ownershipOf decorators, nativeName, nativeSpace }

end Traits

end NativeLowering
