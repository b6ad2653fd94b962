import NativeLowering.Emit.Expr
import NativeLowering.Proofs.Layout.Format
import NativeLowering.Proofs.Model.Typed

/-!
# The text of an expression

An expression is written piece by piece. The text that this comes to is computed here from the parts
of the expression alone, at given local bindings and with no session in sight: `exprText` is either
the whole text or the error of the first part that cannot be written. That writing an expression
appends exactly this text is `Emit.appends_expr`.

Each piece is laid out by itself, so a name that holds a line break keeps to the line ending of the
layout.
-/

set_option autoImplicit false

namespace NativeLowering

open Vocabulary (Builtin)

namespace Context

/-- A piece of a line. -/
def piece (cx : Context) (text : String) : String := cx.layout.inline text

/-- The spelling of a type annotation, as a piece of a line. -/
def typePiece (cx : Context) (node : TypeNode) : Lowered String :=
  (typeText cx.model cx.mangling node).map cx.piece

end Context

/-! ## Names and members -/

/-- A name used as a value. -/
def identText (cx : Context) (locals : Locals) (name : String) (span : Span) : Lowered String :=
  (valueName cx locals name span).map cx.piece

theorem identText_eq (cx : Context) (locals : Locals) (name : String) (span : Span) :
    identText cx locals name span =
      if locals.binds name then .ok (cx.piece name)
      else
        match cx.model.resolve? name with
        | none => failAt span (.unresolvedName name)
        | some symbol =>
          match symbol.kind with
          | .functionKind | .classKind => .ok (cx.piece (symbol.writtenName cx.mangling))
          | kind => failAt span (.notValue name kind) := by
  unfold identText valueName
  split
  · rfl
  · cases cx.model.resolve? name with
    | none => rfl
    | some symbol => cases hkind : symbol.kind <;> simp only [hkind] <;> rfl

/-- A member of the current instance. -/
def instanceMemberText (cx : Context) (locals : Locals) (member : String) (span : Span) :
    Lowered String := do
  requireThis locals span
  return cx.piece ("this->" ++ member)

/-- A member of an object of a type. -/
def memberText (cx : Context) (locals : Locals) (object : Expr) (owner : Ty) (member : String)
    (span : Span) (objectText : Lowered String) : Lowered String :=
  if object.isThis then instanceMemberText cx locals member span
  else do
    let between ← separator cx owner member span
    let text ← objectText
    return text ++ cx.piece (between ++ member)

/-- A member of a module. -/
def moduleMemberText (cx : Context) (specifier member : String) (span : Span) : Lowered String :=
  (moduleMember cx specifier member span).map cx.piece

theorem moduleMemberText_eq (cx : Context) (specifier member : String) (span : Span) :
    moduleMemberText cx specifier member span =
      match cx.model.module? specifier with
      | none => failAt span (.moduleNotDeclared specifier)
      | some ambient =>
        match ambient.member? member with
        | none => failAt span (.missingModuleMember specifier member)
        | some item =>
          .ok (cx.piece
            (Naming.qualifiedIn ambient.traits.nativeSpace (item.writtenName cx.mangling))) := by
  unfold moduleMemberText moduleMember
  cases cx.model.module? specifier with
  | none => rfl
  | some ambient =>
    dsimp only
    cases ambient.member? member <;> rfl

/-- A property of an object. -/
def propertyText (cx : Context) (locals : Locals) (object : Expr) (name : String) (span : Span)
    (objectText : Lowered String) : Lowered String :=
  if object.isThis then instanceMemberText cx locals name span
  else
    match cx.model.typeOf locals object with
    | .moduleTy specifier => moduleMemberText cx specifier name span
    | owner => memberText cx locals object owner name span objectText

/-- What a property is, unless it is one of a module: a member of the object. -/
theorem propertyText_member {cx : Context} {locals : Locals} {object : Expr}
    (h : object.isThis = true ∨ ∀ specifier, cx.model.typeOf locals object ≠ .moduleTy specifier)
    (name : String) (span : Span) (objectText : Lowered String) :
    propertyText cx locals object name span objectText
      = memberText cx locals object (cx.model.typeOf locals object) name span objectText := by
  unfold propertyText
  split
  · rename_i hthis
    rw [memberText, if_pos hthis]
  · rename_i hthis
    split
    · rename_i specifier hmodule
      exact absurd hmodule (h.resolve_left hthis specifier)
    · rfl

/-! ## Calls -/

/-- Texts with commas between them. -/
def commaList (texts : List String) : String := ", ".intercalate texts

/-- The arguments of a call. -/
def argList (texts : List String) : String := "(" ++ commaList texts ++ ")"

/-- The address of a storage location. -/
def addressText (span : Span) (args : List Expr) (argTexts : Lowered (List String)) :
    Lowered String :=
  match args with
  | [operand] =>
    if operand.isAddressable then argTexts.map fun texts => "&" ++ commaList texts
    else failAt operand.span .addressOfValue
  | args => failAt span (.builtinArity .addressOf args.length)

/-- The size of a type or of a value. -/
def sizeText (cx : Context) (span : Span) (typeArgs : List TypeNode) (args : List Expr)
    (argTexts : Lowered (List String)) : Lowered String :=
  match typeArgs, args with
  | [node], [] =>
    (typeText cx.model cx.mangling node).map fun text => cx.piece ("sizeof(" ++ text ++ ")")
  | [], [value] =>
    argTexts.map fun texts =>
      if value.isAddressable then "sizeof " ++ commaList texts
      else "sizeof" ++ argList texts
  | _, _ => failAt span .sizeofArity

/-- A conversion to a number of fixed width. -/
def conversionText (span : Span) (builtin : Builtin) (args : List Expr)
    (argTexts : Lowered (List String)) : Lowered String :=
  match args with
  | [_] => argTexts.map fun texts => builtin.spelling ++ argList texts
  | args => failAt span (.builtinArity builtin args.length)

/-- A call of a function by its written name. Type arguments cannot be passed on. -/
def plainCallText (cx : Context) (name : String) (symbol : Symbol) (span : Span)
    (typeArgs : List TypeNode) (argTexts : Lowered (List String)) : Lowered String :=
  match typeArgs with
  | _ :: _ => failAt span (.explicitTypeArgs name)
  | [] => argTexts.map fun texts => cx.piece (symbol.writtenName cx.mangling) ++ argList texts

/-- A call of a global function. -/
def functionCallText (cx : Context) (name : String) (span : Span)
    (typeArgs : Option (List TypeNode)) (args : List Expr) (argTexts : Lowered (List String)) :
    Lowered String :=
  match cx.model.resolve? name with
  | none => failAt span (.unresolvedFunction name)
  | some symbol =>
    match symbol.function? with
    | none => failAt span (.notFunction name symbol.kind)
    | some info =>
      match info.builtin with
      | some .addressOf => addressText span args argTexts
      | some .sizeOf => sizeText cx span (typeArgs.getD []) args argTexts
      | none | some .allocate =>
        plainCallText cx name symbol span (typeArgs.getD []) argTexts
      | some builtin => conversionText span builtin args argTexts

/-- A call of a method or of a module's function. -/
def methodCallText (cx : Context) (locals : Locals) (object : Expr) (name : String)
    (span : Span) (objectText : Lowered String) (argTexts : Lowered (List String)) :
    Lowered String :=
  let owner := cx.model.typeOf locals object
  let ordinary : Lowered String := do
    let callee ← propertyText cx locals object name span objectText
    let texts ← argTexts
    return callee ++ argList texts
  match owner with
  | .classTy ownerName =>
    match cx.model.class? ownerName with
    | none => failAt span (.classNotInTable ownerName)
    | some (item, info) =>
      if name = Spelling.destructor ∧ info.hasDestructor then do
        let member := Naming.destructor (item.writtenName cx.mangling)
        let callee ← memberText cx locals object owner member span objectText
        return callee ++ "()"
      else if (info.method? name).isNone && (info.field? name).isNone then
        failAt span (.missingClassMember ownerName name)
      else ordinary
  | .moduleTy specifier =>
    if (cx.model.exportedFunction? specifier name).isSome then ordinary
    else failAt span (.notExportedFunction name specifier)
  | .interfaceTy interfaceName => failAt span (.interfaceCall name interfaceName)
  | _ => ordinary

/-- A construction. -/
def newText (cx : Context) (target : Expr) (span : Span) (argTexts : Lowered (List String)) :
    Lowered String :=
  match target with
  | .ident _ name =>
    match cx.model.class? name with
    | none => failAt span (.notClass name)
    | some (item, info) => do
      let texts ← argTexts
      let callee := info.traits.ownership.constructorCallee (item.writtenName cx.mangling)
      return cx.piece callee ++ argList texts
  | _ => failAt span .computedClass

/-- A receiver call. From a handle of a shared instance the raw pointer is taken. -/
def receiverCallText (cx : Context) (locals : Locals) (owner method : String) (args : List Expr)
    (span : Span) (argTexts : Lowered (List String)) : Lowered String :=
  match cx.model.class? owner with
  | none => failAt span (.classNotInTable owner)
  | some (item, _) =>
    match args with
    | [] => failAt span (.missingReceiver method)
    | receiver :: _ => do
      let texts ← argTexts
      let callee := cx.piece (Naming.receiverFunction (item.writtenName cx.mangling) method)
      let raw := if isSharedHandle cx locals receiver then ".get()" else ""
      match texts with
      | [] => return callee ++ argList []
      | first :: rest => return callee ++ argList ((first ++ raw) :: rest)

/-! ## Expressions -/

mutual

/-- The text of an expression at a point of a body. -/
def exprText (cx : Context) (locals : Locals) : Expr → Lowered String
  | .ident span name => identText cx locals name span
  | .thisRef span => do
    requireThis locals span
    return "this"
  | .literal _ value => .ok (cx.piece value.text)
  | .property span object name =>
    propertyText cx locals object name span (exprText cx locals object)
  | .call span (.ident _ name) typeArgs args =>
    if locals.binds name then do
      let texts ← exprTexts cx locals args
      return cx.piece name ++ argList texts
    else functionCallText cx name span typeArgs args (exprTexts cx locals args)
  | .call span (.property _ object name) _ args =>
    methodCallText cx locals object name span (exprText cx locals object)
      (exprTexts cx locals args)
  | .call _ callee _ args => do
    let text ← exprText cx locals callee
    let texts ← exprTexts cx locals args
    return text ++ argList texts
  | .new span target args => newText cx target span (exprTexts cx locals args)
  | .binary _ op left right => do
    let left ← exprText cx locals left
    let right ← exprText cx locals right
    return left ++ " " ++ op.spelling ++ " " ++ right
  | .unary _ op operand => do
    let operand ← exprText cx locals operand
    return op.spelling ++ operand
  | .paren _ inner => do
    let inner ← exprText cx locals inner
    return "(" ++ inner ++ ")"
  | .comma _ items => do
    let texts ← exprTexts cx locals items
    return commaList texts
  | .receiverCall span owner method args =>
    receiverCallText cx locals owner method args span (exprTexts cx locals args)

/-- The texts of expressions, in order. -/
def exprTexts (cx : Context) (locals : Locals) : List Expr → Lowered (List String)
  | [] => .ok []
  | item :: rest => do
    let text ← exprText cx locals item
    let texts ← exprTexts cx locals rest
    return text :: texts

end

theorem exprText_call (cx : Context) (locals : Locals) {span : Span} {callee : Expr}
    {typeArgs : Option (List TypeNode)} {args : List Expr} (h : callee.isNamed = false) :
    exprText cx locals (.call span callee typeArgs args) = do
      let text ← exprText cx locals callee
      let texts ← exprTexts cx locals args
      return text ++ argList texts := by
  rw [exprText]
  · rintro _ _ rfl
    cases h
  · rintro _ _ _ rfl
    cases h

/-- The text of a default value. -/
def defaultText (cx : Context) (locals : Locals) : Option Expr → Lowered (Option String)
  | none => .ok none
  | some value => (exprText cx locals value).map some

end NativeLowering
