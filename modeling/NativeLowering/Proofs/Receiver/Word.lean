import NativeLowering.Proofs.Emit.Draft
import NativeLowering.Proofs.Layout.Format
import NativeLowering.Proofs.Receiver.Binding

/-!
# The word for the current instance

The text of a class member depends on the word that stands for the current instance. `exprTextAs` has
the word as a parameter, and with `this` it is the text as it is written (`exprTextAs_this`).
-/

set_option autoImplicit false

namespace NativeLowering

/-- The receiver's name in front of a piece is a piece by itself. -/
theorem Context.piece_receiver (cx : Context) (text : String) :
    cx.piece (Spelling.receiver ++ text) = Spelling.receiver ++ cx.piece text :=
  cx.layout.inline_append (by simp [Spelling.receiver]) text

/-! ## The word for the current instance -/

/-- A member of the current instance, with the word for it. -/
def instanceMemberTextAs (cx : Context) (word : String) (locals : Locals) (member : String)
    (span : Span) : Lowered String := do
  requireThis locals span
  return cx.piece (word ++ "->" ++ member)

def memberTextAs (cx : Context) (word : String) (locals : Locals) (object : Expr) (owner : Ty)
    (member : String) (span : Span) (objectText : Lowered String) : Lowered String :=
  if object.isThis then instanceMemberTextAs cx word locals member span
  else do
    let between ← separator cx owner member span
    let text ← objectText
    return text ++ cx.piece (between ++ member)

def propertyTextAs (cx : Context) (word : String) (locals : Locals) (object : Expr) (name : String)
    (span : Span) (objectText : Lowered String) : Lowered String :=
  if object.isThis then instanceMemberTextAs cx word locals name span
  else
    match cx.model.typeOf locals object with
    | .moduleTy specifier => moduleMemberText cx specifier name span
    | owner => memberTextAs cx word locals object owner name span objectText

def methodCallTextAs (cx : Context) (word : String) (locals : Locals) (object : Expr)
    (name : String) (span : Span) (objectText : Lowered String)
    (argTexts : Lowered (List String)) : Lowered String :=
  let owner := cx.model.typeOf locals object
  let ordinary : Lowered String := do
    let callee ← propertyTextAs cx word locals object name span objectText
    let texts ← argTexts
    return callee ++ argList texts
  match owner with
  | .classTy ownerName =>
    match cx.model.class? ownerName with
    | none => failAt span (.classNotInTable ownerName)
    | some (item, info) =>
      if name = Spelling.destructor ∧ info.hasDestructor then do
        let member := Naming.destructor (item.writtenName cx.mangling)
        let callee ← memberTextAs cx word locals object owner member span objectText
        return callee ++ "()"
      else if (info.method? name).isNone && (info.field? name).isNone then
        failAt span (.missingClassMember ownerName name)
      else ordinary
  | .moduleTy specifier =>
    if (cx.model.exportedFunction? specifier name).isSome then ordinary
    else failAt span (.notExportedFunction name specifier)
  | .interfaceTy interfaceName => failAt span (.interfaceCall name interfaceName)
  | _ => ordinary

mutual

/-- The text of an expression, with the word for the current instance. -/
def exprTextAs (cx : Context) (word : String) (locals : Locals) : Expr → Lowered String
  | .ident span name => identText cx locals name span
  | .thisRef span => do
    requireThis locals span
    return word
  | .literal _ value => .ok (cx.piece value.text)
  | .property span object name =>
    propertyTextAs cx word locals object name span (exprTextAs cx word locals object)
  | .call span (.ident _ name) typeArgs args =>
    if locals.binds name then do
      let texts ← exprTextsAs cx word locals args
      return cx.piece name ++ argList texts
    else functionCallText cx name span typeArgs args (exprTextsAs cx word locals args)
  | .call span (.property _ object name) _ args =>
    methodCallTextAs cx word locals object name span (exprTextAs cx word locals object)
      (exprTextsAs cx word locals args)
  | .call _ callee _ args => do
    let text ← exprTextAs cx word locals callee
    let texts ← exprTextsAs cx word locals args
    return text ++ argList texts
  | .new span target args => newText cx target span (exprTextsAs cx word locals args)
  | .binary _ op left right => do
    let left ← exprTextAs cx word locals left
    let right ← exprTextAs cx word locals right
    return left ++ " " ++ op.spelling ++ " " ++ right
  | .unary _ op operand => do
    let operand ← exprTextAs cx word locals operand
    return op.spelling ++ operand
  | .paren _ inner => do
    let inner ← exprTextAs cx word locals inner
    return "(" ++ inner ++ ")"
  | .comma _ items => do
    let texts ← exprTextsAs cx word locals items
    return commaList texts
  | .receiverCall span owner method args =>
    receiverCallText cx locals owner method args span (exprTextsAs cx word locals args)

def exprTextsAs (cx : Context) (word : String) (locals : Locals) :
    List Expr → Lowered (List String)
  | [] => .ok []
  | item :: rest => do
    let text ← exprTextAs cx word locals item
    let texts ← exprTextsAs cx word locals rest
    return text :: texts

end

section This

variable (cx : Context) (locals : Locals)

theorem exprTextAs_call (word : String) {span : Span} {callee : Expr}
    {typeArgs : Option (List TypeNode)} {args : List Expr} (h : callee.isNamed = false) :
    exprTextAs cx word locals (.call span callee typeArgs args) = do
      let text ← exprTextAs cx word locals callee
      let texts ← exprTextsAs cx word locals args
      return text ++ argList texts := by
  rw [exprTextAs]
  · rintro _ _ rfl
    cases h
  · rintro _ _ _ rfl
    cases h

theorem propertyTextAs_this (object : Expr) (name : String) (span : Span)
    (objectText : Lowered String) :
    propertyTextAs cx "this" locals object name span objectText
      = propertyText cx locals object name span objectText := rfl

theorem methodCallTextAs_this (object : Expr) (name : String) (span : Span)
    (objectText : Lowered String) (argTexts : Lowered (List String)) :
    methodCallTextAs cx "this" locals object name span objectText argTexts
      = methodCallText cx locals object name span objectText argTexts := rfl

mutual

/-- A class member is written with `this`. -/
theorem exprTextAs_this : ∀ value : Expr, exprTextAs cx "this" locals value = exprText cx locals value
  | .ident .. | .thisRef _ | .literal .. => by simp only [exprTextAs, exprText]
  | .property _ object _ => by
    simp only [exprTextAs, exprText, exprTextAs_this object, propertyTextAs_this]
  | .call _ callee _ args => by
    have hargs := exprTextsAs_this args
    cases hnamed : callee.isNamed with
    | false =>
      rw [exprTextAs_call cx locals "this" hnamed, exprText_call cx locals hnamed,
        exprTextAs_this callee, hargs]
    | true =>
      cases callee with
      | ident => simp only [exprTextAs, exprText, hargs]
      | property place object name =>
        simp only [exprTextAs, exprText, exprTextAs_this object, hargs, methodCallTextAs_this]
      | _ => cases hnamed
  | .new _ _ args => by simp only [exprTextAs, exprText, exprTextsAs_this args]
  | .binary _ _ left right => by
    simp only [exprTextAs, exprText, exprTextAs_this left, exprTextAs_this right]
  | .unary _ _ operand => by simp only [exprTextAs, exprText, exprTextAs_this operand]
  | .paren _ inner => by simp only [exprTextAs, exprText, exprTextAs_this inner]
  | .comma _ items => by simp only [exprTextAs, exprText, exprTextsAs_this items]
  | .receiverCall _ _ _ args => by simp only [exprTextAs, exprText, exprTextsAs_this args]

theorem exprTextsAs_this : ∀ items : List Expr,
    exprTextsAs cx "this" locals items = exprTexts cx locals items
  | [] => by simp only [exprTextsAs, exprTexts]
  | item :: rest => by
    simp only [exprTextsAs, exprTexts, exprTextAs_this item, exprTextsAs_this rest]

end

end This

end NativeLowering
