import NativeLowering.Proofs.Emit.Operators
import NativeLowering.Proofs.Layout.Literals
import NativeLowering.Proofs.Scoping.Reframed

/-!
# The strings of an expression

The strings of an expression are those of the literals that are visited when it is written
(`Expr.strings`). Its text carries them: each is there as a literal that denotes it, and they are in
order (`exprText_carries`). The strings of a body are those of its expressions, as they are read with
the variables in scope at each (`Reading.strings`).
-/

set_option autoImplicit false

namespace NativeLowering

open Text (Denotes)

/-! ## The strings of an expression -/

section Strings

variable (cx : Context) (locals : Locals)

/-- Whether an object is a module, which is not written itself. -/
def Context.isModule (object : Expr) : Bool :=
  match cx.model.typeOf locals object with
  | .moduleTy _ => true
  | _ => false

/-- The strings of a call, by those of its callee and its arguments: an address and a size have no
callee, and a destructor is called without arguments. -/
def CallForm.strings (typeArgs : Option (List TypeNode)) (callee args : List String) :
    CallForm → List String
  | .address => args
  | .size => if (typeArgs.getD []).isEmpty then args else []
  | .destructor => callee
  | .function | .applied => callee ++ args

mutual

/-- The strings of the literals that are visited when an expression is written, in order. -/
def Expr.strings : Expr → List String
  | .literal _ (.string value) => [value]
  | .literal .. | .ident .. | .thisRef _ => []
  | .property _ object _ => if cx.isModule locals object then [] else object.strings
  | .call _ callee typeArgs args =>
    (callee.callForm cx locals).strings typeArgs callee.strings (Expr.stringsAll args)
  | .new _ _ args => Expr.stringsAll args
  | .binary _ _ left right => left.strings ++ right.strings
  | .unary _ _ operand => operand.strings
  | .paren _ inner => inner.strings
  | .comma _ items => Expr.stringsAll items
  | .receiverCall _ _ _ args => Expr.stringsAll args

def Expr.stringsAll : List Expr → List String
  | [] => []
  | first :: rest => first.strings ++ Expr.stringsAll rest

end

end Strings

/-! ## Literals denote their strings -/

theorem decode_escapedChar (c : Char) (rest : List Char) :
    Text.decode (escapedChar c ++ rest) = (Text.decode rest).map (c :: ·) := by
  unfold escapedChar
  split
  · rfl
  · rfl
  · rfl
  · rfl
  · rfl
  · rename_i hbackslash hquote hfeed hreturn _
    have hplain : ¬ (c = '"' ∨ c = '\n' ∨ c = '\r') := by
      rintro (rfl | rfl | rfl)
      · exact hquote rfl
      · exact hfeed rfl
      · exact hreturn rfl
    rw [List.singleton_append, Text.decode, if_neg hplain]
    · exact fun hc => absurd hc hbackslash
    · exact fun _ _ hc => absurd hc hbackslash

theorem stringLiteral_denotes (value : String) : Denotes (stringLiteral value).toList value := by
  refine ⟨value.toList.flatMap escapedChar, ?_, ?_⟩
  · rw [stringLiteral, String.toList_ofList]
    rfl
  · induction value.toList with
    | nil => rfl
    | cons c rest ih =>
      rw [List.flatMap_cons, decode_escapedChar, ih]
      rfl

/-! ## Pieces -/

/-- The strings of the literals among pieces. -/
def quoted (pieces : List Piece) : List String :=
  pieces.flatMap fun
    | .quoted value => [value]
    | _ => []

theorem quoted_append (pieces more : List Piece) :
    quoted (pieces ++ more) = quoted pieces ++ quoted more := List.flatMap_append

theorem spelled_carries (pieces : List Piece) :
    Carries (quoted pieces) (spelled pieces).toList := by
  induction pieces with
  | nil => exact .nil
  | cons piece rest ih =>
    rw [spelled, String.toList_append]
    cases piece with
    | quoted value => exact .literal (stringLiteral_denotes value) ih
    | _ => exact ih.behind _

section Pieces

variable {cx : Context} {locals : Locals}

theorem quoted_commaPieces (items : List (List Piece)) :
    quoted (commaPieces items) = items.flatMap quoted := by
  induction items with
  | nil => rfl
  | cons first rest ih =>
    cases rest with
    | nil => simp [commaPieces]
    | cons second others =>
      rw [commaPieces, quoted_append, List.flatMap_cons, ← ih]
      rfl

theorem quoted_applyPieces (head : List Piece) (items : List (List Piece)) :
    quoted (applyPieces head items) = quoted head ++ items.flatMap quoted := by
  have hbrackets : quoted (.gap "(" :: (commaPieces items ++ [.gap ")"]))
      = quoted (commaPieces items) ++ [] := quoted_append (commaPieces items) [.gap ")"]
  rw [applyPieces, quoted_append, hbrackets, quoted_commaPieces, List.append_nil]

theorem quoted_memberPieces (object : Expr) (mark member : String) (span : Span)
    (hobject : quoted (object.pieces cx locals) = object.strings cx locals) :
    quoted (memberPieces cx locals object mark member span (object.pieces cx locals))
      = object.strings cx locals := by
  unfold memberPieces
  split
  · rename_i hthis
    cases object with
    | thisRef => rfl
    | _ => cases hthis
  · dsimp only
    rw [quoted_append, hobject]
    exact List.append_nil _

theorem quoted_propertyPieces (object : Expr) (name : String) (span place : Span)
    (hobject : quoted (object.pieces cx locals) = object.strings cx locals) :
    quoted (propertyPieces cx locals object name span (object.pieces cx locals))
      = (Expr.property place object name).strings cx locals := by
  have hmember := quoted_memberPieces object "" name span hobject
  rw [Expr.strings]
  unfold propertyPieces
  split
  · rename_i hthis
    obtain ⟨place, rfl⟩ := Expr.eq_this hthis
    rw [hmember]
    split <;> rfl
  · unfold Context.isModule
    cases cx.model.typeOf locals object with
    | moduleTy specifier => rfl
    | _ => exact hmember

/-- A module has no destructor. -/
theorem isModule_of_isDestructor {object : Expr} {name : String}
    (h : cx.isDestructor locals object name = true) : cx.isModule locals object = false := by
  unfold Context.isDestructor at h
  unfold Context.isModule
  cases howner : cx.model.typeOf locals object with
  | moduleTy specifier =>
    rw [howner] at h
    cases h
  | _ => rfl

theorem quoted_callPieces (typeArgs : Option (List TypeNode)) (args : List Expr)
    (head : List Piece) (items : List (List Piece)) (form : CallForm) :
    quoted (callPieces cx typeArgs args head items form)
      = form.strings typeArgs (quoted head) (items.flatMap quoted) := by
  cases form with
  | address => exact quoted_commaPieces items
  | size =>
    unfold callPieces CallForm.strings
    cases typeArgs.getD [] with
    | nil =>
      dsimp only
      split
      · exact quoted_commaPieces items
      · exact quoted_applyPieces [.word "sizeof"] items
    | cons node more => rfl
  | destructor =>
    rw [callPieces, quoted_append]
    exact List.append_nil _
  | function | applied => exact quoted_applyPieces head items

theorem quoted_piecesAll {args : List Expr}
    (h : ∀ arg ∈ args, quoted (arg.pieces cx locals) = arg.strings cx locals) :
    (Expr.piecesAll cx locals args).flatMap quoted = Expr.stringsAll cx locals args := by
  induction args with
  | nil => rfl
  | cons first rest ih =>
    rw [Expr.piecesAll, Expr.stringsAll, List.flatMap_cons, h first (by simp),
      ih fun arg hm => h arg (by simp [hm])]

theorem quoted_receiverPieces (args : List Expr) (items : List (List Piece)) :
    (receiverPieces cx locals args items).flatMap quoted = items.flatMap quoted := by
  unfold receiverPieces
  split
  · split
    · simp [quoted]
    · rfl
  · rfl

/-- A callee that is a member is written by its object or by the name of the class, and both ways the
literals are those of its object. -/
theorem quoted_calleePieces {object : Expr} (name : String) (span place : Span)
    (hobject : quoted (object.pieces cx locals) = object.strings cx locals) :
    quoted (if cx.isDestructor locals object name
        then memberPieces cx locals object "~" (cx.unmarkedDestructor locals object) span
          (object.pieces cx locals)
        else propertyPieces cx locals object name span (object.pieces cx locals))
      = (Expr.property place object name).strings cx locals := by
  split
  · rename_i hdestructor
    rw [quoted_memberPieces object _ _ span hobject, Expr.strings,
      isModule_of_isDestructor hdestructor]
    rfl
  · exact quoted_propertyPieces object name span place hobject

/-- **The literals of a text** are those that are visited in its expression. -/
theorem quoted_pieces (value : Expr) :
    quoted (value.pieces cx locals) = value.strings cx locals := by
  induction value using Expr.indCallee with
  | ident | thisRef => rfl
  | literal span value => cases value <;> rfl
  | property span object name ih => exact quoted_propertyPieces object name span span ih
  | call span callee typeArgs args ihcallee ihobject ihargs =>
    have hargs := quoted_piecesAll ihargs
    cases callee with
    | ident place name =>
      rw [Expr.pieces, quoted_callPieces, hargs]
      rfl
    | property place object name =>
      rw [Expr.pieces, quoted_callPieces, hargs,
        quoted_calleePieces name span place (ihobject place object name rfl)]
      rfl
    | _ =>
      rw [Expr.pieces, quoted_applyPieces, hargs, ihcallee]
      · rfl
      · rintro _ _ ⟨⟩
      · rintro _ _ _ ⟨⟩
  | new span target args ih =>
    rw [Expr.pieces, quoted_applyPieces, quoted_piecesAll ih]
    rfl
  | binary span op left right ihleft ihright =>
    rw [Expr.pieces, Expr.strings, quoted_append, ihleft, ← ihright]
    rfl
  | unary span op operand ih => exact ih
  | paren span inner ih =>
    rw [Expr.pieces, Expr.strings, ← ih]
    exact (quoted_append (inner.pieces cx locals) [.gap ")"]).trans (List.append_nil _)
  | comma span items ih =>
    have hitems := quoted_piecesAll ih
    cases items with
    | nil => rfl
    | cons first rest =>
      rw [Expr.pieces, quoted_commaPieces]
      exact hitems
  | receiverCall span owner method args ih =>
    rw [Expr.pieces, quoted_applyPieces, quoted_receiverPieces, quoted_piecesAll ih]
    rfl

theorem exprText_carries {value : Expr} {text : String}
    (h : exprText cx locals value = .ok text) : Carries (value.strings cx locals) text.toList := by
  obtain ⟨hspelled, -⟩ := exprText_inPieces value text h
  have hcarries := spelled_carries (value.pieces cx locals)
  rwa [quoted_pieces, hspelled.text] at hcarries

end Pieces

/-! ## The strings of a body -/

section Reframed

variable {cx : Context} [cx.model.Typed] {locals other : Locals} (h : locals.Reframed other)
include h

theorem callForm_reframed (callee : Expr) :
    callee.callForm cx other = callee.callForm cx locals := by
  have hdestructor (object : Expr) (name : String) :
      cx.isDestructor other object name = cx.isDestructor locals object name := by
    unfold Context.isDestructor
    rw [h.typeOf]
  cases callee with
  | ident span name => simp only [Expr.callForm, h.binds]
  | property span object name => simp only [Expr.callForm, hdestructor]
  | _ => rfl

/-- Which literals are visited depends on the variables in scope and the class. -/
theorem strings_reframed (value : Expr) : value.strings cx other = value.strings cx locals := by
  have hall {items : List Expr}
      (hitems : ∀ item ∈ items, item.strings cx other = item.strings cx locals) :
      Expr.stringsAll cx other items = Expr.stringsAll cx locals items := by
    induction items with
    | nil => rfl
    | cons first rest ih =>
      rw [Expr.stringsAll, Expr.stringsAll, hitems first (by simp),
        ih fun item hm => hitems item (by simp [hm])]
  induction value using Expr.ind with
  | ident | thisRef => rfl
  | literal span value => cases value <;> rfl
  | property span object name ih =>
    have hmodule : cx.isModule other object = cx.isModule locals object := by
      unfold Context.isModule
      rw [h.typeOf]
    rw [Expr.strings, Expr.strings, hmodule, ih]
  | call span callee typeArgs args ihcallee ihargs =>
    rw [Expr.strings, Expr.strings, callForm_reframed h, ihcallee, hall ihargs]
  | new span target args ih => exact hall ih
  | binary span op left right ihleft ihright => rw [Expr.strings, Expr.strings, ihleft, ihright]
  | unary span op operand ih => exact ih
  | paren span inner ih => exact ih
  | comma span items ih => exact hall ih
  | receiverCall span owner method args ih => exact hall ih

end Reframed

/-- Bindings of a class with these variables in scope. -/
def Locals.seeing (owner : Option String) (visible : Bindings) : Locals :=
  { frames := [{ kind := .function, bindings := visible }], thisClass := owner }

theorem Locals.reframed_seeing {locals : Locals} (h : locals.Open) :
    locals.Reframed (.seeing locals.thisClass locals.visible) where
  visible := by simp [seeing, visible]
  thisClass := rfl
  isOpen := h
  otherOpen := List.cons_ne_nil _ _

/-- The strings of the expressions that are read, in order. -/
def Reading.strings (cx : Context) (owner : Option String) (reading : Reading (Occurrence Expr))
    (visible : Bindings) : List String :=
  (reading.found visible).flatMap fun there => there.node.strings cx (.seeing owner there.visible)

theorem Reading.strings_andThen (cx : Context) (owner : Option String)
    (first second : Reading (Occurrence Expr)) (visible : Bindings) :
    (first.andThen second).strings cx owner visible
      = first.strings cx owner visible ++ second.strings cx owner (first.after visible) :=
  List.flatMap_append

/-- The strings of the literals that are visited when the body of a function is written, as it is
after the passes. -/
def Emit.FunctionShape.strings (cx : Context) (shape : Emit.FunctionShape) :
    Lowered (List String) := do
  let (_, locals) ← Emit.paramRecords cx (.start shape.thisClass) shape.params
  let lowered ← Emit.loweredBody cx locals shape.body
  return (Stmt.valuesAll cx.model lowered).strings cx shape.thisClass locals.visible

end NativeLowering
