import NativeLowering.Proofs.Emit.Calls
import NativeLowering.Proofs.Emit.FlatText
import NativeLowering.Proofs.Emit.MemberAccess
import NativeLowering.Proofs.Emit.Pieces
import NativeLowering.Proofs.Syntax.Induction

/-!
# Operators next to each other

Each operator of an expression becomes one piece of its text (`Expr.pieces`), so a token of the text
that has characters of two pieces has characters of two operators. Blanks stand on both sides of a
binary operator, and the operand of an address and the parts around a member access begin and end with
words or brackets. Nothing at all stands between a unary operator and its operand.

`fuses_only_if_doubled` says what this comes to: operators are read as one only where a sign is applied
to an operand that begins with the same sign (`nestedSigns_fuse`).
-/

set_option autoImplicit false

namespace NativeLowering

/-! ## The pieces of an expression -/

section Pieces

variable (cx : Context) (locals : Locals)

/-- The pieces of a member of an object, by those of the object. A mark may stand in front of the
name of the member. -/
def memberPieces (object : Expr) (mark member : String) (span : Span) (objectPieces : List Piece) :
    List Piece :=
  if object.isThis then [.word "this", .joint ("->" ++ mark), .word (cx.piece member)]
  else
    let between := separator cx (cx.model.typeOf locals object) (mark ++ member) span
    objectPieces ++ [.joint (between.toOption.getD "" ++ mark), .word (cx.piece member)]

/-- The pieces of a property. -/
def propertyPieces (object : Expr) (name : String) (span : Span) (objectPieces : List Piece) :
    List Piece :=
  if object.isThis then memberPieces cx locals object "" name span objectPieces
  else
    match cx.model.typeOf locals object with
    | .moduleTy specifier => [.word ((moduleMemberText cx specifier name span).toOption.getD "")]
    | _ => memberPieces cx locals object "" name span objectPieces

/-- The name of a destructor without the mark in front of it. -/
def Context.unmarkedDestructor (object : Expr) : String :=
  match cx.model.typeOf locals object with
  | .classTy owner =>
    match cx.model.class? owner with
    | some (item, _) => item.writtenName cx.mangling
    | none => ""
  | _ => ""

/-- Pieces with commas between them. -/
def commaPieces : List (List Piece) → List Piece
  | [] => []
  | [last] => last
  | first :: second :: rest => first ++ .gap ", " :: commaPieces (second :: rest)

/-- Pieces in brackets, behind others. -/
def applyPieces (head : List Piece) (items : List (List Piece)) : List Piece :=
  head ++ .gap "(" :: (commaPieces items ++ [.gap ")"])

/-- The pieces of a call, by those of its callee and its arguments. -/
def callPieces (typeArgs : Option (List TypeNode)) (args : List Expr) (head : List Piece)
    (items : List (List Piece)) : CallForm → List Piece
  | .address => .address :: commaPieces items
  | .size =>
    match typeArgs.getD [] with
    | node :: _ =>
      [.word (cx.piece ("sizeof(" ++ (typeText cx.model cx.mangling node).toOption.getD "" ++ ")"))]
    | [] =>
      if CallForm.ofPlace args then .gap "sizeof " :: commaPieces items
      else applyPieces [.word "sizeof"] items
  | .destructor => head ++ [.gap "()"]
  | .function | .applied => applyPieces head items

/-- The word that a construction begins with. -/
def newWord : Expr → String
  | .ident _ name =>
    match cx.model.class? name with
    | some (item, info) =>
      cx.piece (info.traits.ownership.constructorCallee (item.writtenName cx.mangling))
    | none => ""
  | _ => ""

/-- The word that a receiver call begins with. -/
def receiverWord (owner method : String) : String :=
  match cx.model.class? owner with
  | some (item, _) => cx.piece (Naming.receiverFunction (item.writtenName cx.mangling) method)
  | none => ""

/-- The pieces of the arguments of a receiver call: the raw pointer may be taken from the first. -/
def receiverPieces : List Expr → List (List Piece) → List (List Piece)
  | receiver :: _, first :: rest =>
    if isSharedHandle cx locals receiver then
      (first ++ [.joint ".", .word "get"] ++ [.gap "()"]) :: rest
    else first :: rest
  | _, items => items

mutual

/-- The pieces of the text of an expression. Nothing is meant by them if it is not written. -/
def Expr.pieces : Expr → List Piece
  | .ident span name => [.word ((identText cx locals name span).toOption.getD "")]
  | .thisRef _ => [.word "this"]
  | .literal _ (.string value) => [.quoted value]
  | .literal _ value => [.word (cx.piece value.text)]
  | .property span object name => propertyPieces cx locals object name span object.pieces
  | .call _ (.ident place name) typeArgs args =>
    callPieces cx typeArgs args [.word (cx.calleeWord locals name)] (Expr.piecesAll args)
      ((Expr.ident place name).callForm cx locals)
  | .call span (.property place object name) typeArgs args =>
    let head := if cx.isDestructor locals object name
      then memberPieces cx locals object "~" (cx.unmarkedDestructor locals object) span object.pieces
      else propertyPieces cx locals object name span object.pieces
    callPieces cx typeArgs args head (Expr.piecesAll args)
      ((Expr.property place object name).callForm cx locals)
  | .call _ callee _ args => applyPieces callee.pieces (Expr.piecesAll args)
  | .new _ target args => applyPieces [.word (newWord cx target)] (Expr.piecesAll args)
  | .binary _ op left right =>
    left.pieces ++ .gap " " :: .joint op.spelling :: .gap " " :: right.pieces
  | .unary _ op operand => .unary op :: operand.pieces
  | .paren _ inner => .gap "(" :: (inner.pieces ++ [.gap ")"])
  | .comma _ [] => [.word ""]
  | .comma _ (first :: rest) => commaPieces (first.pieces :: Expr.piecesAll rest)
  | .receiverCall _ owner method args =>
    applyPieces [.word (receiverWord cx owner method)]
      (receiverPieces cx locals args (Expr.piecesAll args))

/-- The pieces of expressions, in order. -/
def Expr.piecesAll : List Expr → List (List Piece)
  | [] => []
  | first :: rest => first.pieces :: Expr.piecesAll rest

end

end Pieces

/-! ## Texts and pieces -/

/-- The pieces make up the text, stand as they may, and do not end with an operator. -/
structure SpelledAs (pieces : List Piece) (text : String) : Prop where
  text : spelled pieces = text
  set : WellSet pieces
  closed : ∃ last ∈ pieces.getLast?, last.isOperator = false

theorem beside_gap {piece : Piece} (h : piece.isOperator = false) (text : String) :
    piece.Beside (.gap text) := by
  cases piece with
  | word | quoted | gap => trivial
  | unary op => rfl
  | address | joint => rfl

theorem beside_joint {piece : Piece} (h : piece.isOperator = false) (text : String) :
    piece.Beside (.joint text) := by
  cases piece with
  | word | quoted | gap => trivial
  | unary op => cases op <;> cases h
  | address | joint => cases h

namespace SpelledAs

variable {pieces more : List Piece} {text other : String}

/-- A piece that is no operator, alone. -/
theorem single {piece : Piece} (hplain : piece.isOperator = false) (hsound : piece.Sound) :
    SpelledAs [piece] piece.text where
  text := String.append_empty
  set := by
    refine ⟨.singleton _, fun other hm => ?_, fun other hm => ?_⟩
    · cases hm
      exact (Bool.or_eq_false_iff.mp hplain).2
    · cases List.mem_singleton.mp hm
      exact hsound
  closed := ⟨piece, rfl, hplain⟩

theorem word (text : String) : SpelledAs [.word text] text := single rfl trivial

theorem quoted (value : String) : SpelledAs [.quoted value] (stringLiteral value) :=
  single rfl trivial

theorem ne_nil (h : SpelledAs pieces text) : pieces ≠ [] := by
  rintro rfl
  obtain ⟨last, hlast, -⟩ := h.closed
  cases hlast

/-- A gap in front of more. -/
theorem afterGap {gap : String} (hgap : (Piece.gap gap).Sound) (h : SpelledAs pieces text) :
    SpelledAs (.gap gap :: pieces) (gap ++ text) where
  text := by rw [spelled, h.text]; rfl
  set := ⟨List.isChain_cons.mpr ⟨fun _ _ => trivial, h.set.beside⟩, fun _ hm => by cases hm; rfl,
    List.forall_mem_cons.mpr ⟨hgap, h.set.sound⟩⟩
  closed := by
    obtain ⟨last, hlast, hclosed⟩ := h.closed
    exact ⟨last, List.mem_getLast?_cons hlast, hclosed⟩

theorem gap {gap : String} (hgap : (Piece.gap gap).Sound) : SpelledAs [.gap gap] gap :=
  single rfl hgap

/-- More pieces that begin with a gap. -/
theorem append {gap : String} (h : SpelledAs pieces text)
    (hmore : SpelledAs (.gap gap :: more) other) :
    SpelledAs (pieces ++ .gap gap :: more) (text ++ other) where
  text := by rw [spelled_append, h.text, hmore.text]
  set := by
    obtain ⟨last, hlast, hclosed⟩ := h.closed
    refine ⟨List.isChain_append.mpr ⟨h.set.beside, hmore.set.beside, ?_⟩, ?_, ?_⟩
    · intro own hown next hnext
      cases Option.mem_unique hlast hown
      cases hnext
      exact beside_gap hclosed gap
    · rw [List.head?_append_of_ne_nil _ h.ne_nil]
      exact h.set.starts
    · intro piece hm
      exact (List.mem_append.mp hm).elim (h.set.sound piece) (hmore.set.sound piece)
  closed := by
    obtain ⟨last, hlast, hclosed⟩ := hmore.closed
    exact ⟨last, List.mem_getLast?_append_of_mem_getLast? hlast, hclosed⟩

/-- A word behind an operator, which may have anything but an operator in front of it. -/
theorem member {joint : String} (hjoint : (Piece.joint joint).Sound) (h : SpelledAs pieces text)
    (word : String) :
    SpelledAs (pieces ++ [.joint joint, .word word]) (text ++ (joint ++ word)) where
  text := by
    rw [spelled_append, h.text]
    simp [spelled, Piece.text]
  set := by
    obtain ⟨last, hlast, hclosed⟩ := h.closed
    refine ⟨List.isChain_append.mpr ⟨h.set.beside, ?_, ?_⟩, ?_, ?_⟩
    · exact List.isChain_pair.mpr rfl
    · intro own hown next hnext
      cases Option.mem_unique hlast hown
      cases hnext
      exact beside_joint hclosed joint
    · rw [List.head?_append_of_ne_nil _ h.ne_nil]
      exact h.set.starts
    · intro piece hm
      simp only [List.mem_append, List.mem_cons, List.not_mem_nil, or_false] at hm
      rcases hm with hm | rfl | rfl
      · exact h.set.sound piece hm
      · exact hjoint
      · trivial
  closed := ⟨.word word, List.mem_getLast?_append_of_mem_getLast? rfl, rfl⟩

/-- An operator with blanks on both sides. -/
theorem binary (op : Vocabulary.BinaryOp) (h : SpelledAs pieces text) :
    SpelledAs (.gap " " :: .joint op.spelling :: .gap " " :: pieces)
      (" " ++ (op.spelling ++ (" " ++ text))) := by
  have hblank : (Piece.gap " ").Sound := by simp [Piece.Sound, isOperatorChar]
  have hjoint : (Piece.joint op.spelling).Sound := by
    cases op <;> simp [Piece.Sound, Vocabulary.BinaryOp.spelling]
  have hbehind := h.afterGap hblank
  obtain ⟨last, hlast, hclosed⟩ := hbehind.closed
  refine ⟨by rw [spelled, spelled, hbehind.text]; rfl, ⟨?_, ?_, ?_⟩, last, ?_, hclosed⟩
  · refine List.isChain_cons_cons.mpr ⟨trivial, List.isChain_cons_cons.mpr ⟨rfl, hbehind.set.beside⟩⟩
  · intro piece hm
    cases hm
    rfl
  · exact List.forall_mem_cons.mpr ⟨hblank, List.forall_mem_cons.mpr ⟨hjoint, hbehind.set.sound⟩⟩
  · exact List.mem_getLast?_cons (List.mem_getLast?_cons hlast)

/-- An operator in front of its operand. An address is not taken of what begins with an operator. -/
theorem front {piece : Piece} {c : Char} (hpiece : piece.front? = some c) (h : SpelledAs pieces text)
    (haddress : piece = .address → ∀ next ∈ pieces.head?, next.isOperator = false) :
    SpelledAs (piece :: pieces) (piece.text ++ text) where
  text := by rw [spelled, h.text]
  set := by
    refine ⟨List.isChain_cons.mpr ⟨fun next hnext => ?_, h.set.beside⟩, ?_, ?_⟩
    · cases piece with
      | unary op => exact h.set.starts next hnext
      | address => exact haddress rfl next hnext
      | _ => cases hpiece
    · intro other hm
      cases hm
      cases piece with
      | unary | address => rfl
      | _ => cases hpiece
    · refine List.forall_mem_cons.mpr ⟨?_, h.set.sound⟩
      cases piece with
      | unary | address => trivial
      | _ => cases hpiece
  closed := by
    obtain ⟨last, hlast, hclosed⟩ := h.closed
    exact ⟨last, List.mem_getLast?_cons hlast, hclosed⟩

end SpelledAs

section Lists

variable {items : List (List Piece)} {texts : List String}

theorem commaPieces_spelled {first : List Piece} {rest : List (List Piece)} {text : String}
    (hfirst : SpelledAs first text) (hrest : List.Forall₂ SpelledAs rest texts) :
    SpelledAs (commaPieces (first :: rest)) (commaList (text :: texts)) := by
  have hcomma : (Piece.gap ", ").Sound := by simp [Piece.Sound, isOperatorChar]
  induction hrest generalizing first text with
  | nil => simpa [commaPieces, commaList] using hfirst
  | cons hsecond _ ih =>
    rw [commaPieces, commaList, String.intercalate_cons_cons, String.append_assoc]
    exact hfirst.append ((ih hsecond).afterGap hcomma)

theorem applyPieces_spelled {head : List Piece} {text : String} (hhead : SpelledAs head text)
    (hitems : List.Forall₂ SpelledAs items texts) :
    SpelledAs (applyPieces head items) (text ++ argList texts) := by
  have hopening : (Piece.gap "(").Sound := by simp [Piece.Sound, isOperatorChar]
  have hclosing : (Piece.gap ")").Sound := by simp [Piece.Sound, isOperatorChar]
  have hlist : SpelledAs (.gap "(" :: (commaPieces items ++ [.gap ")"])) (argList texts) := by
    rw [argList, String.append_assoc]
    cases hitems with
    | nil => exact (SpelledAs.gap hclosing).afterGap hopening
    | cons hfirst hrest =>
      exact ((commaPieces_spelled hfirst hrest).append (.gap hclosing)).afterGap hopening
  exact hhead.append hlist

end Lists

/-! ## The pieces of an expression make up its text -/

section Written

variable {cx : Context} {locals : Locals}

/-- The text of an expression is that of its pieces. If the expression denotes a storage location, it
does not begin with an operator. -/
structure InPieces (cx : Context) (locals : Locals) (value : Expr) (text : String) : Prop where
  spelled : SpelledAs (value.pieces cx locals) text
  opens : value.isAddressable = true →
    ∀ first ∈ (value.pieces cx locals).head?, first.isOperator = false

theorem getD_of_ok {computed : Lowered String} {text : String} (h : computed = .ok text) :
    computed.toOption.getD "" = text := by
  rw [h]
  rfl

theorem memberPieces_spelled {object : Expr} {mark member : String} {span : Span} {text : String}
    (hmark : mark = "" ∨ mark = "~")
    (hobject : ∀ text, exprText cx locals object = .ok text → InPieces cx locals object text)
    (h : memberText cx locals object (cx.model.typeOf locals object) (mark ++ member) span
      (exprText cx locals object) = .ok text) :
    SpelledAs (memberPieces cx locals object mark member span (object.pieces cx locals)) text ∧
      (object.isThis = true ∨ object.isAddressable = true → ∀ first ∈
        (memberPieces cx locals object mark member span (object.pieces cx locals)).head?,
        first.isOperator = false) := by
  unfold memberText at h
  unfold memberPieces
  split at h
  · rename_i hthis
    obtain ⟨_, -, h⟩ := Lowered.bind_eq_ok.mp h
    obtain rfl := Lowered.pure_eq_ok.mp h
    rw [if_pos hthis]
    have hword : cx.piece ("this->" ++ (mark ++ member)) = "this" ++ ("->" ++ mark ++ cx.piece member) := by
      rw [← String.append_assoc, Context.piece, cx.layout.inline_append, ← String.append_assoc,
        ← String.append_assoc]
      · rfl
      · rcases hmark with rfl | rfl <;> simp
    rw [hword]
    refine ⟨(SpelledAs.word "this").member ?_ _, fun _ first hfirst => ?_⟩
    · rcases hmark with rfl | rfl <;> simp [Piece.Sound]
    · cases hfirst
      rfl
  · rename_i hthis
    obtain ⟨between, hbetween, h⟩ := Lowered.bind_eq_ok.mp h
    obtain ⟨own, hown, h⟩ := Lowered.bind_eq_ok.mp h
    obtain rfl := Lowered.pure_eq_ok.mp h
    rw [if_neg hthis]
    dsimp only
    have hword : cx.piece (between ++ (mark ++ member)) = between ++ mark ++ cx.piece member := by
      rw [← String.append_assoc, Context.piece, cx.layout.inline_append]
      · rfl
      · rcases separator_cases hbetween with rfl | rfl | rfl <;> rcases hmark with rfl | rfl <;> simp
    rw [getD_of_ok hbetween, hword]
    obtain ⟨hspelled, hopens⟩ := hobject own hown
    refine ⟨hspelled.member ?_ _, fun hplace => ?_⟩
    · rcases separator_cases hbetween with rfl | rfl | rfl <;> rcases hmark with rfl | rfl <;>
        simp [Piece.Sound]
    · rw [List.head?_append_of_ne_nil _ hspelled.ne_nil]
      exact hopens (hplace.resolve_left hthis)

theorem propertyPieces_spelled {object : Expr} {name : String} {span : Span} {text : String}
    (hobject : ∀ text, exprText cx locals object = .ok text → InPieces cx locals object text)
    (h : propertyText cx locals object name span (exprText cx locals object) = .ok text) :
    SpelledAs (propertyPieces cx locals object name span (object.pieces cx locals)) text ∧
      (object.isThis = true ∨ object.isAddressable = true → ∀ first ∈
        (propertyPieces cx locals object name span (object.pieces cx locals)).head?,
        first.isOperator = false) := by
  have hmember (h : memberText cx locals object (cx.model.typeOf locals object) name span
      (exprText cx locals object) = .ok text) := memberPieces_spelled (.inl rfl) hobject
    (by rwa [String.empty_append] : memberText cx locals object _ ("" ++ name) span _ = .ok text)
  unfold propertyText at h
  unfold propertyPieces
  split at h
  · rename_i hthis
    rw [if_pos hthis]
    refine hmember ?_
    rw [memberText, if_pos hthis]
    exact h
  · rename_i hthis
    rw [if_neg hthis]
    cases howner : cx.model.typeOf locals object with
    | moduleTy specifier =>
      rw [howner] at h
      dsimp only at h ⊢
      rw [getD_of_ok h]
      refine ⟨.word text, fun _ first hfirst => ?_⟩
      cases hfirst
      rfl
    | _ =>
      rw [howner] at h hmember
      exact hmember h

theorem piecesAll_spelled {args : List Expr} {texts : List String}
    (hargs : ∀ arg ∈ args, ∀ text, exprText cx locals arg = .ok text → InPieces cx locals arg text)
    (h : exprTexts cx locals args = .ok texts) :
    List.Forall₂ SpelledAs (Expr.piecesAll cx locals args) texts := by
  induction args generalizing texts with
  | nil =>
    cases h
    exact .nil
  | cons first rest ih =>
    obtain ⟨text, htext, h⟩ := Lowered.bind_eq_ok.mp h
    obtain ⟨more, hmore, h⟩ := Lowered.bind_eq_ok.mp h
    obtain rfl := Lowered.pure_eq_ok.mp h
    exact .cons (hargs first (.head _) text htext).spelled
      (ih (fun arg hm => hargs arg (.tail _ hm)) hmore)

theorem ofPlace_iff {args : List Expr} :
    CallForm.ofPlace args = true ↔ ∃ value, args = [value] ∧ value.isAddressable = true := by
  unfold CallForm.ofPlace
  split
  · rename_i value
    simp
  · rename_i hmany
    refine ⟨nofun, ?_⟩
    rintro ⟨value, rfl, -⟩
    exact absurd rfl (hmany value)

/-- A size is made up of one word with its type, or of its operand if no type is given. -/
theorem sizePieces_spelled {typeArgs : Option (List TypeNode)} {args : List Expr} {head : String}
    {headPieces : List Piece} {types texts : List String}
    (hitems : List.Forall₂ SpelledAs (Expr.piecesAll cx locals args) texts)
    (htypes : typeTexts cx.model cx.mangling (typeArgs.getD []) = .ok types) :
    SpelledAs (callPieces cx typeArgs args headPieces (Expr.piecesAll cx locals args) .size)
      (CallForm.size.text cx head types args texts) := by
  unfold callPieces
  dsimp only
  cases hnodes : typeArgs.getD [] with
  | nil =>
    rw [hnodes] at htypes
    cases htypes
    by_cases hplace : CallForm.ofPlace args = true
    · obtain ⟨operand, rfl, -⟩ := ofPlace_iff.mp hplace
      have hgap : (Piece.gap "sizeof ").Sound := by simp [Piece.Sound, isOperatorChar]
      rw [if_pos hplace, CallForm.text, if_pos hplace]
      cases hitems with
      | cons hfirst hrest => exact (commaPieces_spelled hfirst hrest).afterGap hgap
    · rw [if_neg hplace, CallForm.text, if_neg hplace]
      exact applyPieces_spelled (.word "sizeof") hitems
  | cons node more =>
    rw [hnodes, typeTexts] at htypes
    obtain ⟨type, htype, hmore⟩ := Lowered.bind_eq_ok.mp htypes
    obtain ⟨rest, -, hrest⟩ := Lowered.bind_eq_ok.mp hmore
    obtain rfl := Lowered.pure_eq_ok.mp hrest
    dsimp only
    rw [show (typeText cx.model cx.mangling node).toOption.getD "" = type from getD_of_ok htype]
    exact .word _

/-- A call is made up of the pieces of its form. -/
theorem callPieces_spelled {span : Span} {callee : Expr} {typeArgs : Option (List TypeNode)}
    {args : List Expr} {head text : String} {headPieces : List Piece}
    (hhead : SpelledAs headPieces head)
    (hargs : ∀ arg ∈ args, ∀ text, exprText cx locals arg = .ok text → InPieces cx locals arg text)
    (h : CallWritten cx locals span callee head typeArgs args text) :
    SpelledAs (callPieces cx typeArgs args headPieces (Expr.piecesAll cx locals args)
      (callee.callForm cx locals)) text := by
  obtain ⟨types, texts, htext, htexts, htypes⟩ := h.inFull
  have hitems (hne : callee.callForm cx locals ≠ .destructor) :=
    piecesAll_spelled hargs (htexts hne)
  cases hform : callee.callForm cx locals with
  | address =>
    obtain ⟨operand, rfl, hplace⟩ := ofPlace_iff.mp (h.place hform)
    have hsingle := hitems (by simp [hform])
    rw [hform] at htext
    rw [htext]
    obtain ⟨own, hown, -⟩ := Lowered.bind_eq_ok.mp (htexts (by simp [hform]))
    cases hsingle with
    | cons hfirst hrest =>
      exact (commaPieces_spelled hfirst hrest).front rfl fun _ =>
        (hargs operand (.head _) own hown).opens hplace
  | size =>
    have htypes' := (htypes (by rw [hform]; rfl)).1
    rw [hform] at htext
    rw [htext]
    exact sizePieces_spelled (hitems (by simp [hform])) htypes'
  | function =>
    rw [hform] at htext
    rw [htext]
    exact applyPieces_spelled hhead (hitems (by simp [hform]))
  | applied =>
    rw [hform] at htext
    rw [htext]
    exact applyPieces_spelled hhead (hitems (by simp [hform]))
  | destructor =>
    rw [hform] at htext
    rw [htext]
    exact hhead.append (.gap (by simp [Piece.Sound, isOperatorChar]))

theorem destructorOf_eq {object : Expr} {name : String}
    (h : cx.isDestructor locals object name = true) :
    cx.destructorOf locals object = "~" ++ cx.unmarkedDestructor locals object := by
  unfold Context.isDestructor at h
  split at h
  · rename_i owner howner
    split at h
    · rename_i item info hclass
      simp only [Context.destructorOf, Context.unmarkedDestructor, howner, hclass]
      rfl
    · cases h
  · cases h

theorem inPieces_of_value {value : Expr} {text : String}
    (h : SpelledAs (value.pieces cx locals) text) (hplace : value.isAddressable = false) :
    InPieces cx locals value text :=
  ⟨h, fun hyes => by rw [hplace] at hyes; cases hyes⟩

/-- A callee is made up of its pieces. The callee of a member is written by its object, or by the name
of the class if it is a destructor. -/
theorem calleePieces_spelled {object : Expr} {name : String} {span place : Span} {head : String}
    (hobject : ∀ text, exprText cx locals object = .ok text → InPieces cx locals object text)
    (h : calleeText cx locals span (.property place object name) = .ok head) :
    SpelledAs (if cx.isDestructor locals object name
      then memberPieces cx locals object "~" (cx.unmarkedDestructor locals object) span
        (object.pieces cx locals)
      else propertyPieces cx locals object name span (object.pieces cx locals)) head := by
  rw [calleeText] at h
  split at h
  · rename_i hdestructor
    rw [destructorOf_eq hdestructor] at h
    rw [if_pos hdestructor]
    exact (memberPieces_spelled (.inr rfl) hobject h).1
  · rename_i hdestructor
    rw [if_neg hdestructor]
    exact (propertyPieces_spelled hobject h).1

/-- A construction is made up of the word that it begins with and its arguments. -/
theorem newPieces_spelled {target : Expr} {span : Span} {args : List Expr} {text : String}
    (hargs : ∀ arg ∈ args, ∀ text, exprText cx locals arg = .ok text → InPieces cx locals arg text)
    (h : newText cx target span (exprTexts cx locals args) = .ok text) :
    SpelledAs (applyPieces [.word (newWord cx target)] (Expr.piecesAll cx locals args)) text := by
  cases target with
  | ident place name =>
    unfold newText at h
    dsimp only at h
    split at h
    · cases h
    · rename_i item info hclass
      obtain ⟨texts, htexts, h⟩ := Lowered.bind_eq_ok.mp h
      obtain rfl := Lowered.pure_eq_ok.mp h
      rw [newWord, hclass]
      exact applyPieces_spelled (.word _) (piecesAll_spelled hargs htexts)
  | _ => cases h

/-- A receiver call is made up of the word that it begins with and its arguments. The raw pointer
taken from the receiver is a member access of its own. -/
theorem receiverCallPieces_spelled {owner method : String} {args : List Expr} {span : Span}
    {text : String}
    (hargs : ∀ arg ∈ args, ∀ text, exprText cx locals arg = .ok text → InPieces cx locals arg text)
    (h : receiverCallText cx locals owner method args span (exprTexts cx locals args) = .ok text) :
    SpelledAs (applyPieces [.word (receiverWord cx owner method)]
      (receiverPieces cx locals args (Expr.piecesAll cx locals args))) text := by
  unfold receiverCallText at h
  split at h
  · cases h
  · rename_i item info hclass
    split at h
    · cases h
    · rename_i receiver more
      obtain ⟨texts, htexts, h⟩ := Lowered.bind_eq_ok.mp h
      have hitems := piecesAll_spelled hargs htexts
      rw [receiverWord, hclass]
      cases hitems with
      | cons hfirst hrest =>
        obtain rfl := Lowered.pure_eq_ok.mp h
        refine applyPieces_spelled (.word _) ?_
        rw [Expr.piecesAll, receiverPieces]
        split
        · have hjoint : (Piece.joint ".").Sound := by simp [Piece.Sound]
          have hcall : (Piece.gap "()").Sound := by simp [Piece.Sound, isOperatorChar]
          have hraw := (hfirst.member hjoint "get").append (.gap hcall)
          rw [String.append_assoc] at hraw
          exact .cons hraw hrest
        · rw [String.append_empty]
          exact .cons hfirst hrest

/-- **The text of an expression is that of its pieces.** -/
theorem exprText_inPieces (value : Expr) :
    ∀ text, exprText cx locals value = .ok text → InPieces cx locals value text := by
  induction value using Expr.indCallee with
  -- A call of a member writes the object itself, so the callee's own text is of no use there.
  | ident span name =>
    intro text h
    rw [exprText] at h
    have hpieces : (Expr.ident span name).pieces cx locals = [.word text] := by
      rw [Expr.pieces, getD_of_ok h]
    exact ⟨hpieces ▸ .word text, fun _ first hfirst => by rw [hpieces] at hfirst; cases hfirst; rfl⟩
  | thisRef span =>
    intro text h
    obtain ⟨_, -, h⟩ := Lowered.bind_eq_ok.mp h
    obtain rfl := Lowered.pure_eq_ok.mp h
    exact inPieces_of_value (.word "this") rfl
  | literal span value =>
    refine fun text h => inPieces_of_value ?_ rfl
    cases h
    cases value with
    | string value =>
      have hliteral : cx.piece (Literal.string value).text = stringLiteral value :=
        cx.layout.inline_flat (flat_stringLiteral value)
      rw [hliteral]
      exact .quoted value
    | number | bool | null => exact .word _
  | property span object name ih =>
    intro text h
    rw [exprText] at h
    obtain ⟨hspelled, hopens⟩ := propertyPieces_spelled ih h
    exact ⟨hspelled, fun hplace => hopens (Bool.or_eq_true_iff.mp hplace)⟩
  | call span callee typeArgs args ihcallee ihobject ihargs =>
    refine fun text h => inPieces_of_value ?_ rfl
    obtain ⟨head, hhead, hwritten⟩ := call_written h
    cases callee with
    | ident place name =>
      cases hhead
      exact callPieces_spelled (.word _) ihargs hwritten
    | property place object name =>
      have hhead' := calleePieces_spelled (ihobject place object name rfl) hhead
      exact callPieces_spelled hhead' ihargs hwritten
    | _ => exact callPieces_spelled (ihcallee head hhead).spelled ihargs hwritten
  | new span target args ih =>
    refine fun text h => inPieces_of_value ?_ rfl
    rw [exprText] at h
    exact newPieces_spelled ih h
  | binary span op left right ihleft ihright =>
    refine fun text h => inPieces_of_value ?_ rfl
    obtain ⟨leftText, hleft, h⟩ := Lowered.bind_eq_ok.mp h
    obtain ⟨rightText, hright, h⟩ := Lowered.bind_eq_ok.mp h
    obtain rfl := Lowered.pure_eq_ok.mp h
    have hspelled := (ihleft _ hleft).spelled.append ((ihright _ hright).spelled.binary op)
    simpa only [Expr.pieces, String.append_assoc] using hspelled
  | unary span op operand ih =>
    refine fun text h => inPieces_of_value ?_ rfl
    obtain ⟨own, hown, h⟩ := Lowered.bind_eq_ok.mp h
    obtain rfl := Lowered.pure_eq_ok.mp h
    obtain ⟨c, hc⟩ : ∃ c, (Piece.unary op).front? = some c := by cases op <;> exact ⟨_, rfl⟩
    exact (ih own hown).spelled.front hc fun haddress => (by cases haddress)
  | paren span inner ih =>
    refine fun text h => ⟨?_, fun _ first hfirst => ?_⟩
    · obtain ⟨own, hown, h⟩ := Lowered.bind_eq_ok.mp h
      obtain rfl := Lowered.pure_eq_ok.mp h
      have hopening : (Piece.gap "(").Sound := by simp [Piece.Sound, isOperatorChar]
      have hclosing : (Piece.gap ")").Sound := by simp [Piece.Sound, isOperatorChar]
      rw [String.append_assoc]
      exact ((ih own hown).spelled.append (.gap hclosing)).afterGap hopening
    · cases hfirst
      rfl
  | comma span items ih =>
    refine fun text h => inPieces_of_value ?_ rfl
    rw [exprText] at h
    obtain ⟨texts, htexts, h⟩ := Lowered.bind_eq_ok.mp h
    obtain rfl := Lowered.pure_eq_ok.mp h
    have hitems := piecesAll_spelled ih htexts
    cases items with
    | nil =>
      cases htexts
      exact .word ""
    | cons first rest =>
      cases hitems with
      | cons hfirst hrest => exact commaPieces_spelled hfirst hrest
  | receiverCall span owner method args ih =>
    refine fun text h => inPieces_of_value ?_ rfl
    rw [exprText] at h
    exact receiverCallPieces_spelled ih h

end Written

/-! ## Operators next to each other -/

/-- The tokens that are read of an expression. -/
def Expr.tokens (cx : Context) (locals : Locals) (value : Expr) : List (List Mark) :=
  scan 0 false (marksFrom 0 (value.pieces cx locals))

/-- **Operators of an expression are read as one only where a sign stands in front of the same
sign**, given that words, which are names, numbers and types, do not begin with the character of an
operator. There they are read as one, given that there are no quotes in words either. -/
theorem fuses_only_if_doubled {cx : Context} {locals : Locals} {value : Expr} {text : String}
    (h : exprText cx locals value = .ok text)
    (hstarts : ∀ piece ∈ value.pieces cx locals, piece.StartsPlain) :
    Mark.chars (marksFrom 0 (value.pieces cx locals)) = text.toList ∧
      (Fuses (value.tokens cx locals) → Doubled (value.pieces cx locals)) ∧
      ((∀ piece ∈ value.pieces cx locals, piece.Unquoted) → Doubled (value.pieces cx locals) →
        Fuses (value.tokens cx locals)) := by
  obtain ⟨hspelled, -⟩ := exprText_inPieces value text h
  obtain ⟨hdoubled, hfuses⟩ := fuses_marksFrom hspelled.set hstarts 0
  refine ⟨?_, hdoubled 0 false fun _ => rfl, hfuses⟩
  rw [chars_marksFrom, hspelled.text]

/-- The model in which no name stands for anything. -/
def noNames : TypedModel := Names.model {}

/-- A number is in scope. -/
def numberLocals : Locals := (Locals.start none).declare "x" (.primitive .number)

open Build in
/-- A blank keeps a difference and a sign apart. -/
theorem fuses_only_if_doubled_difference :
    let value := binary .sub (ident "x") (unary .neg (ident "x"))
    exprText ⟨noNames, {}⟩ numberLocals value = .ok "x - -x" ∧
      ¬ Fuses (value.tokens ⟨noNames, {}⟩ numberLocals) := by
  intro value
  have htext : exprText ⟨noNames, {}⟩ numberLocals value = .ok "x - -x" := by cbv
  have hpieces : value.pieces ⟨noNames, {}⟩ numberLocals
      = [.word "x", .gap " ", .joint "-", .gap " ", .unary .neg, .word "x"] := by cbv
  refine ⟨htext, fun hfuses => ?_⟩
  have hstarts : ∀ piece ∈ value.pieces ⟨noNames, {}⟩ numberLocals, piece.StartsPlain := by
    simp [hpieces, Piece.StartsPlain, isOperatorChar]
  have hdoubled := (fuses_only_if_doubled htext hstarts).2.1 hfuses
  simp [hpieces, Doubled, List.infix_cons_iff] at hdoubled

open Build in
/-- Nothing keeps two signs apart that stand in front of the same operand: they are read as one. -/
theorem nestedSigns_fuse :
    let value := unary .neg (unary .neg (ident "x"))
    exprText ⟨noNames, {}⟩ numberLocals value = .ok "--x" ∧
      value.tokens ⟨noNames, {}⟩ numberLocals = [[('-', some 0), ('-', some 1)]] ∧
      Fuses (value.tokens ⟨noNames, {}⟩ numberLocals) := by
  intro value
  have htokens : value.tokens ⟨noNames, {}⟩ numberLocals = [[('-', some 0), ('-', some 1)]] := by
    cbv
  refine ⟨by cbv, htokens, ?_⟩
  rw [htokens]
  exact ⟨_, .head _, _, .head _, _, .tail _ (.head _), 0, 1, rfl, rfl, by decide⟩

end NativeLowering
