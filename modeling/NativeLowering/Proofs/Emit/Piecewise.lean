import NativeLowering.Emit.Decl
import NativeLowering.Proofs.Emit.ExprText
import NativeLowering.Proofs.Emit.Steps
import NativeLowering.Proofs.Layout.Endings
import NativeLowering.Proofs.Success

/-!
# Writing an expression appends its text

In an open function, writing an expression does nothing to a session but append to its current
buffer. If the expression has a text, this text is what it appends. If not, it fails with the error
of the text, and has appended what stands before the part that failed (`Emit.appends_expr`).

The text is laid out as the buffer is that it goes to, which need not be what the context asks for.
So nothing has to be known here of the session but the function that is open.

A type annotation and a default value are written in scopes of their own. They leave the session as
it was, and their spelling is the text that they come to.
-/

set_option autoImplicit false

namespace NativeLowering

/-! ## The layout of a buffer -/

namespace Buffer

@[simp] theorem write_write (buffer : Buffer) (first second : String) :
    (buffer.write first).write second = buffer.write (first ++ second) := by
  simp [write, String.append_assoc]

@[simp] theorem write_empty (buffer : Buffer) : buffer.write "" = buffer := by
  simp [write]

@[simp] theorem write_depth (buffer : Buffer) (text : String) :
    (buffer.write text).depth = buffer.depth := rfl

@[simp] theorem write_layout (buffer : Buffer) (text : String) :
    (buffer.write text).layout = buffer.layout := rfl

end Buffer

namespace Context

/-- The context with another layout. -/
def laidOut (cx : Context) (layout : Layout) : Context :=
  { cx with
    options := { cx.options with
      indentWidth := layout.indentWidth, lineEnding := layout.lineEnding } }

@[simp] theorem laidOut_model (cx : Context) (layout : Layout) :
    (cx.laidOut layout).model = cx.model := rfl

@[simp] theorem laidOut_mangling (cx : Context) (layout : Layout) :
    (cx.laidOut layout).mangling = cx.mangling := rfl

theorem laidOut_self (cx : Context) : cx.laidOut cx.layout = cx := rfl

end Context

namespace Emit

variable {α : Type} {cx : Context} {layout : Layout} {current : OpenFunction}

/-! ## Steps that append a text -/

/-- With the function open, the step appends the text to a buffer of the layout. If there is no
text, it appends something and fails with the error. -/
def Appends (layout : Layout) (current : OpenFunction) (step : Emit Unit)
    (text : Lowered String) : Prop :=
  ∀ session : Session, session.current.layout = layout → session.openFunction = some current →
    ∃ added, step.run session = (text.map fun _ => (),
      { session with current := session.current.write added }) ∧
        ∀ whole, text = .ok whole → added = whole

theorem Appends.congr {step : Emit Unit} {text text' : Lowered String}
    (h : Appends layout current step text) (heq : text = text') :
    Appends layout current step text' := heq ▸ h

theorem appends_pure : Appends layout current (pure ()) (.ok "") := by
  intro session _ _
  refine ⟨"", ?_, fun _ hwhole => Except.ok.inj hwhole⟩
  rw [Buffer.write_empty]
  rfl

theorem appends_append (text : String) :
    Appends layout current (append text .inline) (.ok (layout.inline text)) := by
  rintro session rfl _
  exact ⟨_, rfl, fun _ hwhole => Except.ok.inj hwhole⟩

/-- Brackets and operators stand on one line, so they are what they are in any layout. -/
theorem appends_sign {text : String} (h : Text.Flat text) :
    Appends layout current (append text .inline) (.ok text) :=
  (appends_append text).congr (congrArg Except.ok (layout.inline_flat h))

theorem appends_open : Appends layout current (append "(" .inline) (.ok "(") :=
  appends_sign (by decide)

theorem appends_close : Appends layout current (append ")" .inline) (.ok ")") :=
  appends_sign (by decide)

theorem appends_throw (e : LoweringError) : Appends layout current (throw e) (.error e) := by
  intro session _ _
  refine ⟨"", ?_, nofun⟩
  rw [Buffer.write_empty]
  rfl

theorem Appends.seq {first second : Emit Unit} {text text' : Lowered String}
    (h : Appends layout current first text) (h' : Appends layout current second text') :
    Appends layout current (do first; second) (do
      let one ← text
      let two ← text'
      return one ++ two) := by
  intro session hlayout hopen
  obtain ⟨added, hrun, hadded⟩ := h session hlayout hopen
  cases text with
  | error e =>
    refine ⟨added, ?_, nofun⟩
    rw [run_bind, hrun]
    rfl
  | ok one =>
    obtain rfl := hadded one rfl
    obtain ⟨more, hrun', hmore⟩ :=
      h' { session with current := session.current.write added } hlayout hopen
    refine ⟨added ++ more, ?_, ?_⟩
    · simp only [run_bind, hrun, Except.map, hrun', Buffer.write_write]
      cases text' <;> rfl
    · intro whole hwhole
      cases text' with
      | error e => cases hwhole
      | ok two => rw [← Except.ok.inj hwhole, hmore two rfl]

/-- A step that only looks at the open function comes before. -/
theorem Appends.after {step : Emit α} {value : α} {next : α → Emit Unit} {text : Lowered String}
    (h : Appends layout current (next value) text)
    (hrun : ∀ session : Session, session.openFunction = some current →
      step.run session = (.ok value, session)) :
    Appends layout current (step >>= next) text := by
  intro session hlayout hopen
  obtain ⟨added, hnext, hadded⟩ := h session hlayout hopen
  refine ⟨added, ?_, hadded⟩
  rw [run_bind, hrun session hopen]
  exact hnext

/-- What it comes to may be an error. -/
theorem Appends.compute {step : Emit α} {computed : Lowered α} {next : α → Emit Unit}
    {text : α → Lowered String}
    (hrun : ∀ session : Session, session.openFunction = some current →
      step.run session = (computed, session))
    (h : ∀ value, computed = .ok value → Appends layout current (next value) (text value)) :
    Appends layout current (step >>= next) (computed >>= text) := by
  intro session hlayout hopen
  cases computed with
  | error e =>
    refine ⟨"", ?_, nofun⟩
    rw [run_bind, hrun session hopen, Buffer.write_empty]
    rfl
  | ok value => exact (h value rfl).after hrun session hlayout hopen

theorem Appends.lift {computed : Lowered α} {next : α → Emit Unit} {text : α → Lowered String}
    (h : ∀ value, computed = .ok value → Appends layout current (next value) (text value)) :
    Appends layout current (liftM computed >>= next) (computed >>= text) :=
  .compute (fun _ _ => rfl) h

/-! ### Looking at the open function -/

theorem currentLocals_run (session : Session) :
    currentLocals.run session
      = (.ok (session.openFunction.elim (.start none) OpenFunction.locals), session) := by
  have hget : (get : Emit Session).run session = (.ok session, session) := rfl
  simp only [currentLocals, run_bind, hget]
  cases session.openFunction <;> rfl

section Looking

variable {session : Session} (hopen : session.openFunction = some current)
include hopen

theorem run_theLocals (span : Span) :
    (theLocals span).run session = (.ok current.locals, session) :=
  gives_theLocals.mpr ⟨current, hopen, rfl, rfl⟩

theorem run_currentLocals : currentLocals.run session = (.ok current.locals, session) := by
  rw [currentLocals_run, hopen]
  rfl

theorem run_requireInstance (span : Span) :
    (requireInstance span).run session = (requireThis current.locals span, session) := by
  rw [requireInstance, run_bind, run_theLocals hopen]
  rfl

/-- Inside a function the guard of a call lets it pass. -/
theorem run_requireFunction (span : Span) :
    (requireFunction span).run session = (.ok (), session) := by
  have hget : (get : Emit Session).run session = (.ok session, session) := rfl
  simp only [requireFunction, inFunction, run_bind, hget, hopen]
  rfl

end Looking

theorem Appends.locals {next : Locals → Emit Unit} {text : Lowered String}
    (h : Appends layout current (next current.locals) text) :
    Appends layout current (currentLocals >>= next) text :=
  h.after fun _ hopen => run_currentLocals hopen

theorem Appends.inside {step : Emit Unit} {text : Lowered String} (span : Span)
    (h : Appends layout current step text) :
    Appends layout current (do requireFunction span; step) text :=
  h.after fun _ hopen => run_requireFunction hopen span

/-! ## Names and members -/

theorem appends_ident (name : String) (span : Span) :
    Appends layout current (ident cx name span)
      (identText (cx.laidOut layout) current.locals name span) := by
  have hname : Appends layout current
      (liftM (valueName cx current.locals name span) >>= fun text => append text .inline)
      (valueName cx current.locals name span >>= fun text => .ok (layout.inline text)) :=
    .lift fun text _ => appends_append text
  exact (hname.congr (Lowered.map_eq_bind _ _).symm).locals

theorem appends_parenthesized {step : Emit Unit} {text : Lowered String}
    (h : Appends layout current step text) :
    Appends layout current (parenthesized step) (text.map fun text => "(" ++ text ++ ")") := by
  refine (appends_open.seq (h.seq appends_close)).congr ?_
  cases text with
  | error e => rfl
  | ok text => exact congrArg Except.ok String.append_assoc.symm

theorem appends_instanceMember (member : String) (span : Span) :
    Appends layout current (instanceMember member span)
      (instanceMemberText (cx.laidOut layout) current.locals member span) :=
  .compute (fun _ hopen => run_requireInstance hopen span) fun _ _ => appends_append _

section Members

variable {object : Expr} {writeObject : Emit Unit} {text : Lowered String}
  (h : Appends layout current writeObject text)
include h

theorem appends_member (owner : Ty) (name : String) (span : Span) :
    Appends layout current (member cx object owner name span writeObject)
      (memberText (cx.laidOut layout) current.locals object owner name span text) := by
  unfold member memberText
  split
  · exact appends_instanceMember name span
  · exact .lift fun between _ => h.seq (appends_append (between ++ name))

theorem appends_property (name : String) (span : Span) :
    Appends layout current (property cx object name span writeObject)
      (propertyText (cx.laidOut layout) current.locals object name span text) := by
  unfold property propertyText
  split
  · exact appends_instanceMember name span
  · refine Appends.locals ?_
    rw [Context.laidOut_model]
    cases cx.model.typeOf current.locals object with
    | moduleTy specifier =>
      exact (Appends.lift fun text _ => appends_append text).congr (Lowered.map_eq_bind _ _).symm
    | _ => exact appends_member h _ name span

end Members

/-! ## Calls -/

/-- The texts of the further items of a list, each with the comma before it. -/
def furtherTexts : List String → String
  | [] => ""
  | item :: rest => ", " ++ commaList (item :: rest)

theorem commaList_cons (first : String) (rest : List String) :
    commaList (first :: rest) = first ++ furtherTexts rest := by
  cases rest with
  | nil => simp [commaList, furtherTexts]
  | cons second rest =>
    rw [commaList, String.intercalate_cons_cons, furtherTexts, commaList, String.append_assoc]

theorem furtherTexts_cons (item : String) (rest : List String) :
    furtherTexts (item :: rest) = ", " ++ (item ++ furtherTexts rest) := by
  rw [furtherTexts, commaList_cons]

section Calls

variable {args : List Expr} {writeArgs : Emit Unit} {texts : Lowered (List String)}
  (h : Appends layout current writeArgs (texts.map commaList))
include h

theorem appends_argList :
    Appends layout current (parenthesized writeArgs) (texts.map argList) := by
  refine (appends_parenthesized h).congr ?_
  cases texts <;> rfl

/-- The arguments follow a callee that is named by itself. -/
theorem Appends.callee (name : String) :
    Appends layout current (do append name .inline; parenthesized writeArgs)
      (texts.map fun texts => layout.inline name ++ argList texts) := by
  refine ((appends_append name).seq (appends_argList h)).congr ?_
  cases texts <;> rfl

theorem appends_addressOf (span : Span) :
    Appends layout current (addressOf span args writeArgs) (addressText span args texts) := by
  match args with
  | [operand] =>
    simp only [addressOf, addressText]
    split
    · refine ((appends_sign (by decide)).seq h).congr ?_
      cases texts <;> rfl
    · exact appends_throw _
  | [] | _ :: _ :: _ => exact appends_throw _

theorem appends_sizeOf (span : Span) (typeArgs : List TypeNode) :
    Appends layout current (sizeOf cx span typeArgs args writeArgs)
      (sizeText (cx.laidOut layout) span typeArgs args texts) := by
  match typeArgs, args with
  | [node], [] =>
    refine (Appends.lift fun text _ => appends_append ("sizeof(" ++ text ++ ")")).congr ?_
    rw [sizeText, Context.laidOut_model, Context.laidOut_mangling]
    cases typeText cx.model cx.mangling node <;> rfl
  | [], [value] =>
    simp only [sizeOf, sizeText]
    split
    · refine ((appends_sign (by decide)).seq h).congr ?_
      cases texts <;> rfl
    · refine ((appends_sign (by decide)).seq (h.seq appends_close)).congr ?_
      cases texts with
      | error e => rfl
      | ok texts =>
        have htext : "sizeof(" ++ (commaList texts ++ ")") = "sizeof" ++ argList texts := by
          rw [show "sizeof(" = "sizeof" ++ "(" from rfl, argList]
          simp only [String.append_assoc]
        exact congrArg Except.ok htext
  | [], [] | [], _ :: _ :: _ | [_], _ :: _ | _ :: _ :: _, _ => exact appends_throw _

theorem appends_conversion (span : Span) (builtin : Vocabulary.Builtin) :
    Appends layout current (conversion span builtin args writeArgs)
      (conversionText span builtin args texts) := by
  match args with
  | [_] =>
    have hflat : Text.Flat (builtin.spelling ++ "(") := by cases builtin <;> decide
    refine ((appends_sign hflat).seq (h.seq appends_close)).congr ?_
    cases texts with
    | error e => rfl
    | ok texts => exact congrArg Except.ok (by simp only [argList, String.append_assoc])
  | [] | _ :: _ :: _ => exact appends_throw _

theorem appends_plainCall (name : String) (symbol : Symbol) (span : Span)
    (typeArgs : List TypeNode) :
    Appends layout current (plainCall cx name symbol span typeArgs writeArgs)
      (plainCallText (cx.laidOut layout) name symbol span typeArgs texts) := by
  cases typeArgs with
  | nil => exact Appends.callee h _
  | cons node rest => exact appends_throw _

theorem appends_functionCall (name : String) (span : Span) (typeArgs : Option (List TypeNode)) :
    Appends layout current (functionCall cx name span typeArgs args writeArgs)
      (functionCallText (cx.laidOut layout) name span typeArgs args texts) := by
  unfold functionCall functionCallText
  rw [Context.laidOut_model]
  cases cx.model.resolve? name with
  | none => exact appends_throw _
  | some symbol =>
    dsimp only
    cases symbol.function? with
    | none => exact appends_throw _
    | some info =>
      dsimp only
      cases info.builtin with
      | none => exact appends_plainCall h name symbol span _
      | some builtin =>
        cases builtin with
        | addressOf => exact appends_addressOf h span
        | sizeOf => exact appends_sizeOf h span _
        | allocate => exact appends_plainCall h name symbol span _
        | _ => exact appends_conversion h span _

theorem appends_methodCall {object : Expr} {writeObject : Emit Unit} {text : Lowered String}
    (hobject : Appends layout current writeObject text) (name : String) (span : Span) :
    Appends layout current (methodCall cx object name span writeObject writeArgs)
      (methodCallText (cx.laidOut layout) current.locals object name span text texts) := by
  -- In the layout of the buffer the step is the same, and the same cases are told apart.
  change Appends layout current
    (methodCall (cx.laidOut layout) object name span writeObject writeArgs) _
  have hordinary : Appends layout current
      (do property (cx.laidOut layout) object name span writeObject; parenthesized writeArgs)
      (do
        let callee ← propertyText (cx.laidOut layout) current.locals object name span text
        let texts ← texts
        return callee ++ argList texts) := by
    refine ((appends_property hobject name span).seq (appends_argList h)).congr ?_
    simp only [Lowered.map_then]
    rfl
  refine Appends.locals ?_
  unfold methodCallText
  cases (cx.laidOut layout).model.typeOf current.locals object with
  | classTy owner =>
    dsimp only
    cases (cx.laidOut layout).model.class? owner with
    | none => exact appends_throw _
    | some found =>
      dsimp only
      split
      · exact (appends_member hobject _ _ span).seq (appends_sign (by decide))
      · split
        · exact appends_throw _
        · exact hordinary
  | moduleTy specifier =>
    dsimp only
    split
    · exact hordinary
    · exact appends_throw _
  | interfaceTy owner => exact appends_throw _
  | _ => exact hordinary

theorem appends_construction (target : Expr) (span : Span) :
    Appends layout current (construction cx target span writeArgs)
      (newText (cx.laidOut layout) target span texts) := by
  cases target with
  | ident place name =>
    simp only [construction, newText, Context.laidOut_model, Context.laidOut_mangling]
    cases cx.model.class? name with
    | none => exact appends_throw _
    | some found =>
      refine (Appends.callee h _).congr ?_
      cases texts <;> rfl
  | _ => exact appends_throw _

end Calls

theorem appends_rawPointer (receiver : Expr) :
    Appends layout current (rawPointer cx receiver)
      (.ok (if isSharedHandle (cx.laidOut layout) current.locals receiver then ".get()" else "")) := by
  refine Appends.locals ?_
  have hsame : isSharedHandle (cx.laidOut layout) current.locals receiver
      = isSharedHandle cx current.locals receiver := rfl
  rw [hsame]
  split
  · exact appends_sign (by decide)
  · exact appends_pure

theorem appends_receiverCall {writeReceiver writeRest : Emit Unit} {text : Lowered String}
    {texts : Lowered (List String)} (hreceiver : Appends layout current writeReceiver text)
    (hrest : Appends layout current writeRest (texts.map furtherTexts)) (owner method : String)
    (receiver : Expr) (rest : List Expr) (span : Span) :
    Appends layout current
      (do
        receiverCallee cx owner method span
        append "(" .inline
        writeReceiver
        rawPointer cx receiver
        writeRest
        append ")" .inline)
      (receiverCallText (cx.laidOut layout) current.locals owner method (receiver :: rest) span
        (do
          let first ← text
          let others ← texts
          return first :: others)) := by
  unfold receiverCallee receiverCallText
  rw [Context.laidOut_model]
  have hraw : Appends layout current (rawPointer cx receiver) _ := appends_rawPointer receiver
  have hargs := appends_open.seq (hreceiver.seq (hraw.seq (hrest.seq appends_close)))
  cases cx.model.class? owner with
  | none => exact (appends_throw _).seq hargs
  | some found =>
    refine ((appends_append _).seq hargs).congr ?_
    cases text with
    | error e => rfl
    | ok first =>
      cases texts with
      | error e => rfl
      | ok others =>
        refine congrArg Except.ok ?_
        simp only [argList, commaList_cons, String.append_assoc]
        rfl

/-! ## Expressions -/

theorem expr_call {span : Span} {callee : Expr} {typeArgs : Option (List TypeNode)}
    {args : List Expr} (h : callee.isNamed = false) :
    expr cx (.call span callee typeArgs args) = (do
      requireFunction span
      expr cx callee
      parenthesized (exprs cx args)) := by
  rw [expr]
  · rintro _ _ rfl
    cases h
  · rintro _ _ _ rfl
    cases h

mutual

/-- **Writing an expression appends its text.** -/
theorem appends_expr : ∀ value : Expr,
    Appends layout current (expr cx value) (exprText (cx.laidOut layout) current.locals value)
  | .ident span name => by
    rw [expr, exprText]
    exact appends_ident name span
  | .thisRef span => by
    rw [expr, exprText]
    exact .compute (fun _ hopen => run_requireInstance hopen span) fun _ _ =>
      appends_sign (by decide)
  | .literal span value => by
    rw [expr, exprText]
    exact appends_append value.text
  | .property span object name => by
    rw [expr, exprText]
    exact appends_property (appends_expr object) name span
  | .call span callee typeArgs args => by
    have hargs := appends_exprs args
    cases hnamed : callee.isNamed with
    | false =>
      rw [exprText_call _ _ hnamed, expr_call hnamed]
      refine .inside span (((appends_expr callee).seq (appends_argList hargs)).congr ?_)
      simp only [Lowered.map_then]
    | true =>
      cases callee with
      | ident place name =>
        rw [expr, exprText]
        refine .inside span (.locals ?_)
        split
        · rename_i hbound
          refine ((appends_ident name place).seq (appends_argList hargs)).congr ?_
          rw [identText_eq, if_pos hbound]
          exact Lowered.map_then _ _ _
        · exact appends_functionCall hargs name span typeArgs
      | property place object name =>
        rw [expr, exprText]
        exact .inside span (appends_methodCall hargs (appends_expr object) name span)
      | _ => cases hnamed
  | .new span target args => by
    rw [expr, exprText]
    exact appends_construction (appends_exprs args) target span
  | .binary span op left right => by
    rw [expr, exprText]
    have hflat : Text.Flat (" " ++ op.spelling ++ " ") := by cases op <;> decide
    refine ((appends_expr left).seq ((appends_sign hflat).seq (appends_expr right))).congr ?_
    refine bind_congr fun one => ?_
    cases exprText (cx.laidOut layout) current.locals right with
    | error e => rfl
    | ok two => exact congrArg Except.ok (by simp only [String.append_assoc])
  | .unary span op operand => by
    rw [expr, exprText]
    have hflat : Text.Flat op.spelling := by cases op <;> decide
    refine ((appends_sign hflat).seq (appends_expr operand)).congr ?_
    rfl
  | .paren span inner => by
    rw [expr, exprText]
    refine (appends_parenthesized (appends_expr inner)).congr ?_
    rfl
  | .comma span items => by
    rw [expr, exprText]
    refine (appends_exprs items).congr ?_
    rfl
  | .receiverCall span owner method [] => by
    rw [expr, exprText]
    unfold receiverCallee receiverCallText
    rw [Context.laidOut_model]
    cases cx.model.class? owner with
    | none => exact ((appends_throw _).seq (appends_throw _)).congr rfl
    | some found => exact ((appends_append _).seq (appends_throw _)).congr rfl
  | .receiverCall span owner method (receiver :: rest) => by
    rw [expr, exprText, exprTexts]
    exact appends_receiverCall (appends_expr receiver) (appends_furtherExprs rest) owner method
      receiver rest span

theorem appends_exprs : ∀ items : List Expr,
    Appends layout current (exprs cx items)
      ((exprTexts (cx.laidOut layout) current.locals items).map commaList)
  | [] => by
    rw [exprs, exprTexts]
    exact appends_pure
  | first :: rest => by
    rw [exprs, exprTexts]
    refine ((appends_expr first).seq (appends_furtherExprs rest)).congr ?_
    simp only [Lowered.map_eq_bind, bind_assoc, pure_bind, commaList_cons]

theorem appends_furtherExprs : ∀ items : List Expr,
    Appends layout current (furtherExprs cx items)
      ((exprTexts (cx.laidOut layout) current.locals items).map furtherTexts)
  | [] => by
    rw [furtherExprs, exprTexts]
    exact appends_pure
  | item :: rest => by
    rw [furtherExprs, exprTexts]
    refine ((appends_sign (by decide)).seq
      ((appends_expr item).seq (appends_furtherExprs rest))).congr ?_
    simp only [Lowered.map_eq_bind, bind_assoc, pure_bind, furtherTexts_cons]
    rfl

end

theorem gives_expr {value : Expr} {session after : Session}
    (hopen : session.openFunction = some current) :
    Gives (expr cx value) session () after ↔
      ∃ text, exprText (cx.laidOut session.current.layout) current.locals value = .ok text ∧
        after = { session with current := session.current.write text } := by
  obtain ⟨added, hrun, hadded⟩ := appends_expr value session rfl hopen
  rw [Gives, hrun]
  cases htext : exprText (cx.laidOut session.current.layout) current.locals value with
  | error e =>
    constructor
    · intro h
      cases h
    · rintro ⟨_, ⟨⟩, -⟩
  | ok text =>
    obtain rfl := hadded text htext
    constructor
    · intro h
      cases h
      exact ⟨added, rfl, rfl⟩
    · rintro ⟨_, ⟨⟩, rfl⟩
      rfl

theorem fails_expr {value : Expr} {session : Session} {e : LoweringError}
    (hopen : session.openFunction = some current) :
    Fails (expr cx value) session e ↔
      exprText (cx.laidOut session.current.layout) current.locals value = .error e := by
  obtain ⟨added, hrun, -⟩ := appends_expr value session rfl hopen
  rw [Fails, hrun]
  cases exprText (cx.laidOut session.current.layout) current.locals value with
  | error e' =>
    constructor
    · rintro ⟨_, h⟩
      cases h
      rfl
    · rintro ⟨⟩
      exact ⟨_, rfl⟩
  | ok text =>
    constructor
    · rintro ⟨_, ⟨⟩⟩
    · intro h
      cases h

/-! ## Scopes of their own -/

/-- The session inside a new scope. -/
def entered (session : Session) : Session :=
  { session with current := .new session.layout, outer := session.current :: session.outer }

/-- A step that appends a text to a new scope leaves nothing but the text. -/
theorem run_fragment {step : Emit Unit} {text : Lowered String} {session : Session}
    (h : ∃ added, step.run (entered session) = (text.map fun _ => (),
      { entered session with current := (Buffer.new session.layout).write added }) ∧
        ∀ whole, text = .ok whole → added = whole) :
    (fragment step).run session = (text, session) := by
  obtain ⟨added, hrun, hadded⟩ := h
  have hget : (get : Emit Session).run session = (.ok session, session) := rfl
  simp only [fragment, inNewScope, run_bind, hget, run_inScope hrun rfl]
  cases text with
  | error e => rfl
  | ok text =>
    obtain rfl := hadded text rfl
    exact congrArg (fun text => (Except.ok text, session)) String.empty_append

/-- The spelling of an annotation leaves the session as it was, also outside a function. -/
theorem run_typeString (node : TypeNode) (session : Session) :
    (typeString cx node).run session
      = ((cx.laidOut session.layout).typePiece node, session) := by
  refine run_fragment ?_
  have hrun (next : String → Emit Unit) : (liftM (typeText cx.model cx.mangling node) >>= next).run
      (entered session) = _ := run_bind _ _ _
  rw [hrun, Context.typePiece, Context.laidOut_model, Context.laidOut_mangling]
  cases typeText cx.model cx.mangling node with
  | error e => exact ⟨"", rfl, nofun⟩
  | ok text => exact ⟨_, rfl, fun _ hwhole => Except.ok.inj hwhole⟩

theorem gives_typeString {node : TypeNode} {session after : Session} {type : String} :
    Gives (typeString cx node) session type after ↔
      (cx.laidOut session.layout).typePiece node = .ok type ∧ after = session :=
  gives_computed (run_typeString node session)

/-- The default value of a parameter leaves the session as it was. -/
theorem run_defaultString {session : Session} (hopen : session.openFunction = some current)
    (default : Option Expr) :
    (defaultString cx default).run session
      = (defaultText (cx.laidOut session.layout) current.locals default, session) := by
  cases default with
  | none => rfl
  | some value =>
    have htext : (fragment (expr cx value)).run session = _ :=
      run_fragment (appends_expr value (entered session) rfl hopen)
    rw [defaultString, run_bind, htext, defaultText]
    have hlayout : (entered session).current.layout = session.layout := rfl
    rw [hlayout]
    cases exprText (cx.laidOut session.layout) current.locals value <;> rfl

end Emit
end NativeLowering
