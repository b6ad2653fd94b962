import NativeLowering.Proofs.Emit.Hoisting
import NativeLowering.Proofs.Emit.Strings
import NativeLowering.Proofs.Layout.Sections
import NativeLowering.Proofs.Scoping.Pairing

/-!
# Literals that reach the file

A statement is written into a buffer of its own, trimmed, joined with what goes before it and laid
out again inside the statements around it, to any depth. What is written of it carries the strings of
its expressions all the way (`Draft.content_retains`), and so do the record of the function and the file
(`generate_carries`).
-/

set_option autoImplicit false

namespace NativeLowering

/-! ## Drafts -/

namespace Draft

variable {cx : Context}

/-- What is written of a stretch of a body carries its strings, before the open statement or in the
text. -/
structure Retains (cx : Context) (reading : Reading (Occurrence Expr)) (locals : Locals)
    (draft : Draft) : Prop where
  thisClass : draft.locals.thisClass = locals.thisClass
  carries : ∃ first second,
    reading.strings cx locals.thisClass locals.visible = first ++ second ∧
    Carries first draft.before.toList ∧ Carries second draft.text.toList

namespace Retains

variable {reading reading' : Reading (Occurrence Expr)} {locals : Locals} {draft second : Draft}

theorem nothing (locals : Locals) (text : String) : Retains cx .nothing locals (ofText text locals) :=
  ⟨rfl, [], [], rfl, .nil, .gap _⟩

/-- An expression by itself, with what is written around it. -/
theorem value [cx.model.Typed] (hopen : locals.Open) {node : Expr} {spelled text : String}
    (h : exprText cx locals node = .ok spelled) (hin : spelled.toList <:+: text.toList) :
    Retains cx (.leaf fun visible => [⟨visible, node⟩]) locals (ofText text locals) := by
  refine ⟨rfl, [], node.strings cx locals, ?_, .nil, (exprText_carries h).within hin⟩
  have hsame : node.strings cx (.seeing locals.thisClass locals.visible) = node.strings cx locals :=
    strings_reframed (Locals.reframed_seeing hopen) node
  simp [Reading.strings, Reading.leaf, hsame]

/-- If nothing goes before the open statement, the text carries all strings. -/
theorem inline (h : Retains cx reading locals draft) (hbefore : draft.before = "") :
    Carries (reading.strings cx locals.thisClass locals.visible) draft.text.toList := by
  obtain ⟨first, second, hstrings, hfirst, hsecond⟩ := h.carries
  rw [hbefore] at hfirst
  rw [hstrings, hfirst.eq_nil]
  exact hsecond

theorem andThen (h : Retains cx reading locals draft)
    (hvisible : draft.locals.visible = reading.after locals.visible)
    (h' : Retains cx reading' draft.locals second) (hbefore : second.before = "") :
    Retains cx (reading.andThen reading') locals (draft.andThen second) := by
  obtain ⟨earlier, later, hstrings, hearlier, hlater⟩ := h.carries
  have hsecond := h'.inline hbefore
  rw [h.thisClass, hvisible] at hsecond
  refine ⟨h'.thisClass.trans h.thisClass, earlier,
    later ++ reading'.strings cx locals.thisClass (reading.after locals.visible), ?_, ?_, ?_⟩
  · rw [Reading.strings_andThen, hstrings, List.append_assoc]
  · rw [Draft.andThen, hbefore, String.append_empty]
    exact hearlier
  · rw [Draft.andThen, String.toList_append]
    exact hlater.append hsecond

/-- What is written before a statement comes first. -/
theorem prelude (h : Retains cx reading locals draft) (hbefore : draft.before = "")
    (hvisible : draft.locals.visible = reading.after locals.visible)
    (h' : Retains cx reading' draft.locals second) :
    Retains cx (reading.andThen reading') locals (draft.asPrelude.andThen second) := by
  have hfirst := h.inline hbefore
  obtain ⟨earlier, later, hstrings, hearlier, hlater⟩ := h'.carries
  rw [h.thisClass, hvisible] at hstrings
  refine ⟨h'.thisClass.trans h.thisClass,
    reading.strings cx locals.thisClass locals.visible ++ earlier, later, ?_, ?_, ?_⟩
  · rw [Reading.strings_andThen, hstrings, List.append_assoc]
  · rw [Draft.andThen, asPrelude, String.toList_append]
    exact hfirst.append hearlier
  · rw [Draft.andThen, asPrelude, String.empty_append]
    exact hlater

/-- **A statement is trimmed, joined and laid out again**, and carries its strings. -/
theorem statement (h : Retains cx reading locals draft) (depth : Nat) :
    Retains cx reading locals (draft.statement cx.layout depth) := by
  obtain ⟨earlier, later, hstrings, hearlier, hlater⟩ := h.carries
  have hparts : Carries [earlier, later, []].flatten
      ((Emit.joinParts cx.layout [draft.before, draft.text, ""]).getD "").toList :=
    .joinParts (.cons hearlier (.cons hlater (.cons (.gap _) .nil)))
  have hall : [earlier, later, []].flatten = earlier ++ later := by simp
  rw [hall] at hparts
  refine ⟨h.thisClass, [], earlier ++ later, hstrings, .nil, ?_⟩
  unfold Draft.statement
  dsimp only
  cases hjoined : Emit.joinParts cx.layout [draft.before, draft.text, ""] with
  | none =>
    rw [hjoined] at hparts
    exact hparts
  | some text =>
    rw [hjoined, Option.getD_some] at hparts
    exact hparts.format cx.layout depth .line

/-- Braces are put around the text of a block. -/
theorem inside {kind : FrameKind} (h : Retains cx reading (locals.push kind) draft) (depth : Nat) :
    Retains cx reading.inside locals (braced cx.layout depth locals draft) := by
  obtain ⟨earlier, later, hstrings, hearlier, hlater⟩ := h.carries
  refine ⟨rfl, earlier, later, hstrings, hearlier, ?_⟩
  rw [braced, String.toList_append, String.toList_append]
  exact (hlater.behind _).before _

end Retains

variable {locals : Locals} {draft : Draft}

/-! ### Statement by statement -/

theorem infix_middle (front text back : String) :
    text.toList <:+: (front ++ text ++ back).toList :=
  ⟨front.toList, back.toList, by simp⟩

/-- An initial value, where there is one, is in the text. -/
theorem initial_carries [cx.model.Typed] (hopen : locals.Open) {init : Option Expr}
    {value : Option String} (h : initial (exprText cx) locals init = .ok value) {text : String}
    (hin : ∀ own, value = some own → own.toList <:+: text.toList) :
    Carries ((Expr.valuesOption init).strings cx locals.thisClass locals.visible) text.toList := by
  cases init with
  | none => exact .gap _
  | some node =>
    obtain ⟨own, hown, hvalue⟩ := Lowered.map_eq_ok.mp h
    exact (Retains.value hopen hown (hin own hvalue)).inline rfl

theorem variableDecl_retains [cx.model.Typed] {depth : Nat} {kind : VariableKind}
    {decl : VariableDecl} (hopen : locals.Open)
    (h : variableDecl cx (exprText cx) depth kind locals decl = .ok draft) :
    Retains cx (decl.values cx.model) locals draft ∧ draft.before = "" := by
  obtain ⟨name, -, h⟩ := Lowered.bind_eq_ok.mp h
  obtain ⟨node, -, h⟩ := Lowered.bind_eq_ok.mp h
  obtain ⟨type, -, h⟩ := Lowered.bind_eq_ok.mp h
  obtain ⟨value, hvalue, h⟩ := Lowered.bind_eq_ok.mp h
  -- With an initial value, only the kind of the variable decides what is written in front of it.
  obtain ⟨hlocals, hbefore, hin⟩ :
      draft.locals = locals.declare name (cx.model.typeFromNode node) ∧ draft.before = "" ∧
        ∀ own, value = some own → own.toList <:+: draft.text.toList := by
    obtain rfl := Lowered.pure_eq_ok.mp h
    cases value with
    | none =>
      cases kind <;>
      · refine ⟨rfl, rfl, ?_⟩
        rintro _ ⟨⟩
    | some own =>
      have hown (introduction : String) : ∀ other, some own = some other →
          other.toList <:+: (initialized cx.layout depth introduction own).toList := by
        rintro other ⟨⟩
        exact infix_middle _ _ _
      cases kind <;> exact ⟨rfl, rfl, hown _⟩
  have hcarries := initial_carries hopen hvalue hin
  refine ⟨⟨?_, [], _, ?_, ?_, hcarries⟩, hbefore⟩
  · rw [hlocals, Locals.declare_thisClass]
  · simp only [Reading.strings, VariableDecl.values_found, List.nil_append]
  · rw [hbefore]
    exact .nil

theorem variableDecls_retain [cx.model.Typed] {depth : Nat} {kind : VariableKind}
    {decls : List VariableDecl} (hopen : locals.Open) (hlocals : locals.Moduleless)
    (h : variableDecls cx (exprText cx) depth kind locals decls = .ok draft) :
    Retains cx (VariableDecl.valuesAll cx.model decls) locals draft ∧ draft.before = "" := by
  induction decls generalizing locals draft with
  | nil =>
    cases h
    exact ⟨.nothing locals "", rfl⟩
  | cons decl rest ih =>
    obtain ⟨first, others, hfirst, hothers, rfl⟩ := variableDecls_cons_eq_ok.mp h
    have htells := variableDecl_tells hopen hlocals hfirst
    obtain ⟨hdecl, hbefore⟩ := variableDecl_retains hopen hfirst
    obtain ⟨hrest, hrestBefore⟩ := ih htells.stays htells.moduleless hothers
    refine ⟨hdecl.andThen htells.visible hrest hrestBefore, ?_⟩
    rw [Draft.andThen, hbefore, hrestBefore]
    rfl

theorem head_retains [cx.model.Typed] {depth : Nat} {word : String} {condition : Expr}
    (hopen : locals.Open) (h : head cx (exprText cx) depth locals word condition = .ok draft) :
    Retains cx (.leaf fun visible => [⟨visible, condition⟩]) locals draft := by
  obtain ⟨text, htext, rfl⟩ := head_eq_ok.mp h
  exact .value hopen htext (infix_middle _ _ _)

/-- What is written of a statement retains its strings. -/
def ContentRetains (cx : Context) (stmt : Stmt) : Prop :=
  ∀ (depth : Nat) (locals : Locals) (draft : Draft), locals.Open → locals.Moduleless →
    content cx (exprText cx) depth locals stmt = .ok draft →
    Retains cx (stmt.values cx.model) locals draft

theorem branch_retains {depth : Nat} {stmt : Stmt} {kind : FrameKind} (hstmt : ContentRetains cx stmt)
    (hopen : locals.Open) (hlocals : locals.Moduleless)
    (h : branch cx depth locals stmt (content cx (exprText cx) depth locals stmt)
      (content cx (exprText cx) 0 (locals.push kind) stmt) = .ok draft) :
    Retains cx (stmt.values cx.model).inside locals draft ∧ draft.before = "" := by
  rcases branch_cases h with ⟨_, _, inner, rfl, hblock, hinner, rfl⟩ | ⟨single, -, hsingle, rfl⟩
  · have hbefore : inner.before = "" := Emit.stmts_before hinner
    exact ⟨hstmt _ _ _ hopen hlocals hblock, hbefore⟩
  · have hinner := hstmt _ _ _ (.push locals kind) (hlocals.push kind) hsingle
    exact ⟨(hinner.statement (depth + 1)).inside depth, rfl⟩

theorem else_retains {depth : Nat} {elseBranch : Option Stmt}
    (hElse : ∀ branch, elseBranch = some branch → ContentRetains cx branch) (hopen : locals.Open)
    (hlocals : locals.Moduleless)
    (h : elseContent cx (exprText cx) depth locals elseBranch = .ok draft) :
    Retains cx (Stmt.valuesElse cx.model elseBranch) locals draft ∧ draft.before = "" := by
  cases elseBranch with
  | none =>
    rw [elseContent] at h
    cases h
    exact ⟨.nothing locals "", rfl⟩
  | some branch =>
    obtain ⟨second, hsecond, rfl⟩ := elseContent_some_eq_ok.mp h
    obtain ⟨hbranch, hbefore⟩ := branch_retains (hElse branch rfl) hopen hlocals hsecond
    refine ⟨(Retains.nothing locals _).andThen rfl hbranch hbefore, ?_⟩
    rw [Draft.andThen, hbefore]
    rfl

theorem stmts_retain_of_forall [cx.model.Typed] {depth : Nat} {body : List Stmt}
    (hall : ∀ stmt ∈ body, ContentRetains cx stmt) (hopen : locals.Open)
    (hlocals : locals.Moduleless) (h : stmts cx (exprText cx) depth locals body = .ok draft) :
    Retains cx (Stmt.valuesAll cx.model body) locals draft := by
  induction body generalizing locals draft with
  | nil =>
    cases h
    exact .nothing locals ""
  | cons stmt rest ih =>
    obtain ⟨first, others, hfirst, hothers, rfl⟩ := stmts_cons_eq_ok.mp h
    have htells := content_tells stmt _ _ _ hopen hlocals hfirst
    have hstmt := (hall stmt (by simp) _ _ _ hopen hlocals hfirst).statement depth
    have hrest := ih (fun other hm => hall other (by simp [hm])) htells.stays htells.moduleless
      hothers
    have hvisible : (first.statement cx.layout depth).locals.visible
        = (stmt.values cx.model).after locals.visible := by
      rw [statement_locals, htells.visible]
    rw [← statement_locals cx.layout depth first] at hrest
    exact hstmt.andThen hvisible hrest (Emit.stmts_before hothers)

/-- **What is written of a statement carries its strings**, to any depth. -/
theorem content_retains [cx.model.Typed] (stmt : Stmt) : ContentRetains cx stmt := by
  induction stmt using Stmt.ind with
  | vars span kind decls =>
    intro depth locals draft hopen hlocals h
    rw [content] at h
    exact (variableDecls_retain hopen hlocals h).1
  | expr span value =>
    intro depth locals draft hopen hlocals h
    obtain ⟨text, htext, rfl⟩ := content_expr_eq_ok.mp h
    refine .value hopen htext ?_
    rw [String.toList_append]
    exact (List.prefix_append _ _).isInfix
  | ret span value =>
    intro depth locals draft hopen hlocals h
    cases value with
    | none =>
      rw [content] at h
      cases h
      exact .nothing locals _
    | some value =>
      obtain ⟨text, htext, rfl⟩ := content_ret_eq_ok.mp h
      exact .value hopen htext (infix_middle _ _ _)
  | ifElse span condition thenBranch elseBranch hThen hElse =>
    intro depth locals draft hopen hlocals h
    obtain ⟨first, second, third, hfirst, hsecond, hthird, rfl⟩ := content_ifElse_eq_ok.mp h
    have hback := Emit.head_locals hfirst
    have hhead := head_retains hopen hfirst
    -- Nothing is written before the branches: each is in braces with all that goes before it.
    obtain ⟨htaken, hbefore⟩ := branch_retains hThen hopen hlocals hsecond
    obtain ⟨hother, hotherBefore⟩ := else_retains hElse hopen hlocals hthird
    have hback' := Emit.branch_locals hsecond
    rw [andThen_assoc]
    refine hhead.andThen (congrArg Locals.visible hback) (hback.symm ▸ ?_) ?_
    · exact htaken.andThen (congrArg Locals.visible hback') (hback'.symm ▸ hother) hotherBefore
    · rw [Draft.andThen, hbefore, hotherBefore]
      rfl
  | loop span condition body hBody =>
    intro depth locals draft hopen hlocals h
    obtain ⟨first, second, hfirst, hsecond, rfl⟩ := content_loop_eq_ok.mp h
    have hback := Emit.head_locals hfirst
    have hhead := head_retains hopen hfirst
    obtain ⟨hinner, hbefore⟩ := branch_retains hBody hopen hlocals hsecond
    exact hhead.andThen (congrArg Locals.visible hback) (hback.symm ▸ hinner) hbefore
  | brk | cont =>
    intro depth locals draft hopen hlocals h
    rw [content] at h
    cases h
    exact .nothing locals _
  | block span body hBody =>
    intro depth locals draft hopen hlocals h
    obtain ⟨inner, hinner, rfl⟩ := content_block_eq_ok.mp h
    exact (stmts_retain_of_forall hBody (.push locals .block) (hlocals.push .block) hinner).inside
      depth
  | staged span before body hBefore hBody =>
    intro depth locals draft hopen hlocals h
    obtain ⟨first, second, hfirst, hsecond, rfl⟩ := content_staged_eq_ok.mp h
    -- The stages are read first, and what they declare is visible in the statement.
    have htells := stmts_tells hopen hlocals hfirst
    have hbefore := stmts_retain_of_forall hBefore hopen hlocals hfirst
    exact hbefore.prelude (Emit.stmts_before hfirst) htells.visible
      (hBody _ _ _ htells.stays htells.moduleless hsecond)

theorem stmts_retain [cx.model.Typed] {depth : Nat} {body : List Stmt} (hopen : locals.Open)
    (hlocals : locals.Moduleless) (h : stmts cx (exprText cx) depth locals body = .ok draft) :
    Carries ((Stmt.valuesAll cx.model body).strings cx locals.thisClass locals.visible)
      draft.text.toList :=
  (stmts_retain_of_forall (fun stmt _ => content_retains stmt) hopen hlocals h).inline
    (Emit.stmts_before h)

end Draft

/-! ## Functions -/

theorem FunctionRecord.carries_print {record : FunctionRecord} {values : List String}
    (h : Carries values record.body.text.toList) : Carries values record.print.toList := by
  have htrimmed := h.trimEnd
  by_cases hempty : Text.trimEnd record.body.text = ""
  · rw [hempty] at htrimmed
    rw [htrimmed.eq_nil]
    exact .gap _
  · unfold FunctionRecord.print
    exact htrimmed.within (Text.infix_intercalate _ (by simp [hempty]))

namespace Emit

variable {cx : Context}

theorem functionRecord_carries [cx.model.Typed] {shape : FunctionShape} {record : FunctionRecord}
    (h : functionRecord cx shape = .ok record) :
    ∃ values, shape.strings cx = .ok values ∧ Carries values record.print.toList := by
  obtain ⟨params, locals, lowered, draft, hparams, hlowered, hdraft, rfl⟩ :=
    functionRecordWith_eq_ok.mp h
  obtain ⟨hopen, -⟩ := paramRecords_visible (.start shape.thisClass) hparams
  have hlocals := paramRecords_moduleless (.start shape.thisClass) hparams
  have hclass : locals.thisClass = shape.thisClass := paramRecords_thisClass hparams
  have hbody := Draft.stmts_retain hopen hlocals hdraft
  rw [hclass] at hbody
  refine ⟨(Stmt.valuesAll cx.model lowered).strings cx shape.thisClass locals.visible, ?_,
    FunctionRecord.carries_print ?_⟩
  · simp only [FunctionShape.strings, hparams, hlowered, bind, Except.bind, pure, Except.pure]
  · simpa [recordOf, Buffer.write, Buffer.atDepth] using hbody

/-! ## Files -/

section Files

variable {program : Program} {output : Output} {decl : Decl} {shape : FunctionShape}

/-- Every free shape of the program has its record in the file. -/
theorem freeShape_written (h : programOutput cx program = .ok output)
    (hdecl : decl ∈ program.decls) (hshape : FreeShape cx shape decl) :
    ∃ record ∈ output.functions, functionRecord cx shape = .ok record := by
  cases decl with
  | functionDecl span own =>
    obtain ⟨hown, hshape⟩ := hshape
    obtain ⟨shape', record, hshape', hrecord, hin⟩ := function_written h hdecl hown
    obtain rfl := Except.ok.inj (hshape.symm.trans hshape')
    exact ⟨record, hin, hrecord⟩
  | classDecl span own =>
    obtain ⟨hown, hreceiver, names, place, method, hnames, hmethod, hne, hshape⟩ := hshape
    obtain ⟨names', hnames', -, hwritten⟩ := method_written h hdecl hown hmethod
    obtain rfl := hnames.unique hnames'
    obtain ⟨shape', record, hshape', hrecord, hin⟩ := hwritten hreceiver hne
    obtain rfl := Except.ok.inj (hshape.symm.trans hshape')
    exact ⟨record, hin, hrecord⟩
  | _ => exact hshape.elim

/-- Every member shape of the program has its record in a class of the file. -/
theorem memberShape_written (h : programOutput cx program = .ok output)
    (hdecl : decl ∈ program.decls) (hshape : MemberShape cx shape decl) :
    ∃ owner ∈ output.classes, ∃ written ∈ owner.methods,
      functionRecord cx shape = .ok written.function := by
  cases decl with
  | classDecl span own =>
    obtain ⟨hown, names, member, hnames, hmember, hshape⟩ := hshape
    obtain ⟨part, hpart, -, hclasses⟩ := declsOutput_complete h hdecl
    simp only [declOutput, hown, Bool.false_eq_true, if_false] at hpart
    obtain ⟨names', info, members, functions, hnames', hmembers, -, rfl⟩ := classOutput_eq hpart
    obtain rfl := hnames.unique hnames'
    obtain ⟨shape', hshape', written, hin, hrecord⟩ :=
      membersRecords_complete hshape hmembers hmember
    obtain rfl := Except.ok.inj hshape'
    exact ⟨_, hclasses List.mem_cons_self, written, hin, hrecord⟩
  | _ => exact hshape.elim

/-- The text of a file has the definition of every shape of its program. -/
theorem shape_printed {options : Options} {model : Model} {text : String}
    (h : generateWith options model program = .ok text) (hdecl : decl ∈ program.decls)
    (hshape : FreeShape ⟨model, options⟩ shape decl ∨ MemberShape ⟨model, options⟩ shape decl) :
    ∃ record, functionRecord ⟨model, options⟩ shape = .ok record ∧
      record.print.toList <:+: text.toList := by
  obtain ⟨output, houtput, rfl⟩ := generateWith_eq h
  rcases hshape with hshape | hshape
  · obtain ⟨record, hin, hrecord⟩ := freeShape_written houtput hdecl hshape
    refine ⟨record, hrecord, Session.function_isInfix _ ?_⟩
    exact List.mem_append_right _ hin
  · obtain ⟨owner, howner, written, hin, hrecord⟩ := memberShape_written houtput hdecl hshape
    refine ⟨written.function, hrecord, ?_⟩
    have hclass : owner ∈ (output.session options.layout).classes := List.mem_append_right _ howner
    exact (ClassRecord.method_isInfix hin _).trans (Session.class_isInfix _ hclass)

end Files

end Emit

/-- **String literals reach the file intact.** Of every function that a file has, the strings of the
literals that are visited in its body, as it is after the passes, are in the text of the file, in
order: each in a run between double quotes that denotes it. -/
theorem generate_carries {options : Options} {program : Program} {preludes : List Program}
    {text : String} (h : generate options program preludes = .ok text) :
    ∃ model, Model.build program preludes = .ok model ∧
      ∀ decl ∈ program.decls, ∀ shape,
        Emit.FreeShape ⟨model, options⟩ shape decl ∨ Emit.MemberShape ⟨model, options⟩ shape decl →
        ∃ values, shape.strings ⟨model, options⟩ = .ok values ∧ Carries values text.toList := by
  obtain ⟨model, hmodel, hwritten⟩ := Lowered.bind_eq_ok.mp h
  refine ⟨model, hmodel, fun decl hdecl shape hshape => ?_⟩
  obtain ⟨record, hrecord, hprinted⟩ := Emit.shape_printed hwritten hdecl hshape
  obtain ⟨values, hvalues, hcarries⟩ := Emit.functionRecord_carries hrecord
  exact ⟨values, hvalues, hcarries.within hprinted⟩

section Greeting

open Build

def greet : FunctionDecl :=
  { decorators := [], declared := false, name := some "greet", typeParams := []
    params := [param "twice" (keyword .boolean)], returnType := some void
    body := some
      [ifElse (ident "twice")
        (block [block [exprStmt (call (ident "print") [string "\"\\\n"])]])
        (some (exprStmt (call (ident "print") [string " \t\r"])))] }

/-- Prints strings with a quote, a backslash, blanks and line breaks, in blocks and without. -/
def greeting : Program := program
  [declaredFunction "print" [param "text" (keyword .string)] void, .functionDecl {} greet]

theorem generate_carries_greeting : ∃ text, generate {} greeting [] = .ok text ∧
    Carries ["\"\\\n", " \t\r"] text.toList := by
  have hgenerates : (generate {} greeting []).toOption.isSome = true := by decide +kernel
  obtain ⟨text, hoption⟩ := Option.isSome_iff_exists.mp hgenerates
  have htext : generate {} greeting [] = .ok text := Lowered.toOption_eq_some.mp hoption
  obtain ⟨model, hmodel, hcarries⟩ := generate_carries htext
  have hvisited : (Model.build greeting [] >>= fun model : TypedModel =>
      Emit.functionShape ⟨model, {}⟩ greet {} >>= fun shape => shape.strings ⟨model, {}⟩)
      = .ok ["\"\\\n", " \t\r"] :=
    Lowered.toOption_eq_some.mp (by decide +kernel)
  obtain ⟨model', hmodel', hvisited⟩ := Lowered.bind_eq_ok.mp hvisited
  obtain rfl := Except.ok.inj (hmodel.symm.trans hmodel')
  obtain ⟨shape, hshape, hstrings⟩ := Lowered.bind_eq_ok.mp hvisited
  have hdecl : Decl.functionDecl {} greet ∈ greeting.decls := by simp [greeting, program]
  obtain ⟨values, hvalues, htextCarries⟩ := hcarries _ hdecl shape (.inl ⟨rfl, hshape⟩)
  obtain rfl := Except.ok.inj (hvalues.symm.trans hstrings)
  exact ⟨text, htext, htextCarries⟩

end Greeting

end NativeLowering
