import NativeLowering.Proofs.Pass.Variables
import NativeLowering.Proofs.Scoping.Agreement
import NativeLowering.Proofs.Scoping.Uses

/-!
# Function-scoped variables

A variable of the whole function is declared in the hoisted section, and where its declarator stands
only its initial value is assigned. Its binding, however, is made in the frame of the block around
the declarator, as for every other variable.

`functionLike_hoists` says what this comes to. The hoisted section has one line for each declarator,
also for those of one name. A name means the variable as long as the block is open. Afterwards it
means a global, or else the function is not written at all.
-/

set_option autoImplicit false

namespace NativeLowering

/-- A declaration in the hoisted section of a function. -/
structure HoistedVariable where
  type : String
  name : String

def HoistedVariable.line (hoisted : HoistedVariable) : String :=
  hoisted.type ++ " " ++ hoisted.name ++ ";"

/-- The declaration has the name of the variable and the text of its annotation. -/
def HoistedVariable.Declares (cx : Context) (entry : Introduced) (hoisted : HoistedVariable) :
    Prop :=
  entry.name = .ident hoisted.name ∧
    ∃ node, entry.type = some node ∧ cx.typePiece node = .ok hoisted.type

/-- Every name that the expression uses is that of a variable in scope or of a global. -/
def Occurrence.Named (model : Model) (there : Occurrence Expr) : Prop :=
  ∀ name ∈ there.node.uses model,
    name ∈ there.visible.map Prod.fst ∨ ∃ symbol, model.resolve? name = some symbol

/-- The name means a global there, and if it is written, then as the global is. -/
def Occurrence.MeansGlobal (cx : Context) (there : Occurrence Expr) (name : String) : Prop :=
  ∃ symbol, cx.model.resolve? name = some symbol ∧
    ∀ locals span text, locals.visible = there.visible →
      exprText cx locals (.ident span name) = .ok text →
      text = cx.piece (symbol.writtenName cx.mangling)

theorem Locals.binds_iff {locals : Locals} {name : String} :
    locals.binds name = true ↔ name ∈ locals.visible.map Prod.fst := by
  rw [binds, lookup?, List.lookup_isSome_iff]
  simp

/-- A name that no variable in scope has means a global. -/
theorem Occurrence.meansGlobal {cx : Context} {there : Occurrence Expr} {name : String}
    {symbol : Symbol} (hsymbol : cx.model.resolve? name = some symbol)
    (hhidden : name ∉ there.visible.map Prod.fst) : there.MeansGlobal cx name := by
  refine ⟨symbol, hsymbol, fun locals span text hvisible htext => ?_⟩
  have hunbound : ¬ locals.binds name = true := by
    rw [Locals.binds_iff, hvisible]
    exact hhidden
  rw [exprText, identText_eq, if_neg hunbound, hsymbol] at htext
  dsimp only at htext
  split at htext
  · exact (Except.ok.inj htext).symm
  · exact (Except.ok.inj htext).symm
  · cases htext

section Declarators

variable (model : Model) (decl : VariableDecl) (visible : Bindings)

theorem VariableDecl.values_after :
    (decl.values model).after visible = decl.bind model visible := by
  rw [values, read]
  cases decl.init <;> rfl

theorem VariableDecl.values_found :
    (decl.values model).found visible = (Expr.valuesOption decl.init).found visible := by
  simp [values, read, Reading.andThen, Reading.leaf, Reading.binding]

end Declarators

namespace Draft

variable {cx : Context}

/-- What has been written of a stretch of a body: its expressions name what is in scope, and its
function-scoped variables are hoisted. -/
structure Tells (cx : Context) (reading : Reading (Occurrence Expr)) (entries : List Introduced)
    (locals : Locals) (draft : Draft) : Prop where
  stays : draft.locals.Open
  moduleless : draft.locals.Moduleless
  visible : draft.locals.visible = reading.after locals.visible
  hoisted : ∃ declared : List HoistedVariable,
    draft.hoisted = declared.map HoistedVariable.line ∧
    List.Forall₂ (HoistedVariable.Declares cx) (entries.filter Introduced.isHoistable) declared
  named : ∀ there ∈ reading.found locals.visible, there.Named cx.model

namespace Tells

variable {reading reading' : Reading (Occurrence Expr)} {entries more : List Introduced}
  {locals : Locals} {draft second : Draft}

theorem nothing (hopen : locals.Open) (hlocals : locals.Moduleless) {text : String} :
    Tells cx .nothing [] locals (ofText text locals) where
  stays := hopen
  moduleless := hlocals
  visible := rfl
  hoisted := ⟨[], rfl, .nil⟩
  named := nofun

/-- An expression by itself. -/
theorem value [cx.model.Typed] (hopen : locals.Open) (hlocals : locals.Moduleless) {node : Expr}
    {spelled : String}
    (h : exprText cx locals node = .ok spelled) (text : String) :
    Tells cx (.leaf fun visible => [⟨visible, node⟩]) [] locals (ofText text locals) where
  stays := hopen
  moduleless := hlocals
  visible := rfl
  hoisted := ⟨[], rfl, .nil⟩
  named there hthere := by
    obtain rfl := List.mem_singleton.mp hthere
    intro name hname
    exact (Emit.exprText_resolves hlocals node spelled h name hname).imp Locals.binds_iff.mp id

/-- Only the bindings and the hoisted lines of what has been written matter. -/
theorem of_eq (h : Tells cx reading entries locals draft) (hafter : second.locals = draft.locals)
    (hlines : second.hoisted = draft.hoisted) : Tells cx reading entries locals second where
  stays := hafter ▸ h.stays
  moduleless := hafter ▸ h.moduleless
  visible := hafter ▸ h.visible
  hoisted := hlines ▸ h.hoisted
  named := h.named

theorem statement (h : Tells cx reading entries locals draft) (depth : Nat) :
    Tells cx reading entries locals (draft.statement cx.layout depth) :=
  h.of_eq (statement_locals ..) (statement_hoisted ..)

theorem asPrelude (h : Tells cx reading entries locals draft) :
    Tells cx reading entries locals draft.asPrelude := h.of_eq rfl rfl

theorem andThen (h : Tells cx reading entries locals draft)
    (h' : Tells cx reading' more draft.locals second) :
    Tells cx (reading.andThen reading') (entries ++ more) locals (draft.andThen second) where
  stays := h'.stays
  moduleless := h'.moduleless
  visible := h'.visible.trans (by rw [h.visible]; rfl)
  hoisted := by
    obtain ⟨declared, hdeclared, hforall⟩ := h.hoisted
    obtain ⟨others, hothers, hforall'⟩ := h'.hoisted
    refine ⟨declared ++ others, ?_, ?_⟩
    · rw [Draft.andThen, List.map_append, hdeclared, hothers]
    · rw [List.filter_append]
      exact List.rel_append hforall hforall'
  named there hthere := by
    rcases List.mem_append.mp hthere with hthere | hthere
    · exact h.named there hthere
    · rw [← h.visible] at hthere
      exact h'.named there hthere

theorem inside {kind : FrameKind} (hopen : locals.Open) (hlocals : locals.Moduleless)
    (h : Tells cx reading entries (locals.push kind) draft) (depth : Nat) :
    Tells cx reading.inside entries locals (braced cx.layout depth locals draft) where
  stays := hopen
  moduleless := hlocals
  visible := rfl
  hoisted := h.hoisted
  named := h.named

end Tells

variable {locals : Locals} {draft : Draft}

/-! ### Statement by statement -/

theorem initial_named [cx.model.Typed] (hopen : locals.Open) (hlocals : locals.Moduleless)
    {init : Option Expr} {value : Option String}
    (h : initial (exprText cx) locals init = .ok value) :
    ∀ there ∈ (Expr.valuesOption init).found locals.visible, there.Named cx.model := by
  cases init with
  | none => exact nofun
  | some node =>
    obtain ⟨text, htext, -⟩ := Lowered.map_eq_ok.mp h
    exact (Tells.value hopen hlocals htext "").named

theorem variableDecl_tells [cx.model.Typed] {depth : Nat} {kind : VariableKind}
    {decl : VariableDecl} (hopen : locals.Open) (hlocals : locals.Moduleless)
    (h : variableDecl cx (exprText cx) depth kind locals decl = .ok draft) :
    Tells cx (decl.values cx.model) [decl.introduced kind] locals draft := by
  obtain ⟨name, hname, h⟩ := Lowered.bind_eq_ok.mp h
  obtain ⟨node, hnode, h⟩ := Lowered.bind_eq_ok.mp h
  obtain ⟨type, htype, h⟩ := Lowered.bind_eq_ok.mp h
  obtain ⟨value, hvalue, h⟩ := Lowered.bind_eq_ok.mp h
  have hident := Emit.variableName_eq_ok hname
  have hannotation := Emit.variableType_eq_ok hnode
  -- The line of a function-scoped variable is hoisted, but its binding ends with this block.
  obtain ⟨hafter, hlines⟩ : draft.locals = locals.declare name (cx.model.typeFromNode node) ∧
      draft.hoisted = if kind = .varKind then [type ++ " " ++ name ++ ";"] else [] := by
    obtain rfl := Lowered.pure_eq_ok.mp h
    cases kind <;> cases value <;> exact ⟨rfl, rfl⟩
  refine ⟨?_, ?_, ?_, ?_, ?_⟩
  · rw [hafter]
    exact Locals.declare_frames_ne_nil hopen name _
  · rw [hafter]
    exact hlocals.declare cx.model name node
  · rw [hafter, Locals.visible_declare hopen]
    rw [VariableDecl.values_after, VariableDecl.bind, hident, hannotation]
    rfl
  · by_cases hkind : kind = .varKind
    · subst hkind
      refine ⟨[⟨type, name⟩], hlines, .cons ⟨?_, node, hannotation, htype⟩ .nil⟩
      exact BindingName.eq_ident hident
    · rw [if_neg hkind] at hlines
      refine ⟨[], hlines, ?_⟩
      simp [VariableDecl.introduced, Introduced.isHoistable, hkind]
  · intro there hthere
    rw [VariableDecl.values_found] at hthere
    exact initial_named hopen hlocals hvalue there hthere

theorem variableDecls_tells [cx.model.Typed] {depth : Nat} {kind : VariableKind}
    {decls : List VariableDecl} (hopen : locals.Open) (hlocals : locals.Moduleless)
    (h : variableDecls cx (exprText cx) depth kind locals decls = .ok draft) :
    Tells cx (VariableDecl.valuesAll cx.model decls) (decls.map (VariableDecl.introduced kind))
      locals draft := by
  induction decls generalizing locals draft with
  | nil =>
    cases h
    exact .nothing hopen hlocals
  | cons decl rest ih =>
    obtain ⟨first, others, hfirst, hothers, rfl⟩ := variableDecls_cons_eq_ok.mp h
    have hdecl := variableDecl_tells hopen hlocals hfirst
    exact hdecl.andThen (ih hdecl.stays hdecl.moduleless hothers)

theorem head_tells [cx.model.Typed] {depth : Nat} {word : String} {condition : Expr}
    (hopen : locals.Open) (hlocals : locals.Moduleless)
    (h : head cx (exprText cx) depth locals word condition = .ok draft) :
    Tells cx (.leaf fun visible => [⟨visible, condition⟩]) [] locals draft ∧
      draft.locals = locals := by
  obtain ⟨text, htext, rfl⟩ := head_eq_ok.mp h
  exact ⟨.value hopen hlocals htext _, rfl⟩

/-- What is written of a statement tells of it. -/
def ContentTells (cx : Context) (stmt : Stmt) : Prop :=
  ∀ (depth : Nat) (locals : Locals) (draft : Draft), locals.Open → locals.Moduleless →
    content cx (exprText cx) depth locals stmt = .ok draft →
    Tells cx (stmt.values cx.model) stmt.introduced locals draft

theorem branch_tells {depth : Nat} {stmt : Stmt} {kind : FrameKind} (hstmt : ContentTells cx stmt)
    (hopen : locals.Open) (hlocals : locals.Moduleless)
    (h : branch cx depth locals stmt (content cx (exprText cx) depth locals stmt)
      (content cx (exprText cx) 0 (locals.push kind) stmt) = .ok draft) :
    Tells cx (stmt.values cx.model).inside stmt.introduced locals draft ∧ draft.locals = locals := by
  rcases branch_cases h with ⟨_, _, inner, rfl, hblock, -, rfl⟩ | ⟨single, -, hsingle, rfl⟩
  · exact ⟨hstmt _ _ _ hopen hlocals hblock, rfl⟩
  · have hinner := hstmt _ _ _ (.push locals kind) (hlocals.push kind) hsingle
    exact ⟨(hinner.statement (depth + 1)).inside hopen hlocals depth, rfl⟩

theorem else_tells {depth : Nat} {elseBranch : Option Stmt}
    (hElse : ∀ branch, elseBranch = some branch → ContentTells cx branch) (hopen : locals.Open)
    (hlocals : locals.Moduleless)
    (h : elseContent cx (exprText cx) depth locals elseBranch = .ok draft) :
    Tells cx (Stmt.valuesElse cx.model elseBranch) (Stmt.introducedElse elseBranch) locals draft := by
  cases elseBranch with
  | none =>
    rw [elseContent] at h
    cases h
    exact .nothing hopen hlocals
  | some branch =>
    obtain ⟨second, hsecond, rfl⟩ := elseContent_some_eq_ok.mp h
    obtain ⟨hbranch, -⟩ := branch_tells (hElse branch rfl) hopen hlocals hsecond
    exact (Tells.nothing hopen hlocals).andThen hbranch

theorem stmts_tells_of_forall {depth : Nat} {body : List Stmt}
    (hall : ∀ stmt ∈ body, ContentTells cx stmt) (hopen : locals.Open) (hlocals : locals.Moduleless)
    (h : stmts cx (exprText cx) depth locals body = .ok draft) :
    Tells cx (Stmt.valuesAll cx.model body) (Stmt.introducedAll body) locals draft := by
  induction body generalizing locals draft with
  | nil =>
    cases h
    exact .nothing hopen hlocals
  | cons stmt rest ih =>
    obtain ⟨first, others, hfirst, hothers, rfl⟩ := stmts_cons_eq_ok.mp h
    have hstmt := hall stmt (by simp) _ _ _ hopen hlocals hfirst
    have hrest := ih (fun other hm => hall other (by simp [hm])) hstmt.stays hstmt.moduleless hothers
    -- Closing the statement has kept its bindings for those behind it.
    rw [← statement_locals cx.layout depth first] at hrest
    exact (hstmt.statement depth).andThen hrest

theorem content_tells [cx.model.Typed] (stmt : Stmt) : ContentTells cx stmt := by
  induction stmt using Stmt.ind with
  | vars span kind decls =>
    intro depth locals draft hopen hlocals h
    rw [content] at h
    exact variableDecls_tells hopen hlocals h
  | expr span value =>
    intro depth locals draft hopen hlocals h
    obtain ⟨text, htext, rfl⟩ := content_expr_eq_ok.mp h
    exact .value hopen hlocals htext _
  | ret span value =>
    intro depth locals draft hopen hlocals h
    cases value with
    | none =>
      rw [content] at h
      cases h
      exact .nothing hopen hlocals
    | some value =>
      obtain ⟨text, htext, rfl⟩ := content_ret_eq_ok.mp h
      exact .value hopen hlocals htext _
  | ifElse span condition thenBranch elseBranch hThen hElse =>
    intro depth locals draft hopen hlocals h
    obtain ⟨first, second, third, hfirst, hsecond, hthird, rfl⟩ := content_ifElse_eq_ok.mp h
    obtain ⟨hhead, hback⟩ := head_tells hopen hlocals hfirst
    obtain ⟨htaken, hback'⟩ := branch_tells hThen hopen hlocals hsecond
    have hother := else_tells hElse hopen hlocals hthird
    rw [andThen_assoc]
    refine hhead.andThen (hback.symm ▸ htaken.andThen ?_)
    rwa [hback']
  | loop span condition body hBody =>
    intro depth locals draft hopen hlocals h
    obtain ⟨first, second, hfirst, hsecond, rfl⟩ := content_loop_eq_ok.mp h
    obtain ⟨hhead, hback⟩ := head_tells hopen hlocals hfirst
    obtain ⟨hinner, -⟩ := branch_tells hBody hopen hlocals hsecond
    exact hhead.andThen (hback.symm ▸ hinner)
  | brk | cont =>
    intro depth locals draft hopen hlocals h
    rw [content] at h
    cases h
    exact .nothing hopen hlocals
  | block span body hBody =>
    intro depth locals draft hopen hlocals h
    obtain ⟨inner, hinner, rfl⟩ := content_block_eq_ok.mp h
    exact (stmts_tells_of_forall hBody (.push locals .block) (hlocals.push .block) hinner).inside
      hopen hlocals depth
  | staged span before body hBefore hBody =>
    intro depth locals draft hopen hlocals h
    obtain ⟨first, second, hfirst, hsecond, rfl⟩ := content_staged_eq_ok.mp h
    have hbefore := (stmts_tells_of_forall hBefore hopen hlocals hfirst).asPrelude
    exact hbefore.andThen (hBody _ _ _ hbefore.stays hbefore.moduleless hsecond)

theorem stmts_tells [cx.model.Typed] {depth : Nat} {body : List Stmt} (hopen : locals.Open)
    (hlocals : locals.Moduleless) (h : stmts cx (exprText cx) depth locals body = .ok draft) :
    Tells cx (Stmt.valuesAll cx.model body) (Stmt.introducedAll body) locals draft :=
  stmts_tells_of_forall (fun stmt _ => content_tells stmt) hopen hlocals h

end Draft

/-! ## Functions -/

section Functions

variable {cx : Context}

theorem paramRecords_moduleless [cx.model.Typed] {params : List Param} {locals after : Locals}
    {records : List ParamRecord} (hlocals : locals.Moduleless)
    (h : Emit.paramRecords cx locals params = .ok (records, after)) : after.Moduleless := by
  induction params generalizing locals records with
  | nil =>
    cases h
    exact hlocals
  | cons param rest ih =>
    obtain ⟨⟨record, between⟩, hparam, h⟩ := Lowered.bind_eq_ok.mp h
    obtain ⟨⟨others, last⟩, hrest, h⟩ := Lowered.bind_eq_ok.mp h
    cases h
    obtain ⟨name, -, hparam⟩ := Lowered.bind_eq_ok.mp hparam
    obtain ⟨node, -, hparam⟩ := Lowered.bind_eq_ok.mp hparam
    obtain ⟨type, -, hparam⟩ := Lowered.bind_eq_ok.mp hparam
    obtain ⟨default, -, hparam⟩ := Lowered.bind_eq_ok.mp hparam
    cases hparam
    exact ih (hlocals.declare cx.model name node) hrest

theorem exists_of_forall₂ {α β : Type} {R : α → β → Prop} {first : List α} {second : List β}
    (h : List.Forall₂ R first second) {value : α} (hvalue : value ∈ first) :
    ∃ other ∈ second, R value other := by
  induction h with
  | nil => cases hvalue
  | cons hhead _ ih =>
    rcases List.mem_cons.mp hvalue with rfl | hvalue
    · exact ⟨_, List.mem_cons_self, hhead⟩
    · obtain ⟨other, hother, hR⟩ := ih hvalue
      exact ⟨other, List.mem_cons_of_mem _ hother, hR⟩

/-- The names in the hoisted section are those of the variables. -/
theorem names_declared {entries : List Introduced} {declared : List HoistedVariable}
    (h : List.Forall₂ (HoistedVariable.Declares cx) entries declared) :
    declared.map HoistedVariable.name = entries.filterMap fun entry => entry.name.ident? := by
  induction h with
  | nil => rfl
  | cons hentry _ ih =>
    rw [List.map_cons, List.filterMap_cons, hentry.1, ih]
    rfl

/-- **One hoisted line for each declarator, and a binding that ends with the block.** A function is
written with as many declarations of a name in its hoisted section as there are function-scoped
declarators of that name in its body. A use of a name that no parameter has and no variable of a
block that is still open means a global. Only the variables of operands are in scope besides. -/
theorem functionLike_hoists [cx.model.Typed] {session after : Session} {shape : Emit.FunctionShape}
    {span : Span} (hidle : Emit.Idle cx session)
    (hgives : Emit.Gives (Emit.functionLike cx shape span) session () after) :
    ∃ record declared, Emit.Placed session record shape.visibility after ∧
      record.hoisted
        = (Buffer.atDepth cx.layout 1).appendLines (declared.map HoistedVariable.line) ∧
      List.Forall₂ (HoistedVariable.Declares cx) (Stmt.hoistable shape.body) declared ∧
      (∀ name, (declared.map HoistedVariable.name).count name
        = ((Stmt.hoistable shape.body).filterMap fun entry => entry.name.ident?).count name) ∧
      ∀ there ∈ (Stmt.valuesAll cx.model shape.body).found
          (shape.params.foldl (Param.bind cx.model) []),
        ∀ name ∈ there.node.uses cx.model, name ∉ there.visible.map Prod.fst →
          there.MeansGlobal cx name ∨
          cx.options.passes.materialize = true ∧ ∃ number, name = Spelling.temporary number := by
  obtain ⟨record, hrecord, hplaced⟩ := Emit.functionLike_gives hidle hgives
  obtain ⟨params, locals, lowered, draft, hparams, hlowered, hdraft, rfl⟩ :=
    Emit.functionRecordWith_eq_ok.mp hrecord
  obtain ⟨hopen, hvisible⟩ := Emit.paramRecords_visible (.start shape.thisClass) hparams
  have hlocals := paramRecords_moduleless (.start shape.thisClass) hparams
  have htells := Draft.stmts_tells hopen hlocals hdraft
  obtain ⟨declared, hlines, hdeclared⟩ := htells.hoisted
  -- The passes have neither added nor dropped a function-scoped variable.
  have hsame : Stmt.hoistable lowered = Stmt.hoistable shape.body := PassSet.run_hoistable hlowered
  rw [← Stmt.hoistable, hsame] at hdeclared
  refine ⟨_, declared, hplaced, ?_, hdeclared, fun name => ?_, ?_⟩
  · rw [Emit.recordOf, hlines]
  · rw [names_declared hdeclared]
  -- A use in the source is one in the text, where it names a variable in scope or a global.
  obtain ⟨log, hlog⟩ := (PassSet.runLogged_erases shape.body).eq_ok.mp hlowered
  obtain ⟨found, hagree⟩ := PassSet.runLogged_agree hopen (Draft.stmts_annotated hdraft) hlog
  intro there hthere name hname hhidden
  have hthere' : there ∈ (Stmt.valuesAll cx.model shape.body).found locals.visible := by
    rw [hvisible]
    exact hthere
  obtain ⟨written, hwritten, hinserted, hbecomes⟩ :=
    exists_of_forall₂ hagree.emit (hagree.calls.mem hthere')
  rcases htells.named written hwritten name (hbecomes.uses name hname) with
    hbound | ⟨symbol, hsymbol⟩
  · obtain ⟨binding, hbinding, rfl⟩ := List.mem_map.mp hbound
    rcases hinserted.mem_or hbinding with hbinding | ⟨hselected, htemporary⟩
    · exact absurd (List.mem_map_of_mem hbinding) hhidden
    · exact .inr ⟨hselected, htemporary⟩
  · exact .inl (Occurrence.meansGlobal hsymbol hhidden)

end Functions

/-! ## Counts -/

section Counts

open Build Emit

def consumer : Program :=
  program [declaredFunction "consume" [param "value" (keyword .number)] void]

/-- A procedure without parameters. -/
def counting (body : List Stmt) : FunctionShape :=
  { returnType := some "void", qualifier := none, name := "tscc_main", params := [], body
    thisClass := none, visibility := none }

def countFrom (spelling : String) : Stmt :=
  varVar "count" (some (keyword .number)) (some (number spelling))

def consumeCount : Stmt := exprStmt (call (ident "consume") [ident "count"])

theorem functionLike_hoists_count : ∃ model after record, ∃ declared : List HoistedVariable,
    Model.build consumer [] = .ok model ∧
    Gives (functionLike ⟨model, {}⟩ (counting [countFrom "1", block [consumeCount]]) {})
      (.start {}) () after ∧
    Placed (.start {}) record none after ∧
    record.hoisted = (Buffer.atDepth {} 1).appendLines (declared.map HoistedVariable.line) ∧
    (declared.map HoistedVariable.name).count "count" = 1 := by
  obtain ⟨model, after, hbuild, hrun⟩ := gives_of_toOption
    (show (Model.build consumer []).toOption.map (fun model : TypedModel =>
        ((functionLike ⟨model, {}⟩ (counting [countFrom "1", block [consumeCount]]) {}).run
          (.start {})).1.toOption) = some (some ()) by decide +kernel)
  obtain ⟨record, declared, hplaced, hlines, -, hcount, -⟩ :=
    @functionLike_hoists ⟨model, {}⟩ model.typed _ _ _ _ ⟨rfl, rfl⟩ hrun
  exact ⟨model, after, record, declared, hbuild, hrun, hplaced, hlines, hcount "count"⟩

/-- Two variables of one name in blocks side by side are declared twice. After the block of a
variable, its name is not resolved. -/
theorem count_declared_twice_then_lost : ∃ model record,
    Model.build consumer [] = .ok model ∧
    functionRecord ⟨model, {}⟩ (counting [block [countFrom "1"], block [countFrom "2"]])
      = .ok record ∧
    record.hoisted = (Buffer.atDepth {} 1).appendLines ["double count;", "double count;"] ∧
    functionRecord ⟨model, {}⟩ (counting [block [countFrom "1"], consumeCount])
      = .error (.fault {} (.unresolvedName "count")) :=
  ⟨_, _, rfl, rfl, rfl, rfl⟩

end Counts

end NativeLowering
