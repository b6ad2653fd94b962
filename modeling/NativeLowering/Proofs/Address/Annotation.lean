import NativeLowering.Proofs.Address.Complete
import NativeLowering.Proofs.Emit.MemberAccess
import NativeLowering.Proofs.Pass.Variables

/-!
# Annotations of temporaries

The variable of an operand is annotated with the type of the operand. Where the type comes from an
annotation, it is read from one and written back to another (`Ty.toTypeNode?`). The second denotes
the same type. It has the same native text exactly if no type arguments have been dropped: a type
has none, so those of an alias or of a native type are lost on the way
(`typeTextWith_writtenBack`). Pointers keep theirs.

Names are joined by dots in a type and taken apart at the dots again, so a component with a dot in
it is not the name it was.
-/

set_option autoImplicit false

namespace NativeLowering

open Vocabulary (BuiltinType)

/-! ## Names -/

/-- There is no dot in a component of the name. -/
def Undotted (components : List String) : Prop := ∀ part ∈ components, '.' ∉ part.toList

theorem splitOn_undotted {name : String} (h : '.' ∉ name.toList) :
    name.toList.splitOn '.' = [name.toList] := by
  rw [List.splitOn]
  exact List.splitOnP_eq_singleton fun char hchar => by
    rw [beq_eq_false_iff_ne]
    rintro rfl
    exact h hchar

theorem nameComponents_simple {name : String} (h : Undotted [name]) :
    nameComponents name = [name] := by
  rw [nameComponents, splitOn_undotted (h name (by simp))]
  simp

/-- A qualified name is taken apart into the components it was put together from. -/
theorem nameComponents_qualified {qualifier name : String} (h : Undotted [qualifier, name]) :
    nameComponents (".".intercalate [qualifier, name]) = [qualifier, name] := by
  have hchars : (".".intercalate [qualifier, name]).toList
      = qualifier.toList ++ '.' :: name.toList := by
    rw [String.intercalate_cons_cons]
    simp
  rw [nameComponents, hchars, List.splitOn_append_cons_self, splitOn_undotted (h qualifier (by simp)),
    splitOn_undotted (h name (by simp))]
  simp

/-! ## Annotations -/

namespace TypeNode

/-- What the annotation points to if its pointers are followed. -/
def target : TypeNode → TypeNode
  | .reference span [name] [inner] =>
    if BuiltinType.ofString? name = some .pointer then inner.target
    else .reference span [name] [inner]
  | node => node

/-- The components of the name that is referred to. -/
def components : TypeNode → List String
  | .reference _ name _ => name
  | .keyword .. => []

/-- The type arguments. -/
def arguments : TypeNode → List TypeNode
  | .reference _ _ args => args
  | .keyword .. => []

end TypeNode

section Texts

variable {model : Model} {mangling : String}

theorem typeTexts_length {nodes : List TypeNode} {texts : List String}
    (h : typeTexts model mangling nodes = .ok texts) : texts.length = nodes.length := by
  induction nodes generalizing texts with
  | nil =>
    rw [typeTexts] at h
    cases h
    rfl
  | cons node rest ih =>
    rw [typeTexts] at h
    obtain ⟨text, -, h⟩ := Lowered.bind_eq_ok.mp h
    obtain ⟨others, hothers, h⟩ := Lowered.bind_eq_ok.mp h
    obtain rfl := Lowered.pure_eq_ok.mp h
    rw [List.length_cons, List.length_cons, ih hothers]

/-- A name with arguments is longer than the name. -/
theorem appliedType_eq_self {name : String} {texts : List String} :
    appliedType name texts = name ↔ texts = [] := by
  cases texts with
  | nil => simp [appliedType]
  | cons first rest =>
    refine ⟨fun h => ?_, nofun⟩
    have hlength := congrArg (fun text : String => text.toList.length) h
    simp [appliedType] at hlength

/-- Without its arguments a native type has the same text exactly if it has none. -/
theorem appliedType_without {name text : String} {args : List TypeNode}
    (h : (typeTexts model mangling args).map (appliedType name) = .ok text) :
    (Except.ok name : Lowered String) = .ok text ↔ args = [] := by
  obtain ⟨texts, htexts, rfl⟩ := Lowered.map_eq_ok.mp h
  have hlength := typeTexts_length htexts
  rw [Except.ok.injEq, eq_comm, appliedType_eq_self, ← List.length_eq_zero_iff, hlength,
    List.length_eq_zero_iff]

/-- The same of what a name of the program refers to. -/
theorem itemTypeText_without {item : Item} {space : Option String} {args : List TypeNode}
    {wrapping : Wrapping} {place : Span} {text : String}
    (h : itemTypeText mangling item space args (typeTexts model mangling args) wrapping place
      = .ok text) (span : Span) :
    itemTypeText mangling item space [] (typeTexts model mangling []) wrapping span = .ok text ↔
      args = [] := by
  unfold itemTypeText at h ⊢
  cases hinfo : item.info with
  | classInfo info =>
    rw [hinfo] at h
    cases args with
    | nil =>
      dsimp only at h ⊢
      exact iff_of_true h rfl
    | cons first rest => cases h
  | interfaceInfo methods =>
    rw [hinfo] at h
    cases h
  | functionInfo info =>
    rw [hinfo] at h
    cases h
  | aliasInfo =>
    rw [hinfo] at h
    exact appliedType_without h

/-! ## Written back -/

/-- The second annotation denotes the type of the first; it has its text too if there are no type
arguments to lose. -/
structure WrittenBack (model : Model) (mangling : String) (wrapping : Wrapping)
    (node node' : TypeNode) (text : String) : Prop where
  type : model.typeFromNode node' = model.typeFromNode node
  text : typeTextWith model mangling wrapping node' = .ok text ↔ node.target.arguments = []

/-- A simple name is written back without its arguments. -/
theorem Names.namedType_toTypeNode? {names : Names} {name : String} (hname : Undotted [name])
    (span : Span) :
    (names.namedType name).toTypeNode? span = some (.reference span [name] []) := by
  unfold Names.namedType
  split <;> rw [Ty.toTypeNode?, nameComponents_simple hname]

/-- Where a qualified name stands matters only if it stands for nothing. -/
theorem qualifiedItem_anywhere {qualifier name : String} {place : Span} {found : AmbientModule × Item}
    (h : qualifiedItem model qualifier name place = .ok found) (span : Span) :
    qualifiedItem model qualifier name span = .ok found := by
  unfold qualifiedItem at h ⊢
  split at h
  · cases h
  · split at h
    · cases h
    · exact h

/-- A reference with a number of arguments that a pointer does not have. -/
theorem not_pointer_of_text {wrapping : Wrapping} {place : Span} {name text : String}
    {args : List TypeNode} (hargs : args.length ≠ 1)
    (htext : typeTextWith model mangling wrapping (.reference place [name] args) = .ok text) :
    BuiltinType.ofString? name ≠ some .pointer := by
  intro hpointer
  rw [typeTextWith.eq_def] at htext
  simp only [hpointer, if_true] at htext
  split at htext
  · exact hargs rfl
  · cases htext

variable [model.Typed]

theorem simple_writtenBack {wrapping : Wrapping} {place span : Span} {name text : String}
    {args : List TypeNode} {node' : TypeNode}
    (hpointer : BuiltinType.ofString? name ≠ some .pointer) (hname : Undotted [name])
    (htext : typeTextWith model mangling wrapping (.reference place [name] args) = .ok text)
    (hnode : (model.typeFromNode (.reference place [name] args)).toTypeNode? span = some node') :
    model.typeFromNode node' = model.typeFromNode (.reference place [name] args) ∧
      (typeTextWith model mangling wrapping node' = .ok text ↔ args = []) := by
  rw [model.typeFromNode_simple hpointer, Names.namedType_toTypeNode? hname] at hnode
  obtain rfl := Option.some.inj hnode
  rw [model.typeFromNode_simple hpointer, model.typeFromNode_simple hpointer]
  refine ⟨rfl, ?_⟩
  rw [typeTextWith_simple hpointer] at htext ⊢
  cases hsymbol : model.resolveType? name with
  | none =>
    rw [hsymbol] at htext
    exact appliedType_without htext
  | some symbol =>
    rw [hsymbol] at htext
    cases symbol with
    | item item => exact itemTypeText_without htext span
    | ambient source => cases htext

theorem qualified_writtenBack {wrapping : Wrapping} {place span : Span}
    {qualifier name text : String} {args : List TypeNode} {node' : TypeNode}
    (hname : Undotted [qualifier, name])
    (htext : typeTextWith model mangling wrapping (.reference place [qualifier, name] args) = .ok text)
    (hnode : (model.typeFromNode (.reference place [qualifier, name] args)).toTypeNode? span
      = some node') :
    model.typeFromNode node' = model.typeFromNode (.reference place [qualifier, name] args) ∧
      (typeTextWith model mangling wrapping node' = .ok text ↔ args = []) := by
  rw [model.typeFromNode_qualified, Ty.toTypeNode?, nameComponents_qualified hname] at hnode
  obtain rfl := Option.some.inj hnode
  refine ⟨?_, ?_⟩
  · rw [model.typeFromNode_qualified, model.typeFromNode_qualified]
  · rw [typeTextWith] at htext ⊢
    obtain ⟨⟨ambient, item⟩, hfound, htext⟩ := Lowered.bind_eq_ok.mp htext
    rw [qualifiedItem_anywhere hfound span]
    exact itemTypeText_without htext span

/-- A pointer is written back if what it points to is. -/
theorem pointer_writtenBack {wrapping : Wrapping} {place span : Span} {name text : String}
    {inner node' : TypeNode} (hpointer : BuiltinType.ofString? name = some .pointer)
    (htext : typeTextWith model mangling wrapping (.reference place [name] [inner]) = .ok text)
    (hnode : (model.typeFromNode (.reference place [name] [inner])).toTypeNode? span = some node')
    (hinner : ∀ {inner' : TypeNode} {text' : String},
      typeTextWith model mangling .bare inner = .ok text' →
      (model.typeFromNode inner).toTypeNode? span = some inner' →
      WrittenBack model mangling .bare inner inner' text') :
    WrittenBack model mangling wrapping (.reference place [name] [inner]) node' text := by
  have hspelling : BuiltinType.ofString? BuiltinType.pointer.spelling = some .pointer := rfl
  rw [typeTextWith, if_pos hpointer] at htext
  obtain ⟨bare, hbare, rfl⟩ := Lowered.map_eq_ok.mp htext
  rw [model.typeFromNode_pointer hpointer, Ty.toTypeNode?, Option.map_eq_some_iff] at hnode
  obtain ⟨inner', hnode, rfl⟩ := hnode
  obtain ⟨htype, hiff⟩ := hinner hbare hnode
  refine ⟨?_, ?_⟩
  · rw [model.typeFromNode_pointer hspelling, model.typeFromNode_pointer hpointer, htype]
  · rw [typeTextWith, if_pos hspelling, TypeNode.target, if_pos hpointer, ← hiff, Lowered.map_eq_ok]
    -- Both texts end in the star, so they are equal exactly if those of the targets are.
    constructor
    · rintro ⟨bare', hbare', heq⟩
      rw [hbare', (String.append_left_inj "*").mp heq]
    · intro hbare'
      exact ⟨bare, hbare', rfl⟩

/-- An annotation with a native text that is read as a type and written back. -/
theorem typeTextWith_writtenBack : ∀ (wrapping : Wrapping) (node : TypeNode)
    {node' : TypeNode} {span : Span} {text : String}, Undotted node.target.components →
    typeTextWith model mangling wrapping node = .ok text →
    (model.typeFromNode node).toTypeNode? span = some node' →
    WrittenBack model mangling wrapping node node' text
  | wrapping, .keyword place keyword, node', span, text, _, htext, hnode => by
    rw [model.typeFromNode_keyword] at hnode
    obtain rfl := Option.some.inj hnode
    refine ⟨?_, iff_of_true htext rfl⟩
    rw [model.typeFromNode_keyword, model.typeFromNode_keyword]
  | wrapping, .reference place [name] [inner], node', span, text, hname, htext, hnode => by
    by_cases hpointer : BuiltinType.ofString? name = some .pointer
    · -- Only a pointer has an annotation inside that is written back in its turn.
      refine pointer_writtenBack hpointer htext hnode ?_
      rw [TypeNode.target, if_pos hpointer] at hname
      exact typeTextWith_writtenBack .bare inner hname
    · have htarget : (TypeNode.reference place [name] [inner]).target
          = .reference place [name] [inner] := by rw [TypeNode.target, if_neg hpointer]
      rw [htarget] at hname
      obtain ⟨htype, hiff⟩ := simple_writtenBack hpointer hname htext hnode
      refine ⟨htype, ?_⟩
      rw [htarget]
      exact hiff
  | wrapping, .reference place [name] [], node', span, text, hname, htext, hnode => by
    have hpointer := not_pointer_of_text (by simp) htext
    obtain ⟨htype, hiff⟩ := simple_writtenBack hpointer hname htext hnode
    exact ⟨htype, hiff⟩
  | wrapping, .reference place [name] (first :: second :: rest), node', span, text, hname, htext,
      hnode => by
    have hpointer := not_pointer_of_text (by simp) htext
    obtain ⟨htype, hiff⟩ := simple_writtenBack hpointer hname htext hnode
    exact ⟨htype, hiff⟩
  | wrapping, .reference place [qualifier, name] args, node', span, text, hname, htext, hnode => by
    obtain ⟨htype, hiff⟩ := qualified_writtenBack hname htext hnode
    exact ⟨htype, hiff⟩
  | wrapping, .reference place [] args, node', span, text, _, htext, _ => by
    rw [typeTextWith] at htext
    · cases htext
    all_goals simp
  | wrapping, .reference place (_ :: _ :: _ :: _) args, node', span, text, _, htext, _ => by
    rw [typeTextWith] at htext
    · cases htext
    all_goals simp

end Texts

/-! ## The temporaries of calls -/

/-- The annotation that the type of a call comes from. -/
def Model.declaredResult? (model : Model) (locals : Locals) : Expr → Option TypeNode
  | .call _ (.ident _ name) _ _ => (model.function? name).bind FunctionInfo.returnType
  | .call _ (.property _ object name) _ _ =>
    match model.typeOf locals object with
    | .classTy owner =>
      ((model.classInfo? owner).bind (·.method? name)).bind MethodInfo.returnType
    | .moduleTy specifier =>
      (model.exportedFunction? specifier name).bind FunctionInfo.returnType
    | _ => none
  | .receiverCall _ owner method _ =>
    ((model.classInfo? owner).bind (·.method? method)).bind MethodInfo.returnType
  | _ => none

namespace Names

variable {names : Names}

theorem resultType_declared {info : Option FunctionInfo} {node : TypeNode}
    (h : info.bind FunctionInfo.returnType = some node) :
    names.resultType info = names.typeFromNode node := by
  obtain ⟨found, rfl, hnode⟩ := Option.bind_eq_some_iff.mp h
  rw [resultType, hnode, typeFromOption]

theorem methodResultType_declared {owner name : String} {node : TypeNode}
    (h : ((names.classInfo? owner).bind (·.method? name)).bind MethodInfo.returnType = some node) :
    names.methodResultType owner name = names.typeFromNode node := by
  obtain ⟨found, hfound, hnode⟩ := Option.bind_eq_some_iff.mp h
  rw [methodResultType, hfound]
  simp only [hnode, typeFromOption]

end Names

namespace Model

variable {model : Model} [model.Typed]

theorem typeOf_declaredResult {locals : Locals} {value : Expr} {node : TypeNode}
    (h : model.declaredResult? locals value = some node) :
    model.typeOf locals value = model.typeFromNode node := by
  unfold declaredResult? at h
  rw [model.typeFromNode_eq]
  split at h
  · rw [model.typeOf_functionCall]
    exact Names.resultType_declared h
  · rw [model.typeOf_methodCall]
    split at h
    · rename_i heq
      rw [heq, Names.methodCallType]
      exact Names.methodResultType_declared h
    · rename_i heq
      rw [heq, Names.methodCallType]
      exact Names.resultType_declared h
    · cases h
  · rw [model.typeOf_receiverCall]
    exact Names.methodResultType_declared h
  · cases h

end Model

namespace Address

open Walk (stage)

section Declared

variable {model : Model}

/-- The variable of an operand, as it is declared. -/
def Site.introduced (model : Model) (site : Site) (number : Nat) : Introduced :=
  { kind := .letKind, name := .ident (Spelling.temporary number)
    type := some ((site.node? model).getD (.reference site.operand.span [] [])) }

/-- The variables of the operands are among those that are introduced. -/
def Declared (model : Model) (next : Nat) (sites : List Site) (entries : List Introduced) : Prop :=
  ∀ site number, (site, number) ∈ sites.zipIdx next → site.introduced model number ∈ entries

theorem Declared.append {next : Nat} {sites more : List Site} {entries others : List Introduced}
    (h : Declared model next sites entries)
    (h' : Declared model (next + sites.length) more others) :
    Declared model next (sites ++ more) (entries ++ others) := by
  intro site number hsite
  rw [List.zipIdx_append, List.mem_append] at hsite
  rcases hsite with hsite | hsite
  · exact List.mem_append_left _ (h site number hsite)
  · exact List.mem_append_right _ (h' site number hsite)

theorem Declared.nil (next : Nat) (entries : List Introduced) : Declared model next [] entries := by
  intro site number hsite
  cases hsite

theorem declared_declarations (next : Nat) (sites : List Site) :
    Declared model next sites (Stmt.introducedAll (declarations model next sites)) := by
  intro site number hsite
  rw [Stmt.introducedAll_eq_flatMap, List.mem_flatMap]
  exact ⟨site.declaration model number, List.mem_map.mpr ⟨_, hsite, rfl⟩, List.mem_singleton_self _⟩

theorem declared_stage (next : Nat) (sites : List Site) {more : List Site} {stmt : Stmt}
    (h : Declared model (next + sites.length) more stmt.introduced) :
    Declared model next (sites ++ more)
      (stage (declarations model next sites) stmt).introduced := by
  rw [Walk.introduced_stage]
  exact (declared_declarations next sites).append h

theorem declared_all {body : List Stmt}
    (h : ∀ stmt ∈ body, ∀ locals next, Declared model next (sites model locals stmt)
      (materialized model locals next stmt).introduced) (locals : Locals) (next : Nat) :
    Declared model next (sitesAll model locals body)
      (Stmt.introducedAll (materializedAll model locals next body)) := by
  induction body generalizing locals next with
  | nil => exact .nil _ _
  | cons stmt rest ih =>
    exact (h stmt (by simp) locals next).append (ih (fun other hm => h other (by simp [hm])) _ _)

theorem declared_stmt (stmt : Stmt) : ∀ locals next, Declared model next (sites model locals stmt)
    (materialized model locals next stmt).introduced := by
  induction stmt using Stmt.ind with
  | vars span kind decls =>
    intro locals next
    rw [sites, ← List.append_nil (declSites model locals decls)]
    exact declared_stage next _ (.nil _ _)
  | expr span value =>
    intro locals next
    rw [sites, ← List.append_nil (exprSites model locals value)]
    exact declared_stage next _ (.nil _ _)
  | ret span value =>
    intro locals next
    rw [sites, ← List.append_nil (optionSites model locals value)]
    exact declared_stage next _ (.nil _ _)
  | ifElse span condition thenBranch elseBranch hThen hElse =>
    intro locals next
    have helse (next : Nat) : Declared model next (sitesOption model locals elseBranch)
        (Stmt.introducedElse (materializedOption model locals next elseBranch)) := by
      cases elseBranch with
      | none => exact .nil _ _
      | some branch => exact hElse branch rfl _ _
    -- The operands of the condition are numbered first, then those of the branches.
    have hbranches := (hThen (locals.push .block)
      (next + (exprSites model locals condition).length)).append (helse _)
    rw [materialized, Walk.introduced_stage]
    exact (declared_declarations next _).append hbranches
  | loop span condition body hBody =>
    intro locals next
    exact declared_stage next _ (hBody _ _)
  | brk | cont => exact fun locals next => .nil _ _
  | block span body hBody => exact fun locals next => declared_all hBody _ _
  | staged span before body hBefore hBody =>
    intro locals next
    rw [materialized, Walk.introduced_restage]
    exact (declared_all hBefore locals next).append (hBody _ _)

theorem node?_of_allNamed {sites : List Site} (h : allNamed model sites = .ok ()) :
    ∀ site ∈ sites, ∃ node, site.node? model = some node := by
  induction sites with
  | nil => exact List.forall_mem_nil _
  | cons site rest ih =>
    obtain ⟨_, hsite, hrest⟩ := Lowered.bind_eq_ok.mp h
    refine List.forall_mem_cons.mpr ⟨?_, ih hrest⟩
    rw [Site.named] at hsite
    cases hnode : site.node? model with
    | none =>
      simp only [hnode] at hsite
      cases hsite
    | some node => exact ⟨node, rfl⟩

/-- Every operand that needs a variable has one, annotated with a type that the operand has. -/
theorem run_declares [model.Typed] {locals : Locals} {body result : List Stmt}
    (h : run model locals body = .ok result) {site : Site} {number : Nat}
    (hsite : (site, number) ∈ (sitesAll model locals body).zipIdx 1) :
    ∃ node, (site.type model).toTypeNode? site.operand.span = some node ∧
      ⟨.letKind, .ident (Spelling.temporary number), some node⟩ ∈ Stmt.introducedAll result := by
  have hdeclared := declared_all (fun stmt _ => declared_stmt stmt) locals 1 site number hsite
  rw [run_eq, Lowered.map_eq_ok] at h
  obtain ⟨_, hnamed, rfl⟩ := h
  obtain ⟨node, hnode⟩ := node?_of_allNamed hnamed site (List.fst_mem_of_mem_zipIdx hsite)
  refine ⟨node, hnode, ?_⟩
  rwa [Site.introduced, hnode] at hdeclared

end Declared

end Address

/-- **What a synthesized annotation denotes.** An annotation with a native text that is read as a type
and written back denotes the same type. It has the same text exactly if no type arguments are lost,
and so has the variable of a call whose result is annotated. -/
theorem synthesized_annotation_iff (model : TypedModel) (mangling : String) (node : TypeNode)
    (text : String) (hname : Undotted node.target.components)
    (htext : typeText model mangling node = .ok text) :
    (∀ span node', (model.typeFromNode node).toTypeNode? span = some node' →
      model.typeFromNode node' = model.typeFromNode node ∧
      (typeText model mangling node' = .ok text ↔ node.target.arguments = [])) ∧
    ∀ locals body result, Address.run model locals body = .ok result →
      ∀ site number, (site, number) ∈ (Address.sitesAll model locals body).zipIdx 1 →
        model.declaredResult? site.locals site.operand = some node →
        ∃ node', ⟨.letKind, .ident (Spelling.temporary number), some node'⟩
            ∈ Stmt.introducedAll result ∧
          model.typeFromNode node' = model.typeFromNode node ∧
          (typeText model mangling node' = .ok text ↔ node.target.arguments = []) := by
  have hback {span : Span} {node' : TypeNode}
      (hnode : (model.typeFromNode node).toTypeNode? span = some node') :
      WrittenBack model mangling .owned node node' text :=
    typeTextWith_writtenBack .owned node hname htext hnode
  refine ⟨fun span node' hnode => ⟨(hback hnode).type, (hback hnode).text⟩, ?_⟩
  intro locals body result hrun site number hsite hdeclared
  obtain ⟨node', hnode, hmem⟩ := Address.run_declares hrun hsite
  rw [Address.Site.type, Model.typeOf_declaredResult hdeclared] at hnode
  exact ⟨node', hmem, (hback hnode).type, (hback hnode).text⟩

/-! ## A canvas and a vector -/

section Vectors

open Build

/-- Functions that hand out a pointer and a vector, which is an alias for a native type. The name of
one class has a dot in it. -/
def lending : Program :=
  program [typeAlias "Vec", classOf "Canvas" [], classOf "geo.Point" [],
    declaredFunction "addressof" [] (keyword .number), declaredFunction "consume" [] void,
    declaredFunction "lend" [] (pointer (type "Canvas")),
    declaredFunction "make" [] (typeWith "Vec" [keyword .number])]

/-- The address of what a function hands out is consumed. -/
def consuming (source : String) : List Stmt :=
  [exprStmt (call (ident "consume") [call (ident "addressof") [call (ident source) []]])]

theorem synthesized_annotation_iff_lend : ∃ model result node',
    Model.build lending [] = .ok model ∧
    Address.run model (.start none) (consuming "lend") = .ok result ∧
    ⟨.letKind, .ident (Spelling.temporary 1), some node'⟩ ∈ Stmt.introducedAll result ∧
    typeText model "tscc_" (pointer (type "Canvas")) = .ok "tscc_Canvas*" ∧
    typeText model "tscc_" node' = .ok "tscc_Canvas*" := by
  obtain ⟨model, result, hmodel, hrun, htext, hsite, hdeclared⟩ : ∃ model result,
      Model.build lending [] = .ok model ∧
      Address.run model (.start none) (consuming "lend") = .ok result ∧
      typeText model "tscc_" (pointer (type "Canvas")) = .ok "tscc_Canvas*" ∧
      (⟨.start none, call (ident "lend") []⟩, 1)
        ∈ (Address.sitesAll model (.start none) (consuming "lend")).zipIdx 1 ∧
      model.declaredResult? (.start none) (call (ident "lend") [])
        = some (pointer (type "Canvas")) :=
    ⟨_, _, rfl, rfl, rfl, List.mem_singleton_self _, rfl⟩
  have hname : Undotted (pointer (type "Canvas")).target.components := by
    unfold Undotted
    decide
  obtain ⟨-, htemporaries⟩ :=
    synthesized_annotation_iff model "tscc_" (pointer (type "Canvas")) "tscc_Canvas*" hname htext
  obtain ⟨node', hmem, -, hiff⟩ := htemporaries _ _ _ hrun _ _ hsite hdeclared
  exact ⟨model, result, node', hmodel, hrun, hmem, htext, hiff.mpr rfl⟩

/-- The arguments of a vector are lost, and with them its native type; a class with a dot in its name
is not the same type any more. -/
theorem vector_arguments_lost : ∃ model result,
    Model.build lending [] = .ok model ∧
    typeText model "tscc_" (typeWith "Vec" [keyword .number]) = .ok "Vec<double>" ∧
    (model.typeFromNode (typeWith "Vec" [keyword .number])).toTypeNode? {} = some (type "Vec") ∧
    typeText model "tscc_" (type "Vec") = .ok "Vec" ∧
    model.declaredResult? (.start none) (call (ident "make") [])
      = some (typeWith "Vec" [keyword .number]) ∧
    Address.run model (.start none) (consuming "make") = .ok result ∧
    Stmt.introducedAll result
      = [⟨.letKind, .ident (Spelling.temporary 1), some (type "Vec")⟩] ∧
    typeText model "tscc_" (.reference {} ["geo.Point"] [])
      = .ok "std::shared_ptr<tscc_geo.Point>" ∧
    (model.typeFromNode (.reference {} ["geo.Point"] [])).toTypeNode? {}
      = some (.reference {} ["geo", "Point"] []) ∧
    model.typeFromNode (.reference {} ["geo", "Point"] [])
      ≠ model.typeFromNode (.reference {} ["geo.Point"] []) :=
  ⟨_, _, rfl, rfl, rfl, rfl, rfl, rfl, rfl, rfl, rfl, by decide⟩

end Vectors

end NativeLowering
