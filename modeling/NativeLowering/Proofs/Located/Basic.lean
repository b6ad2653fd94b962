import NativeLowering.Model.Table
import NativeLowering.Proofs.Success
import NativeLowering.Proofs.Syntax.Spans

/-!
# Errors with a place

A computation is located if its error, should it fail, is at one of some given spans, and its result
meets a condition otherwise. Computations on the nodes of a program are located at the spans of these
nodes. This module has the rules for putting such computations together, and building a model as the
first of them (`build_points`).
-/

set_option autoImplicit false

namespace NativeLowering

/-! ## Spans within a set -/

/-- All the spans are in a set. -/
def Within (S : Span → Prop) (spans : List Span) : Prop := ∀ span ∈ spans, S span

section Within

variable {S : Span → Prop}

@[simp] theorem within_nil : Within S [] ↔ True := by simp [Within]

@[simp] theorem within_cons {span : Span} {spans : List Span} :
    Within S (span :: spans) ↔ S span ∧ Within S spans := List.forall_mem_cons

@[simp] theorem within_append {first second : List Span} :
    Within S (first ++ second) ↔ Within S first ∧ Within S second := List.forall_mem_append

@[simp] theorem within_flatMap {α : Type} {spans : α → List Span} {parts : List α} :
    Within S (parts.flatMap spans) ↔ ∀ part ∈ parts, Within S (spans part) := by
  simp only [Within, List.mem_flatMap]
  exact ⟨fun h part hpart span hspan => h span ⟨part, hpart, hspan⟩,
    fun h span ⟨part, hpart, hspan⟩ => h part hpart span hspan⟩

@[simp] theorem within_spansOption {α : Type} {spans : α → List Span} {part : Option α} :
    Within S (spansOption spans part) ↔ ∀ value ∈ part, Within S (spans value) := by
  cases part <;> simp [spansOption]

@[simp] theorem within_typeSpans {nodes : List TypeNode} :
    Within S (TypeNode.spansList nodes) ↔ ∀ node ∈ nodes, Within S node.spans := by
  induction nodes with
  | nil => simp [TypeNode.spansList]
  | cons node rest ih => simp [TypeNode.spansList, ih]

@[simp] theorem within_exprSpans {items : List Expr} :
    Within S (Expr.spansList items) ↔ ∀ item ∈ items, Within S item.spans := by
  induction items with
  | nil => simp [Expr.spansList]
  | cons item rest ih => simp [Expr.spansList, ih]

@[simp] theorem within_stmtSpans {body : List Stmt} :
    Within S (Stmt.spansList body) ↔ ∀ stmt ∈ body, Within S stmt.spans := by
  induction body with
  | nil => simp [Stmt.spansList]
  | cons stmt rest ih => simp [Stmt.spansList, ih]

@[simp] theorem within_declSpans {decls : List Decl} :
    Within S (Decl.spansList decls) ↔ ∀ decl ∈ decls, Within S decl.spans := by
  induction decls with
  | nil => simp [Decl.spansList]
  | cons decl rest ih => simp [Decl.spansList, ih]

/-! A node's own span is one of its spans. -/

theorem Within.type {node : TypeNode} (h : Within S node.spans) : S node.span := by
  cases node <;> exact h _ List.mem_cons_self

theorem Within.expr {value : Expr} (h : Within S value.spans) : S value.span := by
  cases value <;> exact h _ List.mem_cons_self

theorem Within.stmt {stmt : Stmt} (h : Within S stmt.spans) : S stmt.span := by
  cases stmt <;> exact h _ List.mem_cons_self

theorem Within.decl {decl : Decl} (h : Within S decl.spans) : S decl.span := by
  cases decl <;> exact h _ List.mem_cons_self

end Within

/-! ## Located computations -/

namespace Lowered

variable {α β : Type} {S : Span → Prop} {Q : α → Prop} {R : β → Prop}

/-- The computation has a result that meets a condition, or it fails at a span in the set. -/
def Located (S : Span → Prop) (Q : α → Prop) : Lowered α → Prop
  | .ok value => Q value
  | .error e => ∃ span, e.span? = some span ∧ S span

/-- If the computation fails, then at a span in the set. -/
abbrev Points (S : Span → Prop) (computed : Lowered α) : Prop := Located S (fun _ => True) computed

@[simp] theorem located_pure {value : α} : Located S Q (pure value : Lowered α) ↔ Q value := Iff.rfl

@[simp] theorem located_failAt {span : Span} {fault : Fault} :
    Located S Q (failAt span fault : Lowered α) ↔ S span :=
  ⟨fun ⟨_, heq, h⟩ => Option.some.inj heq ▸ h, fun h => ⟨span, rfl, h⟩⟩

theorem Located.bind {computed : Lowered α} (h : Located S Q computed) {next : α → Lowered β}
    (hnext : ∀ value, Q value → Located S R (next value)) : Located S R (computed >>= next) := by
  cases computed with
  | ok value => exact hnext value h
  | error e => exact h

theorem Located.map {computed : Lowered α} (h : Located S Q computed) {change : α → β}
    (hchange : ∀ value, Q value → R (change value)) : Located S R (computed.map change) := by
  cases computed with
  | ok value => exact hchange value h
  | error e => exact h

theorem Located.imp {Q' : α → Prop} {computed : Lowered α} (h : Located S Q computed)
    (himp : ∀ value, Q value → Q' value) : Located S Q' computed := by
  cases computed with
  | ok value => exact himp value h
  | error e => exact h

theorem Points.bind {computed : Lowered α} (h : computed.Points S) {next : α → Lowered β}
    (hnext : ∀ value, Located S R (next value)) : Located S R (computed >>= next) :=
  Located.bind h fun value _ => hnext value

theorem Points.map {computed : Lowered α} (h : computed.Points S) (change : α → β) :
    Points S (computed.map change : Lowered β) := Located.map h fun _ _ => trivial

theorem Points.foldlM {σ δ : Type} {step : σ → δ → Lowered σ} {items : List δ}
    (hstep : ∀ state, ∀ item ∈ items, (step state item).Points S) (state : σ) :
    (items.foldlM step state).Points S := by
  induction items generalizing state with
  | nil => trivial
  | cons item rest ih =>
    rw [List.foldlM_cons]
    exact (hstep state item (by simp)).bind fun between =>
      ih (fun state other hother => hstep state other (by simp [hother])) between

/-- A step with a state is located if each of its parts is. -/
theorem Located.run_bind {σ : Type} {first : StateT σ Lowered α} {next : α → StateT σ Lowered β}
    {state : σ} {Q : α × σ → Prop} {R : β × σ → Prop} (h : Located S Q (first.run state))
    (hnext : ∀ value after, Q (value, after) → Located S R ((next value).run after)) :
    Located S R ((first >>= next).run state) := by
  rw [StateT.run_bind]
  exact h.bind fun entry hentry => hnext entry.1 entry.2 hentry

theorem Located.run_lift {σ : Type} {computed : Lowered α} {state : σ} (h : Located S Q computed) :
    Located S (fun entry : α × σ => Q entry.1 ∧ entry.2 = state)
      ((liftM computed : StateT σ Lowered α).run state) := by
  cases computed with
  | ok value => exact ⟨h, rfl⟩
  | error e => exact h

end Lowered

open Lowered

/-! ## Building a model -/

section Building

variable {S : Span → Prop}

theorem enter_points {α : Type} (table : List (String × α)) (name : String) (value : α)
    {span : Span} (hspan : S span) : (enter table name value span).Points S := by
  unfold enter
  split
  · exact located_failAt.mpr hspan
  · trivial

theorem checkKnown_points {decorators : List Decorator}
    (h : ∀ decorator ∈ decorators, Within S decorator.spans) :
    (Traits.checkKnown decorators).Points S := by
  induction decorators with
  | nil => trivial
  | cons decorator rest ih =>
    rw [Traits.checkKnown]
    split
    · exact ih fun other hother => h other (by simp [hother])
    · exact located_failAt.mpr (h decorator (by simp) _ List.mem_cons_self)

theorem literalArg_points (name : Vocabulary.DecoratorName) {args : List Expr}
    (h : ∀ arg ∈ args, Within S arg.spans) : (Traits.literalArg name args).Points S := by
  unfold Traits.literalArg
  split
  · trivial
  · trivial
  · exact located_failAt.mpr (h _ (by simp)).expr

theorem args?_within {decorators : List Decorator} {name : Vocabulary.DecoratorName}
    {args : List Expr} (h : ∀ decorator ∈ decorators, Within S decorator.spans)
    (hargs : Traits.args? decorators name = some args) : ∀ arg ∈ args, Within S arg.spans := by
  obtain ⟨decorator, hdecorator, rfl⟩ := Option.map_eq_some_iff.mp hargs
  have hspans := h decorator (List.mem_of_find?_eq_some hdecorator)
  simp only [Decorator.spans, within_cons, within_exprSpans] at hspans
  exact hspans.2

theorem traits_points {decorators : List Decorator} (declared : String)
    (h : ∀ decorator ∈ decorators, Within S decorator.spans) :
    (Traits.ofDecorators decorators declared).Points S := by
  have hname : (Traits.nativeNameOf decorators declared).Points S := by
    unfold Traits.nativeNameOf
    split
    · trivial
    · rename_i args hargs
      exact (literalArg_points _ (args?_within h hargs)).map _
  have hspace : (Traits.nativeSpaceOf decorators).Points S := by
    unfold Traits.nativeSpaceOf
    split
    · trivial
    · rename_i args hargs
      exact literalArg_points _ (args?_within h hargs)
  exact (checkKnown_points h).bind fun _ => hname.bind fun _ => hspace.bind fun _ => trivial

theorem classItem_points {decl : ClassDecl} {span : Span}
    (h : Within S (Decl.classDecl span decl).spans) : (classItem decl span).Points S := by
  simp only [Decl.spans, within_cons, within_append, within_flatMap] at h
  unfold classItem
  split
  · exact located_failAt.mpr h.1
  · exact (traits_points _ h.2.1).bind fun _ => trivial

theorem functionItem_points {decl : FunctionDecl} {span : Span}
    (h : Within S (Decl.functionDecl span decl).spans) : (functionItem decl span).Points S := by
  simp only [Decl.spans, within_cons, within_append, within_flatMap] at h
  unfold functionItem
  split
  · exact located_failAt.mpr h.1
  · exact (traits_points _ h.2.1).bind fun _ => trivial

theorem memberItem_points {decl : Decl} (h : Within S decl.spans) : (memberItem decl).Points S := by
  cases decl with
  | classDecl span decl => exact classItem_points h
  | functionDecl span decl => exact functionItem_points h
  | interfaceDecl | typeAlias => trivial
  | importDecl | moduleDecl => exact located_failAt.mpr h.decl

theorem ambientModule_points {span : Span} {decorators : List Decorator} {specifier : String}
    {body : List Decl} (hdecorators : ∀ decorator ∈ decorators, Within S decorator.spans)
    (hbody : ∀ decl ∈ body, Within S decl.spans) :
    (ambientModule span decorators specifier body).Points S := by
  refine (traits_points _ hdecorators).bind fun _ => Points.bind ?_ fun _ => trivial
  refine Points.foldlM (fun members decl hdecl => ?_) _
  refine (memberItem_points (hbody decl hdecl)).bind fun item => ?_
  split
  · trivial
  · split
    · trivial
    · exact located_failAt.mpr (hbody decl hdecl).decl

theorem declare_points (table : SymbolTable) {decl : Decl} (h : Within S decl.spans) :
    (table.declare decl).Points S := by
  cases decl with
  | importDecl span decl => trivial
  | classDecl span decl =>
    exact (classItem_points h).bind fun _ => (enter_points _ _ _ h.decl).bind fun _ =>
      (enter_points _ _ _ h.decl).bind fun _ => trivial
  | functionDecl span decl =>
    refine (functionItem_points h).bind fun item => ?_
    split
    · trivial
    · exact (enter_points _ _ _ h.decl).bind fun _ => trivial
  | interfaceDecl span decl => exact (enter_points _ _ _ h.decl).bind fun _ => trivial
  | typeAlias span name => exact (enter_points _ _ _ h.decl).bind fun _ => trivial
  | moduleDecl span decorators declared specifier body =>
    have hspan : S span := h.decl
    simp only [Decl.spans, within_cons, within_append, within_flatMap, within_declSpans] at h
    rw [SymbolTable.declare]
    split
    · exact located_failAt.mpr hspan
    · exact (ambientModule_points h.2.1 h.2.2).bind fun _ => trivial

theorem specifierText_points {decl : ImportDecl} (h : Within S decl.specifier.spans) :
    decl.specifierText.Points S := by
  unfold ImportDecl.specifierText
  split
  · trivial
  · rename_i other _
    exact located_failAt.mpr h.expr

theorem bindItem_points (source : SymbolId) (specifier : String) {span : Span} (hspan : S span)
    (table : SymbolTable) (item : ImportItem) :
    (SymbolTable.bindItem source specifier span table item).Points S := by
  have hentered {α : Type} (entering : Bool) (bindings : List (String × α)) (value : α) :
      (if entering then enter bindings item.localName value span else .ok bindings).Points S := by
    cases entering with
    | true => exact enter_points _ _ _ hspan
    | false => trivial
  unfold SymbolTable.bindItem
  split
  · exact located_failAt.mpr hspan
  · exact (hentered _ _ _).bind fun _ => (hentered _ _ _).bind fun _ => trivial

theorem bindImport_points (table : SymbolTable) {decl : Decl} (h : Within S decl.spans) :
    (table.bindImport decl).Points S := by
  cases decl with
  | importDecl span decl =>
    simp only [Decl.spans, within_cons] at h
    refine (specifierText_points h.2).bind fun specifier => ?_
    split
    · trivial
    · unfold SymbolTable.bindClause
      split
      · trivial
      · exact (enter_points _ _ _ h.2.expr).bind fun _ => trivial
      · exact Points.foldlM (fun state item _ => bindItem_points _ _ h.2.expr state item) _
  | _ => trivial

/-- Building a model fails at a span of the sources. -/
theorem build_points {program : Program} {preludes : List Program}
    (h : ∀ source ∈ program :: preludes, Within S source.spans) :
    (Model.build program preludes).Points S := by
  have hdecls : ∀ decl ∈ Model.sources program preludes, Within S decl.spans := by
    intro decl hdecl
    obtain ⟨source, hsource, hin⟩ := List.mem_flatMap.mp hdecl
    exact within_declSpans.mp (h source (by simpa [or_comm] using hsource)) decl hin
  have htable : (SymbolTable.build (Model.sources program preludes)).Points S := by
    refine Points.bind (Points.foldlM (fun table decl hdecl => ?_) _) fun table =>
      Points.foldlM (fun table decl hdecl => ?_) table
    · exact declare_points table (hdecls decl hdecl)
    · exact bindImport_points table (hdecls decl hdecl)
  exact htable.map _

end Building

end NativeLowering
