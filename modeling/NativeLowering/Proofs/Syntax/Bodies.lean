import NativeLowering.Model.Typing
import NativeLowering.Proofs.Syntax.Induction

/-!
# Conditions on the expressions of a body, and changes to them

The passes over a body keep its statements and touch its expressions, and the two ways in which a
method is written differ in an expression here and there. So statements about them speak of all
expressions of a body and of all variables it declares: `Stmt.All` puts a condition on both, and
`Stmt.mapExprs` changes every expression.

An expression of a statement is one that the statement is built from directly. Its parts are
the condition's own business.
-/

set_option autoImplicit false

namespace NativeLowering

/-- A condition on what a variable declaration binds and on its annotation. -/
abbrev DeclCondition := BindingName → Option TypeNode → Prop

namespace VariableDecl

def All (P : Expr → Prop) (D : DeclCondition) (decl : VariableDecl) : Prop :=
  D decl.name decl.type ∧ ∀ init, decl.init = some init → P init

def mapExprs (m : Expr → Expr) (decl : VariableDecl) : VariableDecl :=
  { decl with init := decl.init.map m }

end VariableDecl

/-! ## Bindings -/

namespace Locals

theorem visible_push (locals : Locals) (kind : FrameKind) :
    (locals.push kind).visible = locals.visible := rfl

theorem visible_declare {locals : Locals} (h : locals.frames ≠ []) (name : String) (type : Ty) :
    (locals.declare name type).visible = (name, type) :: locals.visible := by
  unfold declare visible
  cases hf : locals.frames with
  | nil => exact absurd hf h
  | cons frame frames => simp

theorem declare_of_no_frame {locals : Locals} (h : locals.frames = []) (name : String)
    (type : Ty) : locals.declare name type = locals := by
  simp [declare, h]

theorem declare_frames_ne_nil {locals : Locals} (h : locals.frames ≠ []) (name : String)
    (type : Ty) : (locals.declare name type).frames ≠ [] := by
  unfold declare
  cases hf : locals.frames with
  | nil => exact absurd hf h
  | cons frame frames => simp

theorem declare_thisClass (locals : Locals) (name : String) (type : Ty) :
    (locals.declare name type).thisClass = locals.thisClass := by
  unfold declare
  cases locals.frames <;> rfl

theorem lookup?_declare {locals : Locals} (h : locals.frames ≠ []) (name : String) (type : Ty)
    (other : String) :
    (locals.declare name type).lookup? other
      = if other = name then some type else locals.lookup? other := by
  rw [lookup?, visible_declare h, List.lookup_cons]
  by_cases heq : other = name
  · simp [heq]
  · have : (other == name) = false := by simpa using heq
    rw [this, if_neg heq]
    rfl

end Locals

theorem BindingName.eq_ident {binding : BindingName} {name : String}
    (h : binding.ident? = some name) : binding = .ident name := by
  cases binding with
  | ident other =>
    cases h
    rfl
  | objectPattern => cases h
  | arrayPattern => cases h

/-- The bindings after a variable is declared. -/
def declareLocal (model : Model) (locals : Locals) (decl : VariableDecl) : Locals :=
  match decl.name.ident? with
  | none => locals
  | some name => locals.declare name (model.declaredType locals decl)

/-! ## Statements -/

namespace Stmt

mutual

/-- Every expression of the statement meets the first condition and every variable it declares the
second. -/
def All (P : Expr → Prop) (D : DeclCondition) : Stmt → Prop
  | .vars _ _ decls => ∀ decl ∈ decls, decl.All P D
  | .expr _ value => P value
  | .ret _ value => ∀ result, value = some result → P result
  | .ifElse _ condition thenBranch elseBranch =>
    P condition ∧ thenBranch.All P D ∧ AllOption P D elseBranch
  | .loop _ condition body => P condition ∧ body.All P D
  | .brk _ | .cont _ => True
  | .block _ body => AllList P D body
  | .staged _ before body => AllList P D before ∧ body.All P D

def AllOption (P : Expr → Prop) (D : DeclCondition) : Option Stmt → Prop
  | none => True
  | some branch => branch.All P D

def AllList (P : Expr → Prop) (D : DeclCondition) : List Stmt → Prop
  | [] => True
  | stmt :: rest => stmt.All P D ∧ AllList P D rest

end

mutual

/-- The statement with every expression changed. -/
def mapExprs (m : Expr → Expr) : Stmt → Stmt
  | .vars span kind decls => .vars span kind (decls.map (VariableDecl.mapExprs m))
  | .expr span value => .expr span (m value)
  | .ret span value => .ret span (value.map m)
  | .ifElse span condition thenBranch elseBranch =>
    .ifElse span (m condition) (thenBranch.mapExprs m) (mapOption m elseBranch)
  | .loop span condition body => .loop span (m condition) (body.mapExprs m)
  | .brk span => .brk span
  | .cont span => .cont span
  | .block span body => .block span (mapList m body)
  | .staged span before body => .staged span (mapList m before) (body.mapExprs m)

def mapOption (m : Expr → Expr) : Option Stmt → Option Stmt
  | none => none
  | some branch => some (branch.mapExprs m)

def mapList (m : Expr → Expr) : List Stmt → List Stmt
  | [] => []
  | stmt :: rest => stmt.mapExprs m :: mapList m rest

end

/-! ## Lists -/

section Lists

variable {P : Expr → Prop} {D : DeclCondition} {m : Expr → Expr}

theorem allList_append {first second : List Stmt} :
    AllList P D (first ++ second) ↔ AllList P D first ∧ AllList P D second := by
  induction first with
  | nil => simp [AllList]
  | cons stmt rest ih => simp [AllList, ih, and_assoc]

theorem mapList_append (first second : List Stmt) :
    mapList m (first ++ second) = mapList m first ++ mapList m second := by
  induction first with
  | nil => rfl
  | cons stmt rest ih => rw [List.cons_append, mapList, ih, mapList, List.cons_append]

/-! ## Changing no expression, changing conditions -/

theorem mapList_of_forall {body : List Stmt} (h : ∀ stmt ∈ body, stmt.mapExprs m = stmt) :
    mapList m body = body := by
  induction body with
  | nil => rfl
  | cons stmt rest ih =>
    rw [mapList, h stmt (by simp), ih fun other hm => h other (by simp [hm])]

theorem mapExprs_id (stmt : Stmt) : stmt.mapExprs id = stmt := by
  have hdecl (decl : VariableDecl) : decl.mapExprs id = decl := by
    simp [VariableDecl.mapExprs]
  induction stmt using Stmt.ind with
  | vars span kind decls => simp [mapExprs, List.map_congr_left fun decl _ => hdecl decl]
  | expr | brk | cont => rfl
  | ret span value => simp [mapExprs]
  | ifElse span condition thenBranch elseBranch hThen hElse =>
    cases elseBranch with
    | none => simp [mapExprs, mapOption, hThen]
    | some branch => simp [mapExprs, mapOption, hThen, hElse branch rfl]
  | loop span condition body hBody => simp [mapExprs, hBody]
  | block span body hBody => simp [mapExprs, mapList_of_forall hBody]
  | staged span before body hBefore hBody =>
    simp [mapExprs, mapList_of_forall hBefore, hBody]

theorem mapList_id (body : List Stmt) : mapList id body = body :=
  mapList_of_forall fun stmt _ => mapExprs_id stmt

theorem allList_iff {body : List Stmt} : AllList P D body ↔ ∀ stmt ∈ body, stmt.All P D := by
  induction body with
  | nil => simp [AllList]
  | cons stmt rest ih => simp [AllList, ih]

theorem All.imp {P' : Expr → Prop} {D' : DeclCondition} (hP : ∀ value, P value → P' value)
    (hD : ∀ name type, D name type → D' name type) {stmt : Stmt} (h : stmt.All P D) :
    stmt.All P' D' := by
  induction stmt using Stmt.ind with
  | vars span kind decls =>
    intro decl hm
    exact ⟨hD _ _ (h decl hm).1, fun init hi => hP _ ((h decl hm).2 init hi)⟩
  | expr span value => exact hP _ h
  | ret span value => exact fun result hr => hP _ (h result hr)
  | ifElse span condition thenBranch elseBranch hThen hElse =>
    obtain ⟨hc, ht, he⟩ := h
    refine ⟨hP _ hc, hThen ht, ?_⟩
    cases elseBranch with
    | none => trivial
    | some branch => exact hElse branch rfl he
  | loop span condition body hBody => exact ⟨hP _ h.1, hBody h.2⟩
  | brk | cont => trivial
  | block span body hBody =>
    exact allList_iff.mpr fun stmt hm => hBody stmt hm (allList_iff.mp h stmt hm)
  | staged span before body hBefore hBody =>
    exact ⟨allList_iff.mpr fun stmt hm => hBefore stmt hm (allList_iff.mp h.1 stmt hm), hBody h.2⟩

theorem all_trivial (stmt : Stmt) : stmt.All (fun _ => True) fun _ _ => True := by
  induction stmt using Stmt.ind with
  | vars span kind decls => exact fun decl _ => ⟨trivial, fun _ _ => trivial⟩
  | expr | brk | cont => trivial
  | ret span value => exact fun _ _ => trivial
  | ifElse span condition thenBranch elseBranch hThen hElse =>
    refine ⟨trivial, hThen, ?_⟩
    cases elseBranch with
    | none => trivial
    | some branch => exact hElse branch rfl
  | loop span condition body hBody => exact ⟨trivial, hBody⟩
  | block span body hBody => exact allList_iff.mpr hBody
  | staged span before body hBefore hBody => exact ⟨allList_iff.mpr hBefore, hBody⟩

theorem All.and {P' : Expr → Prop} {D' : DeclCondition} {stmt : Stmt} (h : stmt.All P D)
    (h' : stmt.All P' D') :
    stmt.All (fun value => P value ∧ P' value) fun name type => D name type ∧ D' name type := by
  induction stmt using Stmt.ind with
  | vars span kind decls =>
    intro decl hm
    exact ⟨⟨(h decl hm).1, (h' decl hm).1⟩, fun init hi => ⟨(h decl hm).2 init hi, (h' decl hm).2 init hi⟩⟩
  | expr span value => exact ⟨h, h'⟩
  | ret span value => exact fun result hr => ⟨h result hr, h' result hr⟩
  | ifElse span condition thenBranch elseBranch hThen hElse =>
    refine ⟨⟨h.1, h'.1⟩, hThen h.2.1 h'.2.1, ?_⟩
    cases elseBranch with
    | none => trivial
    | some branch => exact hElse branch rfl h.2.2 h'.2.2
  | loop span condition body hBody => exact ⟨⟨h.1, h'.1⟩, hBody h.2 h'.2⟩
  | brk | cont => trivial
  | block span body hBody =>
    exact allList_iff.mpr fun stmt hm =>
      hBody stmt hm (allList_iff.mp h stmt hm) (allList_iff.mp h' stmt hm)
  | staged span before body hBefore hBody =>
    refine ⟨allList_iff.mpr fun stmt hm => ?_, hBody h.2 h'.2⟩
    exact hBefore stmt hm (allList_iff.mp h.1 stmt hm) (allList_iff.mp h'.1 stmt hm)

theorem AllList.imp {P' : Expr → Prop} {D' : DeclCondition} (hP : ∀ value, P value → P' value)
    (hD : ∀ name type, D name type → D' name type) {body : List Stmt} (h : AllList P D body) :
    AllList P' D' body :=
  allList_iff.mpr fun stmt hm => (allList_iff.mp h stmt hm).imp hP hD

theorem AllList.and {P' : Expr → Prop} {D' : DeclCondition} {body : List Stmt}
    (h : AllList P D body) (h' : AllList P' D' body) :
    AllList (fun value => P value ∧ P' value) (fun name type => D name type ∧ D' name type) body :=
  allList_iff.mpr fun stmt hm => (allList_iff.mp h stmt hm).and (allList_iff.mp h' stmt hm)

end Lists

end Stmt

/-- Every variable of a statement has an annotation. -/
abbrev Stmt.Annotated (stmt : Stmt) : Prop := stmt.All (fun _ => True) fun _ type => type.isSome

end NativeLowering
