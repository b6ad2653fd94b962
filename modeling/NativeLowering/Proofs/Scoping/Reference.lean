import NativeLowering.Proofs.Success
import NativeLowering.Proofs.Syntax.Bodies

/-!
# Scopes of a body

Four parts of lowering go through a body and keep track of the variables in scope, each in its own
way. This module says what they keep track of: a variable is in scope from the end of its own
declarator to the end of the block, branch or loop body around it. With these scopes a body is read
(`Stmt.read`), for its expressions (`Stmt.values`) or for its declarators (`Stmt.declarators`).

The expressions of a statement are those it is built from. All parts of an expression have the same
variables in scope.
-/

set_option autoImplicit false

namespace NativeLowering

/-- Variables with their types, the one that a lookup meets first in front. -/
abbrev Bindings := List (String × Ty)

/-- A part of a body, with the variables in scope there. -/
structure Occurrence (α : Type) where
  visible : Bindings
  node : α

/-- A part of a body, with the local bindings of a walk that has come to it. -/
structure Visited (α : Type) where
  locals : Locals
  node : α

/-- What the walk sees there. -/
def Visited.occurrence {α : Type} (visited : Visited α) : Occurrence α :=
  ⟨visited.locals.visible, visited.node⟩

/-! ## Reading a body with its scopes -/

/-- How a part of a body is read: what is found in it and which variables are in scope after it, both
from the variables in scope before it. -/
structure Reading (α : Type) where
  found : Bindings → List α
  after : Bindings → Bindings

namespace Reading

variable {α : Type}

/-- What leaves the scope alone. -/
def leaf (found : Bindings → List α) : Reading α := ⟨found, id⟩

def nothing : Reading α := leaf fun _ => []

/-- What is in scope from there on. -/
def binding (after : Bindings → Bindings) : Reading α := ⟨fun _ => [], after⟩

/-- One part after another, which is in the scope of what the first declares. -/
def andThen (first second : Reading α) : Reading α where
  found visible := first.found visible ++ second.found (first.after visible)
  after visible := second.after (first.after visible)

/-- A block, branch or loop body: what it declares ends with it. -/
def inside (inner : Reading α) : Reading α := ⟨inner.found, id⟩

theorem andThen_assoc (first second third : Reading α) :
    (first.andThen second).andThen third = first.andThen (second.andThen third) := by
  simp [andThen, List.append_assoc]

@[simp] theorem andThen_nothing (reading : Reading α) : reading.andThen nothing = reading := by
  simp [andThen, nothing, leaf]

end Reading

/-- The variables in scope after a declarator: its own in front of those before it. -/
def VariableDecl.bind (model : Model) (visible : Bindings) (decl : VariableDecl) : Bindings :=
  match decl.name.ident? with
  | none => visible
  | some name => (name, model.typeFromOption decl.type) :: visible

section Reading

variable {α : Type} (model : Model) (onValue : Bindings → Expr → List α)
  (onDecl : Bindings → VariableDecl → List α)

/-- An expression that may be absent. -/
def readOption : Option Expr → Reading α
  | none => .nothing
  | some value => .leaf (onValue · value)

/-- A variable is not in scope in its own initial value. -/
def VariableDecl.read (decl : VariableDecl) : Reading α :=
  (Reading.leaf (onDecl · decl)).andThen
    ((readOption onValue decl.init).andThen (.binding (decl.bind model)))

def VariableDecl.readAll : List VariableDecl → Reading α
  | [] => .nothing
  | decl :: rest => (decl.read model onValue onDecl).andThen (VariableDecl.readAll rest)

namespace Stmt

mutual

/-- What the expressions and declarators of a statement come to at the variables in scope there, in
the order they are written. -/
def read : Stmt → Reading α
  | .vars _ _ decls => VariableDecl.readAll model onValue onDecl decls
  | .expr _ value => .leaf (onValue · value)
  | .ret _ value => readOption onValue value
  | .ifElse _ condition thenBranch elseBranch =>
    (Reading.leaf (onValue · condition)).andThen
      ((read thenBranch).inside.andThen (readElse elseBranch))
  | .loop _ condition body => (Reading.leaf (onValue · condition)).andThen (read body).inside
  | .brk _ => .nothing
  | .cont _ => .nothing
  | .block _ body => (readAll body).inside
  | .staged _ before body => (readAll before).andThen (read body)

def readElse : Option Stmt → Reading α
  | none => .nothing
  | some branch => (read branch).inside

def readAll : List Stmt → Reading α
  | [] => .nothing
  | stmt :: rest => (read stmt).andThen (readAll rest)

end

variable {model onValue onDecl}

theorem readAll_append : ∀ first second : List Stmt,
    readAll model onValue onDecl (first ++ second)
      = (readAll model onValue onDecl first).andThen (readAll model onValue onDecl second)
  | [], second => rfl
  | stmt :: rest, second => by
    rw [List.cons_append, readAll, readAll, readAll_append, Reading.andThen_assoc]

theorem read_withSpan (span : Span) (stmt : Stmt) :
    (stmt.withSpan span).read model onValue onDecl = stmt.read model onValue onDecl := by
  cases stmt <;> rfl

end Stmt

end Reading

/-! ### Expressions and declarators -/

section

variable (model : Model)

abbrev Expr.valuesOption : Option Expr → Reading (Occurrence Expr) :=
  readOption fun visible value => [⟨visible, value⟩]

abbrev VariableDecl.values : VariableDecl → Reading (Occurrence Expr) :=
  VariableDecl.read model (fun visible value => [⟨visible, value⟩]) fun _ _ => []

abbrev VariableDecl.valuesAll : List VariableDecl → Reading (Occurrence Expr) :=
  VariableDecl.readAll model (fun visible value => [⟨visible, value⟩]) fun _ _ => []

/-- The expressions of a statement, with the variables in scope at each. -/
abbrev Stmt.values : Stmt → Reading (Occurrence Expr) :=
  Stmt.read model (fun visible value => [⟨visible, value⟩]) fun _ _ => []

abbrev Stmt.valuesElse : Option Stmt → Reading (Occurrence Expr) :=
  Stmt.readElse model (fun visible value => [⟨visible, value⟩]) fun _ _ => []

abbrev Stmt.valuesAll : List Stmt → Reading (Occurrence Expr) :=
  Stmt.readAll model (fun visible value => [⟨visible, value⟩]) fun _ _ => []

theorem Stmt.valuesAll_append (first second : List Stmt) : Stmt.valuesAll model (first ++ second)
    = (Stmt.valuesAll model first).andThen (Stmt.valuesAll model second) :=
  Stmt.readAll_append first second

abbrev VariableDecl.declaratorsAll : List VariableDecl → Reading (Occurrence VariableDecl) :=
  VariableDecl.readAll model (fun _ _ => []) fun visible decl => [⟨visible, decl⟩]

/-- The declarators of a statement, with the variables in scope before each. -/
abbrev Stmt.declarators : Stmt → Reading (Occurrence VariableDecl) :=
  Stmt.read model (fun _ _ => []) fun visible decl => [⟨visible, decl⟩]

abbrev Stmt.declaratorsElse : Option Stmt → Reading (Occurrence VariableDecl) :=
  Stmt.readElse model (fun _ _ => []) fun visible decl => [⟨visible, decl⟩]

abbrev Stmt.declaratorsAll : List Stmt → Reading (Occurrence VariableDecl) :=
  Stmt.readAll model (fun _ _ => []) fun visible decl => [⟨visible, decl⟩]

end

/-! ## Bindings of a walk -/

/-- Local bindings in which a variable can be declared: a frame is open. -/
def Locals.Open (locals : Locals) : Prop := locals.frames ≠ []

theorem Locals.Open.start (thisClass : Option String) : (Locals.start thisClass).Open :=
  List.cons_ne_nil _ _

theorem Locals.Open.push (locals : Locals) (kind : FrameKind) : (locals.push kind).Open :=
  List.cons_ne_nil _ _

/-- What a walk sees on its way through a part of a body is what is in scope there. -/
structure Sees {α : Type} (reading : Reading (Occurrence α)) (locals : Locals)
    (log : List (Visited α)) (after : Locals) : Prop where
  stays : after.Open
  occurrences : log.map Visited.occurrence = reading.found locals.visible
  visible : after.visible = reading.after locals.visible

namespace Sees

variable {α : Type} {reading first second : Reading (Occurrence α)} {locals between after : Locals}
  {log more : List (Visited α)}

theorem nothing (h : locals.Open) :
    Sees (.nothing : Reading (Occurrence α)) locals [] locals := ⟨h, rfl, rfl⟩

theorem leaf (h : locals.Open) (node : α) :
    Sees (.leaf fun visible => [⟨visible, node⟩]) locals [⟨locals, node⟩] locals := ⟨h, rfl, rfl⟩

/-- An annotated variable is bound as it is read. -/
theorem declare {model : Model} {decl : VariableDecl} (hopen : locals.Open)
    (htype : decl.type.isSome = true) :
    Sees (.binding (decl.bind model) : Reading (Occurrence α)) locals []
      (declareLocal model locals decl) := by
  obtain ⟨node, hnode⟩ := Option.isSome_iff_exists.mp htype
  unfold declareLocal VariableDecl.bind
  cases hname : decl.name.ident? with
  | none => exact ⟨hopen, rfl, rfl⟩
  | some name =>
    refine ⟨Locals.declare_frames_ne_nil hopen name _, rfl, ?_⟩
    rw [Locals.visible_declare hopen]
    simp only [Model.declaredType, hnode, Model.typeFromOption, Reading.binding]

theorem andThen (h : Sees first locals log between) (h' : Sees second between more after) :
    Sees (first.andThen second) locals (log ++ more) after where
  stays := h'.stays
  occurrences := by
    rw [List.map_append, h.occurrences, h'.occurrences, h.visible, Reading.andThen]
  visible := by rw [h'.visible, h.visible, Reading.andThen]

theorem inside {kind : FrameKind} (hopen : locals.Open)
    (h : Sees reading (locals.push kind) log after) : Sees reading.inside locals log locals :=
  ⟨hopen, h.occurrences, rfl⟩

end Sees

/-! ## Insertions -/

/-- The second list is the first with members put in that meet a condition. -/
inductive Inserted {α : Type} (P : α → Prop) : List α → List α → Prop where
  | nil : Inserted P [] []
  | keep {first second : List α} (value : α) : Inserted P first second →
    Inserted P (value :: first) (value :: second)
  | insert {first second : List α} {value : α} : P value → Inserted P first second →
    Inserted P first (value :: second)

namespace Inserted

variable {α : Type} {P : α → Prop} {first second third fourth : List α}

theorem refl : ∀ list : List α, Inserted P list list
  | [] => .nil
  | value :: rest => .keep value (refl rest)

theorem append (h : Inserted P first second) (h' : Inserted P third fourth) :
    Inserted P (first ++ third) (second ++ fourth) := by
  induction h with
  | nil => exact h'
  | keep value _ ih => exact .keep value ih
  | insert hvalue _ ih => exact .insert hvalue ih

theorem imp {Q : α → Prop} (h : ∀ value, P value → Q value) (hlist : Inserted P first second) :
    Inserted Q first second := by
  induction hlist with
  | nil => exact .nil
  | keep value _ ih => exact .keep value ih
  | insert hvalue _ ih => exact .insert (h _ hvalue) ih

/-- If nothing can be put in, the lists are the same. -/
theorem eq_of_not (hlist : Inserted P first second) (h : ∀ value, ¬ P value) : second = first := by
  induction hlist with
  | nil => rfl
  | keep value _ ih => rw [ih]
  | insert hvalue => exact absurd hvalue (h _)

theorem mem (h : Inserted P first second) {value : α} (hvalue : value ∈ first) :
    value ∈ second := by
  induction h with
  | nil => exact hvalue
  | keep other _ ih =>
    rcases List.mem_cons.mp hvalue with rfl | hvalue
    · exact List.mem_cons_self
    · exact List.mem_cons_of_mem _ (ih hvalue)
  | insert _ _ ih => exact List.mem_cons_of_mem _ (ih hvalue)

theorem mem_or (h : Inserted P first second) {value : α} (hvalue : value ∈ second) :
    value ∈ first ∨ P value := by
  induction h with
  | nil => exact .inl hvalue
  | keep other _ ih =>
    rcases List.mem_cons.mp hvalue with rfl | hvalue
    · exact .inl List.mem_cons_self
    · exact (ih hvalue).imp (List.mem_cons_of_mem _) id
  | insert hother _ ih =>
    rcases List.mem_cons.mp hvalue with rfl | hvalue
    · exact .inr hother
    · exact ih hvalue

theorem filter_eq {p : α → Bool} (h : Inserted P first second)
    (hnot : ∀ value, P value → p value = false) : second.filter p = first.filter p := by
  induction h with
  | nil => rfl
  | keep value _ ih => rw [List.filter_cons, List.filter_cons, ih]
  | insert hvalue _ ih => rw [List.filter_cons, hnot _ hvalue, ih]; rfl

end Inserted

/-! ## Computations with a log -/

/-- Without its log the computation is the given one. -/
def Erases {m : Type → Type} [Monad m] {α ω : Type} (logged : m (α × ω)) (plain : m α) : Prop :=
  Prod.fst <$> logged = plain

namespace Erases

variable {m : Type → Type} [Monad m] [LawfulMonad m] {α β ω ω' : Type}

theorem pure (value : α) (log : ω) :
    Erases (Pure.pure (value, log) : m (α × ω)) (Pure.pure value) := map_pure _ _

theorem bind {logged : m (α × ω)} {plain : m α} (h : Erases logged plain)
    {next : α × ω → m (β × ω')} {next' : α → m β}
    (hnext : ∀ entry, Erases (next entry) (next' entry.1)) :
    Erases (logged >>= next) (plain >>= next') := by
  have hafter : ∀ entry, Prod.fst <$> next entry = next' entry.1 := hnext
  unfold Erases at h ⊢
  rw [← h, map_bind, bind_map_left]
  exact bind_congr hafter

/-- A step without a log comes first. -/
theorem after {plain : m α} {next : α → m (β × ω)} {next' : α → m β}
    (hnext : ∀ value, Erases (next value) (next' value)) :
    Erases (plain >>= next) (plain >>= next') := by
  have hafter : ∀ value, Prod.fst <$> next value = next' value := hnext
  unfold Erases
  rw [map_bind]
  exact bind_congr hafter

/-- A step without a log comes last. -/
theorem last {step : m Unit} (log : ω) :
    Erases (step >>= fun _ => Pure.pure ((), log)) step := by
  unfold Erases
  simp only [map_bind, map_pure]
  exact bind_pure step

/-- The log may change afterwards. -/
theorem relog {logged : m (α × ω)} {plain : m α} (h : Erases logged plain) (change : ω → ω') :
    Erases (logged >>= fun entry => Pure.pure (entry.1, change entry.2)) plain := by
  have hpure : Erases (logged >>= fun entry => Pure.pure (entry.1, change entry.2))
      (plain >>= Pure.pure) := h.bind fun entry => .pure entry.1 (change entry.2)
  rwa [bind_pure] at hpure

/-- A computation succeeds exactly if it does with its log. -/
theorem eq_ok {logged : Lowered (α × ω)} {plain : Lowered α} (h : Erases logged plain) {result : α} :
    plain = .ok result ↔ ∃ log, logged = .ok (result, log) := by
  obtain rfl : Except.map Prod.fst logged = plain := h
  rw [Lowered.map_eq_ok]
  constructor
  · rintro ⟨⟨_, log⟩, hlogged, rfl⟩
    exact ⟨log, hlogged⟩
  · rintro ⟨log, hlogged⟩
    exact ⟨_, hlogged, rfl⟩

end Erases

end NativeLowering
