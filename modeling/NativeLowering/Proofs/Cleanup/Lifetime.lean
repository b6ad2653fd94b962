import NativeLowering.Proofs.Address.Fresh
import NativeLowering.Proofs.Cleanup.Paths
import NativeLowering.Proofs.Scoping.Reference

/-!
# What is read after it is destroyed

A destructor call stands in front of the exit it was added for. A return with a value evaluates that
value after the calls, so the value may well read a variable that one of them has destroyed
(`returned_after_destroyed`). Nothing else does: `run_reads_live` follows every path through a body
in which no declaration takes a name that is in scope.

`Trail` has the paths of `Path`, with what happens along them: declarations, added calls and
evaluations, each with the variables in scope. A name that is not in scope where it is written means
no variable, so it reads none (`Occurrence.Mentions`). The loop condition of
`while (x) { let x: Foo; }` is such a case.

The invariant is that no destroyed variable is in scope (`Quiet`). It breaks where the calls for an
exit stand, and is restored where the exit leads to: the frames it leaves have their variables out of
scope. For a break this needs the scope in which each open frame was entered (`Opened`).
-/

set_option autoImplicit false

namespace NativeLowering

/-- The names of variables, the one that a lookup meets first in front. -/
def Bindings.names (visible : Bindings) : List String := visible.map Prod.fst

/-- An expression mentions a variable: one of its identifiers is the name, which is in scope. -/
def Occurrence.Mentions (there : Occurrence Expr) (name : String) : Prop :=
  name ∈ Address.identifiers there.node ∧ name ∈ there.visible.names

/-- No declaration of the body takes a name that is in scope. -/
def Unshadowed (model : Model) (visible : Bindings) (body : List Stmt) : Prop :=
  ∀ there ∈ (Stmt.declaratorsAll model body).found visible, ∀ name,
    there.node.name.ident? = some name → name ∉ there.visible.names

namespace Cleanup

open Marked (ofStmt ofStmts)

/-! ## What happens along a path -/

/-- Something that happens along a path. -/
inductive Event where
  | declared (name : String)
  /-- An added call destroys the variable of a name. -/
  | destroyed (name : String)
  /-- An expression is evaluated that is not the value of a return. -/
  | evaluated (there : Occurrence Expr)
  /-- The value of a return is evaluated. -/
  | returned (there : Occurrence Expr)

namespace Event

/-- What happens mentions a variable. An added call mentions the variable that it destroys. -/
def Reads (name : String) : Event → Prop
  | .declared _ => False
  | .destroyed own => own = name
  | .evaluated there | .returned there => there.Mentions name

def isReturn : Event → Bool
  | .returned _ => true
  | .declared _ | .destroyed _ | .evaluated _ => false

def isDestruction : Event → Bool
  | .destroyed _ => true
  | .declared _ | .evaluated _ | .returned _ => false

end Event

/-- A declarator: its initial value is evaluated, then its name is declared. -/
def declEvents (visible : Bindings) (decl : VariableDecl) : List Event :=
  (decl.init.toList.map fun value => .evaluated ⟨visible, value⟩) ++
    decl.name.ident?.toList.map .declared

/-- Declarators in order. -/
def declsEvents (model : Model) : Bindings → List VariableDecl → List Event
  | _, [] => []
  | visible, decl :: rest =>
    declEvents visible decl ++ declsEvents model (decl.bind model visible) rest

/-- A path through code: from the variables in scope to how it ends and the variables in scope there,
with what happens. -/
inductive Trail (model : Model) : Code → Bindings → Ending → Bindings → List Event → Prop
  | added {span : Span} {target : Target} {visible : Bindings} :
      Trail model (.stmt (.added span target)) visible .done visible [.destroyed target.name]
  | vars {span : Span} {kind : VariableKind} {decls : List VariableDecl} {visible : Bindings} :
      Trail model (.stmt (.vars span kind decls)) visible .done
        (decls.foldl (VariableDecl.bind model) visible) (declsEvents model visible decls)
  | expr {span : Span} {value : Expr} {visible : Bindings} :
      Trail model (.stmt (.expr span value)) visible .done visible [.evaluated ⟨visible, value⟩]
  | ret {span : Span} {value : Option Expr} {visible : Bindings} :
      Trail model (.stmt (.ret span value)) visible .ret visible
        (value.toList.map fun value => .returned ⟨visible, value⟩)
  | brk {span : Span} {visible : Bindings} :
      Trail model (.stmt (.brk span)) visible .brk visible []
  | cont {span : Span} {visible : Bindings} :
      Trail model (.stmt (.cont span)) visible .cont visible []
  | thenBranch {span : Span} {condition : Expr} {branch : Marked} {other : Option Marked}
      {visible inner : Bindings} {ending : Ending} {log : List Event} :
      Trail model (.list branch.branchBody) visible ending inner log →
      Trail model (.stmt (.ifElse span condition branch other)) visible ending visible
        (.evaluated ⟨visible, condition⟩ :: log)
  | elseBranch {span : Span} {condition : Expr} {other branch : Marked}
      {visible inner : Bindings} {ending : Ending} {log : List Event} :
      Trail model (.list branch.branchBody) visible ending inner log →
      Trail model (.stmt (.ifElse span condition other (some branch))) visible ending visible
        (.evaluated ⟨visible, condition⟩ :: log)
  | noBranch {span : Span} {condition : Expr} {other : Marked} {visible : Bindings} :
      Trail model (.stmt (.ifElse span condition other none)) visible .done visible
        [.evaluated ⟨visible, condition⟩]
  | block {span : Span} {body : List Marked} {visible inner : Bindings} {ending : Ending}
      {log : List Event} :
      Trail model (.list body) visible ending inner log →
      Trail model (.stmt (.block span body)) visible ending visible log
  | leave {span : Span} {condition : Expr} {body : Marked} {visible : Bindings} :
      Trail model (.stmt (.loop span condition body)) visible .done visible
        [.evaluated ⟨visible, condition⟩]
  | again {span : Span} {condition : Expr} {body : Marked} {visible inner after : Bindings}
      {round ending : Ending} {log more : List Event} :
      Trail model (.list body.branchBody) visible round inner log →
      round = .done ∨ round = .cont →
      Trail model (.stmt (.loop span condition body)) visible ending after more →
      Trail model (.stmt (.loop span condition body)) visible ending after
        (.evaluated ⟨visible, condition⟩ :: (log ++ more))
  | broken {span : Span} {condition : Expr} {body : Marked} {visible inner : Bindings}
      {log : List Event} :
      Trail model (.list body.branchBody) visible .brk inner log →
      Trail model (.stmt (.loop span condition body)) visible .done visible
        (.evaluated ⟨visible, condition⟩ :: log)
  | through {span : Span} {condition : Expr} {body : Marked} {visible inner : Bindings}
      {ending : Ending} {log : List Event} :
      Trail model (.list body.branchBody) visible ending inner log →
      ending = .ret ∨ ending = .cut →
      Trail model (.stmt (.loop span condition body)) visible ending visible
        (.evaluated ⟨visible, condition⟩ :: log)
  | nil {visible : Bindings} : Trail model (.list []) visible .done visible []
  | cut {stmts : List Marked} {visible : Bindings} :
      Trail model (.list stmts) visible .cut visible []
  | cons {stmt : Marked} {rest : List Marked} {visible middle after : Bindings} {ending : Ending}
      {log more : List Event} :
      Trail model (.stmt stmt) visible .done middle log →
      Trail model (.list rest) middle ending after more →
      Trail model (.list (stmt :: rest)) visible ending after (log ++ more)
  | stop {stmt : Marked} {rest : List Marked} {visible after : Bindings} {ending : Ending}
      {log : List Event} :
      Trail model (.stmt stmt) visible ending after log → ending ≠ .done →
      Trail model (.list (stmt :: rest)) visible ending after log

/-! ## What is gone -/

/-- The names of the variables that are destroyed and not declared again. -/
structure Gone where
  /-- Those that were destroyed before the calls just made. -/
  earlier : List String
  /-- Those that the calls just made have destroyed. -/
  latest : List String

namespace Gone

def all (gone : Gone) : List String := gone.latest ++ gone.earlier

def step (gone : Gone) : Event → Gone
  | .declared name => ⟨gone.all.filter (· ≠ name), []⟩
  | .destroyed name => ⟨gone.earlier, name :: gone.latest⟩
  | .evaluated _ | .returned _ => ⟨gone.all, []⟩

def after (gone : Gone) (log : List Event) : Gone := log.foldl step gone

/-- What happens reads nothing that is gone. The value of a return is excused where calls have just
been made. -/
def Spared (gone : Gone) : Event → Prop
  | .declared _ => True
  | .destroyed name => name ∉ gone.all
  | .evaluated there => ∀ name ∈ gone.all, ¬ there.Mentions name
  | .returned there => ∀ name ∈ gone.earlier, ¬ there.Mentions name

/-- The same for all that happens along a path. -/
def SparedBy : Gone → List Event → Prop
  | _, [] => True
  | gone, event :: rest => gone.Spared event ∧ (gone.step event).SparedBy rest

variable {gone : Gone} {name : String}

theorem sparedBy_append {more : List Event} : ∀ {log : List Event} {gone : Gone},
    gone.SparedBy (log ++ more) ↔ gone.SparedBy log ∧ (gone.after log).SparedBy more
  | [], _ => by simp [SparedBy, after]
  | event :: rest, gone => by
    simp only [List.cons_append, SparedBy, @sparedBy_append more rest, and_assoc, after,
      List.foldl_cons]

theorem after_cons (event : Event) (log : List Event) :
    gone.after (event :: log) = (gone.step event).after log := rfl

@[simp] theorem after_append (log more : List Event) :
    gone.after (log ++ more) = (gone.after log).after more :=
  List.foldl_append

/-- Only a declaration brings a name back. -/
theorem mem_all_after : ∀ {log : List Event} {gone : Gone}, name ∈ gone.all →
    .declared name ∉ log → name ∈ (gone.after log).all
  | [], _, h, _ => h
  | event :: rest, gone, h, hlog => by
    rw [List.mem_cons, not_or] at hlog
    show name ∈ ((gone.step event).after rest).all
    refine mem_all_after ?_ hlog.2
    cases event with
    | declared own =>
      have hne : name ≠ own := fun heq => hlog.1 (heq ▸ rfl)
      simpa [step, all, hne] using h
    | destroyed own => exact List.mem_cons_of_mem _ h
    | evaluated => simpa [step, all] using h
    | returned => simpa [step, all] using h

/-- A name that is gone was destroyed by the calls just made only if nothing has happened since but
calls. -/
theorem mem_earlier_after : ∀ {log : List Event} {gone : Gone}, name ∈ gone.all →
    .declared name ∉ log → (name ∈ gone.earlier ∨ ∃ event ∈ log, event.isDestruction = false) →
    name ∈ (gone.after log).earlier
  | [], _, _, _, h => h.elim id fun ⟨_, hm, _⟩ => nomatch hm
  | event :: rest, gone, hall, hlog, h => by
    have hnext : name ∈ (gone.after [event]).all :=
      mem_all_after hall fun hm => hlog (by simp_all)
    rw [List.mem_cons, not_or] at hlog
    show name ∈ ((gone.step event).after rest).earlier
    refine mem_earlier_after hnext hlog.2 ?_
    cases event with
    | destroyed own =>
      rcases h with h | ⟨other, hm, hother⟩
      · exact Or.inl h
      · rcases List.mem_cons.mp hm with rfl | hm
        · cases hother
        · exact Or.inr ⟨other, hm, hother⟩
    | declared own => exact Or.inl (by simpa [after, step, all] using hnext)
    | evaluated => exact Or.inl (by simpa [after, step, all] using hnext)
    | returned => exact Or.inl (by simpa [after, step, all] using hnext)

/-- What a log that spares everything says of a single call and a later event. -/
theorem SparedBy.reads {before between rest : List Event} {event : Event}
    (h : gone.SparedBy (before ++ .destroyed name :: (between ++ event :: rest)))
    (hbetween : .declared name ∉ between) (hreads : event.Reads name) :
    event.isReturn = true ∧ ∀ other ∈ between, other.isDestruction = true := by
  obtain ⟨-, h⟩ := sparedBy_append.mp h
  obtain ⟨hevent, -⟩ := (sparedBy_append.mp h.2).2
  have hmem : name ∈ (((gone.after before).step (.destroyed name)).after between).all :=
    mem_all_after (List.mem_cons_self ..) hbetween
  cases event with
  | declared => exact absurd hreads id
  | destroyed own =>
    cases hreads
    exact absurd hmem hevent
  | evaluated there => exact absurd hreads (hevent name hmem)
  | returned there =>
    refine ⟨rfl, fun other hother => ?_⟩
    by_contra hno
    refine hevent name (mem_earlier_after (List.mem_cons_self ..) hbetween
      (Or.inr ⟨other, hother, by simpa using hno⟩)) hreads

/-- Calls for distinct variables that are not gone. -/
theorem sparedBy_destroyed : ∀ {names : List String} {gone : Gone}, names.Nodup →
    (∀ name ∈ names, name ∉ gone.all) →
    gone.SparedBy (names.map .destroyed) ∧
      gone.after (names.map .destroyed) = ⟨gone.earlier, names.reverse ++ gone.latest⟩
  | [], _, _, _ => ⟨trivial, rfl⟩
  | name :: rest, gone, hnodup, hnew => by
    rw [List.nodup_cons] at hnodup
    have hrest : ∀ other ∈ rest, other ∉ (gone.step (.destroyed name)).all := by
      intro other hm hgone
      rcases List.mem_cons.mp hgone with rfl | hgone
      · exact hnodup.1 hm
      · exact hnew other (List.mem_cons_of_mem _ hm) hgone
    obtain ⟨hspared, hafter⟩ := sparedBy_destroyed hnodup.2 hrest
    refine ⟨⟨hnew name (List.mem_cons_self ..), hspared⟩, ?_⟩
    rw [List.map_cons, after, List.foldl_cons]
    simpa [after, step] using hafter

end Gone

/-! ## Variables in scope and open frames -/

/-- No variable in scope is gone. -/
def Quiet (gone : Gone) (visible : Bindings) : Prop := ∀ name ∈ gone.all, name ∉ visible.names

theorem Quiet.spared {gone : Gone} {visible : Bindings} (h : Quiet gone visible) (value : Expr) :
    gone.Spared (.evaluated ⟨visible, value⟩) :=
  fun name hm hmention => h name hm hmention.2

theorem Quiet.evaluated {gone : Gone} {visible : Bindings} (h : Quiet gone visible)
    (there : Occurrence Expr) : Quiet (gone.step (.evaluated there)) visible :=
  fun name hm => h name (by simpa [Gone.step, Gone.all] using hm)

/-- Frames, each with the variables in scope where it was entered: those to be destroyed in the frame
have been declared since, each under a name of its own. -/
def Opened : List MarkedFrame → List Bindings → Bindings → Prop
  | frame :: outer, entry :: entries, visible =>
    (frame.targets.map Target.name).Nodup ∧
      (∀ name ∈ frame.targets.map Target.name, name ∈ visible.names ∧ name ∉ entry.names) ∧
      entry.names ⊆ visible.names ∧ Opened outer entries entry
  | [], [], _ => True
  | _, _, _ => False

/-- The variables in scope where the innermost loop was entered, as far as there is one. -/
def loopEntry : List MarkedFrame → List Bindings → Bindings
  | frame :: outer, entry :: entries =>
    if frame.kind = .loop then entry else loopEntry outer entries
  | _, _ => []

theorem Opened.enter {frames : List MarkedFrame} {entries : List Bindings} {visible : Bindings}
    (h : Opened frames entries visible) (kind : FrameKind) :
    Opened (⟨kind, []⟩ :: frames) (visible :: entries) visible :=
  ⟨List.nodup_nil, nofun, List.Subset.refl _, h⟩

theorem loopEntry_subset : ∀ {frames : List MarkedFrame} {entries : List Bindings}
    {visible : Bindings}, Opened frames entries visible →
    (loopEntry frames entries).names ⊆ visible.names
  | [], [], _, _ => nofun
  | frame :: outer, entry :: entries, visible, h => by
    rw [loopEntry]
    split
    · exact h.2.2.1
    · exact List.Subset.trans (loopEntry_subset h.2.2.2) h.2.2.1

/-- The variables that an exit destroys are in scope, under names of their own; where a loop exit
leads to they are not. -/
theorem Opened.exitTargets : ∀ {frames : List MarkedFrame} {entries : List Bindings}
    {visible : Bindings}, Opened frames entries visible → ∀ exit : Exit,
    ((exitTargets exit frames).map Target.name).Nodup ∧
      ∀ name ∈ (Cleanup.exitTargets exit frames).map Target.name, name ∈ visible.names ∧
        (exit = .loop → name ∉ (loopEntry frames entries).names)
  | [], [], _, _, _ => ⟨List.nodup_nil, nofun⟩
  | frame :: outer, entry :: entries, visible, h, exit => by
    obtain ⟨hnodup, hown, hsubset, houter⟩ := h
    by_cases hloop : exit = .loop ∧ frame.kind = .loop
    · simp only [Cleanup.exitTargets, hloop, and_self, if_true, List.append_nil, loopEntry]
      exact ⟨hnodup, fun name hm => ⟨(hown name hm).1, fun _ => (hown name hm).2⟩⟩
    · obtain ⟨hrest, hmem⟩ := Opened.exitTargets houter exit
      simp only [Cleanup.exitTargets, hloop, if_false, List.map_append]
      have hskip (hexit : exit = .loop) : loopEntry (frame :: outer) (entry :: entries)
          = loopEntry outer entries := if_neg fun hkind => hloop ⟨hexit, hkind⟩
      refine ⟨List.nodup_append.mpr ⟨hnodup, hrest, ?_⟩, fun name hm => ?_⟩
      · rintro name hm other hother rfl
        exact (hown name hm).2 (hmem name hother).1
      · rcases List.mem_append.mp hm with hm | hm
        · refine ⟨(hown name hm).1, fun hexit hentry => (hown name hm).2 ?_⟩
          rw [hskip hexit] at hentry
          exact loopEntry_subset houter hentry
        · refine ⟨hsubset (hmem name hm).1, fun hexit => ?_⟩
          rw [hskip hexit]
          exact (hmem name hm).2 hexit

section Sparing

variable {model : Model} {policy : DestructorPolicy} {visible : Bindings} {gone : Gone}

/-- Declaring a variable of a new name keeps the frames apart. -/
theorem Opened.declare {scope : MarkedScope} {entries : List Bindings} {decl : VariableDecl}
    (h : Opened scope.frames entries visible)
    (hnew : ∀ name, decl.name.ident? = some name → name ∉ visible.names) :
    Opened (scope.declare model policy decl).frames entries (decl.bind model visible) := by
  cases hname : decl.name.ident? with
  | none => simpa [MarkedScope.declare, VariableDecl.bind, hname] using h
  | some name =>
    have hfresh := hnew name hname
    cases entries with
    | nil => exact absurd h id
    | cons entry entries =>
      obtain ⟨hnodup, hown, hsubset, houter⟩ := h
      have hvisible : (decl.bind model visible).names = name :: visible.names := by
        simp [VariableDecl.bind, hname, Bindings.names]
      have hentry : entry.names ⊆ (decl.bind model visible).names := by
        rw [hvisible]
        exact List.subset_cons_of_subset _ hsubset
      have hstay : ∀ other ∈ scope.frame.targets.map Target.name,
          other ∈ (decl.bind model visible).names ∧ other ∉ entry.names := fun other hm => by
        rw [hvisible]
        exact ⟨List.mem_cons_of_mem _ (hown other hm).1, (hown other hm).2⟩
      by_cases hd : isDestructible model policy (model.declaredType scope.locals decl) = true
      · simp only [MarkedScope.declare, hname, hd, if_true, MarkedScope.frames]
        refine ⟨?_, ?_, hentry, houter⟩
        · exact List.nodup_cons.mpr ⟨fun hm => hfresh (hown name hm).1, hnodup⟩
        · rintro other (_ | ⟨_, hm⟩)
          · exact ⟨by simp [hvisible], fun hm => hfresh (hsubset hm)⟩
          · exact hstay other hm
      · simp only [MarkedScope.declare, hname, hd, MarkedScope.frames]
        exact ⟨hnodup, hstay, hentry, houter⟩

theorem declaratorsAll_cons (decl : VariableDecl) (rest : List VariableDecl) (visible : Bindings) :
    (VariableDecl.declaratorsAll model (decl :: rest)).found visible
      = ⟨visible, decl⟩ ::
        (VariableDecl.declaratorsAll model rest).found (decl.bind model visible) := by
  obtain ⟨_, _, _, init⟩ := decl
  cases init <;> rfl

theorem declaratorsAll_after : ∀ (decls : List VariableDecl) (visible : Bindings),
    (VariableDecl.declaratorsAll model decls).after visible
      = decls.foldl (VariableDecl.bind model) visible
  | [], _ => rfl
  | ⟨span, name, type, init⟩ :: rest, visible => by
    rw [List.foldl_cons, ← declaratorsAll_after rest]
    cases init <;> rfl

theorem declEvents_spared {decl : VariableDecl} (hquiet : Quiet gone visible) :
    gone.SparedBy (declEvents visible decl) ∧
      Quiet (gone.after (declEvents visible decl)) (decl.bind model visible) := by
  have hinit : gone.SparedBy (decl.init.toList.map fun value => .evaluated ⟨visible, value⟩) ∧
      Quiet (gone.after (decl.init.toList.map fun value => .evaluated ⟨visible, value⟩)) visible := by
    cases decl.init with
    | none => exact ⟨trivial, hquiet⟩
    | some value => exact ⟨⟨hquiet.spared value, trivial⟩, hquiet.evaluated ⟨visible, value⟩⟩
  rw [declEvents, Gone.sparedBy_append, Gone.after_append]
  cases hname : decl.name.ident? with
  | none =>
    refine ⟨⟨hinit.1, trivial⟩, ?_⟩
    simpa [VariableDecl.bind, hname, Gone.after] using hinit.2
  | some name =>
    refine ⟨⟨hinit.1, trivial, trivial⟩, fun other hm => ?_⟩
    obtain ⟨hgone, hne⟩ := List.mem_filter.mp (show other ∈ List.filter _ _ from hm)
    have hold := hinit.2 other hgone
    simp only [VariableDecl.bind, hname, Bindings.names, List.map_cons, List.mem_cons, not_or]
    exact ⟨by simpa using hne, hold⟩

theorem declsEvents_spared : ∀ {decls : List VariableDecl} {scope : MarkedScope}
    {entries : List Bindings} {visible : Bindings} {gone : Gone},
    (∀ there ∈ (VariableDecl.declaratorsAll model decls).found visible, ∀ name,
      there.node.name.ident? = some name → name ∉ there.visible.names) →
    Opened scope.frames entries visible → Quiet gone visible →
    gone.SparedBy (declsEvents model visible decls) ∧
      Quiet (gone.after (declsEvents model visible decls))
        (decls.foldl (VariableDecl.bind model) visible) ∧
      Opened (decls.foldl (MarkedScope.declare model policy) scope).frames entries
        (decls.foldl (VariableDecl.bind model) visible)
  | [], _, _, _, _, _, hopened, hquiet => ⟨trivial, hquiet, hopened⟩
  | decl :: rest, scope, entries, visible, gone, hnew, hopened, hquiet => by
    rw [declaratorsAll_cons, List.forall_mem_cons] at hnew
    obtain ⟨hspared, hquiet'⟩ : gone.SparedBy (declEvents visible decl) ∧
        Quiet (gone.after (declEvents visible decl)) (decl.bind model visible) :=
      declEvents_spared hquiet
    have hdeclared : Opened (scope.declare model policy decl).frames entries
        (decl.bind model visible) := hopened.declare hnew.1
    obtain ⟨hrest, hafter, hframes⟩ := declsEvents_spared hnew.2 hdeclared hquiet'
    rw [declsEvents, Gone.sparedBy_append, Gone.after_append]
    exact ⟨⟨hspared, hrest⟩, hafter, hframes⟩

/-! ## The invariant along a path -/

/-- Where a path ends, nothing in scope is gone. -/
def Settles (frames : List MarkedFrame) (entries : List Bindings) (gone : Gone) : Ending → Prop
  | .brk | .cont => Quiet gone (loopEntry frames entries)
  | .done | .ret | .cut => True

theorem Settles.sameFrames {before after : MarkedScope} {entries : List Bindings} {ending : Ending}
    (h : SameFrames before after) (hs : Settles after.frames entries gone ending) :
    Settles before.frames entries gone ending := by
  have hentry : loopEntry after.frames entries = loopEntry before.frames entries := by
    cases entries <;> simp only [MarkedScope.frames, loopEntry, h.kind, h.outer]
  cases ending with
  | brk => exact (congrArg (Quiet gone) hentry).mp hs
  | cont => exact (congrArg (Quiet gone) hentry).mp hs
  | done | ret | cut => trivial

/-- Paths through the statements of a list, in any scope, read nothing that is gone. At the end of the
list its own variables are out of scope. -/
def ListSpared (model : Model) (policy : DestructorPolicy) (stmts : List Stmt) : Prop :=
  ∀ {scope : MarkedScope} {entry : Bindings} {entries : List Bindings} {visible after : Bindings}
    {gone : Gone} {span : Span} {ending : Ending} {log : List Event},
    Unshadowed model visible stmts → Opened scope.frames (entry :: entries) visible →
    Quiet gone visible →
    Trail model (.list (markStatements model policy scope span stmts)) visible ending after log →
    gone.SparedBy log ∧ (ending = .done → Quiet (gone.after log) entry) ∧
      Settles scope.frames (entry :: entries) (gone.after log) ending

/-- Paths through a statement that is no exit, in any scope, read nothing that is gone. -/
def StmtSpared (model : Model) (policy : DestructorPolicy) (stmt : Stmt) : Prop :=
  ∀ {scope : MarkedScope} {entries : List Bindings} {visible after : Bindings} {gone : Gone}
    {ending : Ending} {log : List Event}, exitOf? stmt = none →
    Unshadowed model visible [stmt] → Opened scope.frames entries visible → Quiet gone visible →
    Trail model (.stmt (markStatement model policy scope .block stmt).1) visible ending after log →
    gone.SparedBy log ∧ Settles scope.frames entries (gone.after log) ending ∧
      (ending = .done → after = (stmt.declarators model).after visible ∧
        Quiet (gone.after log) after ∧
        SameFrames scope (markStatement model policy scope .block stmt).2 ∧
        Opened (markStatement model policy scope .block stmt).2.frames entries after)

/-- Paths through a statement are such, both as a statement and as the branch of another, where a
block may open a frame of another kind. -/
def ReadsLive (model : Model) (policy : DestructorPolicy) (stmt : Stmt) : Prop :=
  StmtSpared model policy stmt ∧ ListSpared model policy (branchStmts stmt)

/-- A path through added calls makes all of them, or is cut between them. -/
theorem trail_addedCalls {span : Span} {rest : List Marked} {after : Bindings} {ending : Ending} :
    ∀ {targets : List Target} {log : List Event},
      Trail model (.list (addedCalls span targets ++ rest)) visible ending after log →
      (ending = .cut ∧ ∃ made, made <+: targets.map Target.name ∧ log = made.map .destroyed) ∨
        ∃ more, Trail model (.list rest) visible ending after more ∧
          log = (targets.map Target.name).map .destroyed ++ more
  | [], log, trail => Or.inr ⟨log, trail, rfl⟩
  | target :: targets, log, trail => by
    simp only [addedCalls, List.map_cons, List.cons_append] at trail
    cases trail with
    | cut => exact Or.inl ⟨rfl, [], List.nil_prefix, rfl⟩
    | stop call hne =>
      cases call with
      | added => exact absurd rfl hne
    | cons call more =>
      cases call with
      | added =>
        rcases trail_addedCalls more with ⟨hcut, made, hmade, rfl⟩ | ⟨later, htrail, rfl⟩
        · exact Or.inl ⟨hcut, target.name :: made, List.cons_prefix_cons.mpr ⟨rfl, hmade⟩, rfl⟩
        · exact Or.inr ⟨later, htrail, rfl⟩

/-- Calls for variables in scope, each under a name of its own, read nothing that is gone. -/
theorem addedCalls_spared {span : Span} {targets : List Target} {rest : List Marked}
    {after : Bindings} {ending : Ending} {log : List Event} (hquiet : Quiet gone visible)
    (hnodup : (targets.map Target.name).Nodup)
    (hvisible : ∀ name ∈ targets.map Target.name, name ∈ visible.names)
    (trail : Trail model (.list (addedCalls span targets ++ rest)) visible ending after log) :
    (ending = .cut ∧ gone.SparedBy log) ∨
      ∃ more, Trail model (.list rest) visible ending after more ∧
        log = (targets.map Target.name).map .destroyed ++ more ∧
        gone.SparedBy ((targets.map Target.name).map .destroyed) ∧
        gone.after ((targets.map Target.name).map .destroyed)
          = ⟨gone.earlier, (targets.map Target.name).reverse ++ gone.latest⟩ := by
  have hfresh : ∀ name ∈ targets.map Target.name, name ∉ gone.all :=
    fun name hm hgone => hquiet name hgone (hvisible name hm)
  rcases trail_addedCalls trail with ⟨hcut, made, hmade, rfl⟩ | ⟨more, htrail, rfl⟩
  · exact Or.inl ⟨hcut, (Gone.sparedBy_destroyed (hnodup.sublist hmade.sublist)
      fun name hm => hfresh name (hmade.subset hm)).1⟩
  · exact Or.inr ⟨more, htrail, rfl, Gone.sparedBy_destroyed hnodup hfresh⟩

/-- Once calls are made, nothing is gone that is in scope around the frames they were made for. -/
theorem Quiet.calls {names : List String} {outer : Bindings} (hquiet : Quiet gone visible)
    (hsubset : outer.names ⊆ visible.names) (hnames : ∀ name ∈ names, name ∉ outer.names) :
    Quiet ⟨gone.earlier, names.reverse ++ gone.latest⟩ outer := by
  intro name hm
  simp only [Gone.all, List.append_assoc, List.mem_append, List.mem_reverse] at hm
  rcases hm with hm | hm
  · exact hnames name hm
  · exact fun hvisible => hquiet name (List.mem_append.mpr hm) (hsubset hvisible)

theorem nil_spared : ListSpared model policy [] := by
  intro scope entry entries visible after gone span ending log _ hopened hquiet trail
  obtain ⟨hnodup, hown, hsubset, -⟩ := hopened
  rw [markStatements, MarkedScope.endCalls, ← List.append_nil (addedCalls ..)] at trail
  rcases addedCalls_spared hquiet hnodup (fun name hm => (hown name hm).1) trail with
    ⟨rfl, hlog⟩ | ⟨more, hnil, rfl, hcalls, hafter⟩
  · exact ⟨hlog, fun hdone => (by cases hdone), trivial⟩
  · have hend := hquiet.calls hsubset fun name hm => (hown name hm).2
    rw [← hafter] at hend
    cases hnil with
    | nil =>
      rw [List.append_nil]
      exact ⟨hcalls, fun _ => hend, trivial⟩
    | cut =>
      rw [List.append_nil]
      exact ⟨hcalls, fun hdone => (by cases hdone), trivial⟩

/-- An exit's calls destroy what it leaves, and the value of a return is evaluated right after them. -/
theorem exit_spared {stmt : Stmt} {exit : Exit} (hexit : exitOf? stmt = some exit)
    {scope : MarkedScope} {entries : List Bindings} {rest : List Marked} {after : Bindings}
    {ending : Ending} {log : List Event} (hopened : Opened scope.frames entries visible)
    (hquiet : Quiet gone visible)
    (trail : Trail model (.list (scope.exitCalls exit stmt.span ++ ofStmt stmt :: rest)) visible
      ending after log) :
    gone.SparedBy log ∧ ending ≠ .done ∧ Settles scope.frames entries (gone.after log) ending := by
  obtain ⟨hnodup, hown⟩ := hopened.exitTargets exit
  rcases addedCalls_spared hquiet hnodup (fun name hm => (hown name hm).1) trail with
    ⟨rfl, hlog⟩ | ⟨more, htrail, rfl, hcalls, hafter⟩
  · exact ⟨hlog, fun hdone => (by cases hdone), trivial⟩
  have hloop : exit = .loop → Quiet (gone.after
      (((exitTargets exit scope.frames).map Target.name).map .destroyed))
      (loopEntry scope.frames entries) := fun hexit => by
    rw [hafter]
    exact hquiet.calls (loopEntry_subset hopened) fun name hm => (hown name hm).2 hexit
  rw [Gone.sparedBy_append, Gone.after_append]
  -- Behind the calls stands the statement itself, which always leaves.
  cases htrail with
  | cut => exact ⟨⟨hcalls, trivial⟩, fun hdone => (by cases hdone), trivial⟩
  | cons hdone _ =>
    cases stmt <;> simp only [exitOf?, reduceCtorEq] at hexit <;> cases hdone
  | stop hstop hne =>
    cases stmt with
    | ret span value =>
      cases hstop
      refine ⟨⟨hcalls, ?_⟩, fun hdone => (by cases hdone), trivial⟩
      cases value with
      | none => trivial
      | some value =>
        refine ⟨fun name hm hmention => ?_, trivial⟩
        rw [hafter] at hm
        exact hquiet name (List.mem_append_right _ hm) hmention.2
    | brk =>
      cases hexit
      cases hstop
      exact ⟨⟨hcalls, trivial⟩, fun hdone => (by cases hdone), hloop rfl⟩
    | cont =>
      cases hexit
      cases hstop
      exact ⟨⟨hcalls, trivial⟩, fun hdone => (by cases hdone), hloop rfl⟩
    | staged => cases hstop
    | _ => cases hexit

/-! ### Names that are in scope -/

theorem unshadowed_cons {stmt : Stmt} {rest : List Stmt} :
    Unshadowed model visible (stmt :: rest) ↔
      Unshadowed model visible [stmt] ∧
        Unshadowed model ((stmt.declarators model).after visible) rest := by
  simp only [Unshadowed, Stmt.declaratorsAll, Stmt.readAll, Reading.andThen, Reading.nothing,
    Reading.leaf, List.append_nil, List.forall_mem_append]

theorem declaratorsAll_branchStmts (stmt : Stmt) (visible : Bindings) :
    (Stmt.declaratorsAll model (branchStmts stmt)).found visible
      = (stmt.declarators model).found visible := by
  cases stmt <;> simp [branchStmts, Stmt.readAll, Stmt.read, Reading.inside]

theorem cons_spared {stmt : Stmt} {rest : List Stmt} (hs : StmtSpared model policy stmt)
    (hr : ListSpared model policy rest) : ListSpared model policy (stmt :: rest) := by
  intro scope entry entries visible after gone span ending log hnew hopened hquiet trail
  obtain ⟨hnew, hnewRest⟩ := unshadowed_cons.mp hnew
  rw [markStatements] at trail
  cases hexit : exitOf? stmt with
  | some exit =>
    rw [hexit] at trail
    obtain ⟨hlog, hne, hsettles⟩ := exit_spared hexit hopened hquiet trail
    exact ⟨hlog, fun h => absurd h hne, hsettles⟩
  | none =>
    rw [hexit] at trail
    cases trail with
    | cut => exact ⟨trivial, fun hdone => (by cases hdone), trivial⟩
    | stop hstop hne =>
      obtain ⟨hlog, hsettles, -⟩ := hs hexit hnew hopened hquiet hstop
      exact ⟨hlog, fun h => absurd h hne, hsettles⟩
    | cons hdone hmore =>
      obtain ⟨hlog, -, hafter⟩ := hs hexit hnew hopened hquiet hdone
      obtain ⟨rfl, hquiet', hsame, hopened'⟩ := hafter rfl
      obtain ⟨hlog', hend, hsettles⟩ := hr hnewRest hopened' hquiet' hmore
      rw [Gone.sparedBy_append, Gone.after_append]
      exact ⟨⟨hlog, hlog'⟩, hend, hsettles.sameFrames hsame⟩

theorem list_spared_of_forall {stmts : List Stmt} (h : ∀ stmt ∈ stmts, ReadsLive model policy stmt) :
    ListSpared model policy stmts := by
  induction stmts with
  | nil => exact nil_spared
  | cons stmt rest ih =>
    exact cons_spared (h stmt (by simp)).1 (ih fun other hm => h other (by simp [hm]))

/-- A branch in the frame it opens: what it has declared is out of scope again after it. -/
theorem branch_spared {stmt : Stmt} (h : ReadsLive model policy stmt) {scope : MarkedScope}
    {kind : FrameKind} {entries : List Bindings} {after : Bindings} {ending : Ending}
    {log : List Event} (hnew : Unshadowed model visible (branchStmts stmt))
    (hopened : Opened scope.frames entries visible) (hquiet : Quiet gone visible)
    (trail : Trail model
      (.list (markBranch scope kind stmt (markStatement model policy scope kind stmt)
        (markStatement model policy (scope.enter kind) .block stmt)).branchBody)
      visible ending after log) :
    gone.SparedBy log ∧ (ending = .done → Quiet (gone.after log) visible) ∧
      Settles (scope.enter kind).frames (visible :: entries) (gone.after log) ending := by
  rw [markBranch_eq] at trail
  exact h.2 hnew (hopened.enter kind) hquiet trail

/-- The rounds of a loop: each starts with nothing in scope that is gone. -/
theorem rounds_spared {body : Marked} {span : Span} {condition : Expr} {scope : MarkedScope}
    {entries : List Bindings}
    (once : ∀ {gone : Gone} {ending : Ending} {after : Bindings} {log : List Event},
      Quiet gone visible → Trail model (.list body.branchBody) visible ending after log →
      gone.SparedBy log ∧ (ending = .done → Quiet (gone.after log) visible) ∧
        Settles (scope.enter .loop).frames (visible :: entries) (gone.after log) ending)
    {ending : Ending} {after : Bindings} {log : List Event} (hquiet : Quiet gone visible)
    (trail : Trail model (.stmt (.loop span condition body)) visible ending after log) :
    gone.SparedBy log ∧ Settles scope.frames entries (gone.after log) ending ∧
      (ending = .done → after = visible ∧ Quiet (gone.after log) after) := by
  -- The induction is on the rounds; what is gone changes from one to the next.
  generalize hcode : Code.stmt (.loop span condition body) = code at trail
  induction trail generalizing gone with
  | @leave _ _ _ visible =>
    cases hcode
    exact ⟨⟨hquiet.spared _, trivial⟩, trivial, fun _ => ⟨rfl, hquiet.evaluated ⟨visible, condition⟩⟩⟩
  | @again _ _ _ visible _ _ round _ log _ hbody hround _ _ ih =>
    cases hcode
    obtain ⟨hlog, hend, hsettles⟩ := once (hquiet.evaluated ⟨visible, condition⟩) hbody
    have hnext : Quiet ((gone.step (.evaluated ⟨visible, condition⟩)).after log) visible := by
      rcases hround with rfl | rfl
      · exact hend rfl
      · exact hsettles
    obtain ⟨hlog', hrest⟩ := ih once hnext rfl
    refine ⟨⟨hquiet.spared _, Gone.sparedBy_append.mpr ⟨hlog, hlog'⟩⟩, ?_⟩
    simpa only [Gone.after_cons, Gone.after_append] using hrest
  | @broken _ _ _ visible _ log hbody _ =>
    cases hcode
    obtain ⟨hlog, -, hsettles⟩ := once (hquiet.evaluated ⟨visible, condition⟩) hbody
    exact ⟨⟨hquiet.spared _, hlog⟩, trivial, fun _ => ⟨rfl, hsettles⟩⟩
  | @through _ _ _ visible _ ending log hbody hending _ =>
    cases hcode
    obtain ⟨hlog, -, -⟩ := once (hquiet.evaluated ⟨visible, condition⟩) hbody
    refine ⟨⟨hquiet.spared _, hlog⟩, ?_, ?_⟩
    · rcases hending with rfl | rfl <;> trivial
    · rcases hending with rfl | rfl <;> exact fun hdone => (by cases hdone)
  | _ => cases hcode

/-- A statement that is no block is, as a branch, the list that holds just it. -/
theorem StmtSpared.readsLive {stmt : Stmt} (hb : branchStmts stmt = [stmt])
    (h : StmtSpared model policy stmt) : ReadsLive model policy stmt := by
  refine ⟨h, ?_⟩
  rw [hb]
  exact cons_spared h nil_spared

/-- An exit out of a block that is no loop body leads to where it leads from around the block. -/
theorem Settles.of_block {scope : MarkedScope} {entries : List Bindings} {ending : Ending}
    (h : Settles (scope.enter .block).frames (visible :: entries) gone ending) :
    Settles scope.frames entries gone ending := by
  cases ending <;> exact h

/-- The condition is evaluated, then a branch is taken. -/
theorem taken_spared {condition : Expr} {branch : Stmt} (h : ReadsLive model policy branch)
    {scope : MarkedScope} {entries : List Bindings} {after : Bindings} {ending : Ending}
    {log : List Event} (hnew : Unshadowed model visible (branchStmts branch))
    (hopened : Opened scope.frames entries visible) (hquiet : Quiet gone visible)
    (trail : Trail model
      (.list (markBranch scope .block branch (markStatement model policy scope .block branch)
        (markStatement model policy (scope.enter .block) .block branch)).branchBody)
      visible ending after log) :
    let log := .evaluated ⟨visible, condition⟩ :: log
    gone.SparedBy log ∧ Settles scope.frames entries (gone.after log) ending ∧
      (ending = .done → visible = visible ∧ Quiet (gone.after log) visible ∧
        SameFrames scope scope ∧ Opened scope.frames entries visible) := by
  obtain ⟨hlog, hend, hsettles⟩ :=
    branch_spared h hnew hopened (hquiet.evaluated ⟨visible, condition⟩) trail
  exact ⟨⟨hquiet.spared _, hlog⟩, hsettles.of_block,
    fun hdone => ⟨rfl, hend hdone, .refl scope, hopened⟩⟩

/-- What is declared in a part of a statement is declared in the statement. -/
theorem branch_unshadowed {stmt branch : Stmt} (h : Unshadowed model visible [stmt])
    (hpart : ∀ there ∈ (branch.declarators model).found visible,
      there ∈ (stmt.declarators model).found visible) :
    Unshadowed model visible (branchStmts branch) := by
  intro there hm
  rw [declaratorsAll_branchStmts] at hm
  refine h there ?_
  simpa [Stmt.readAll, Reading.andThen, Reading.nothing, Reading.leaf] using hpart there hm

/-- No statement reads what is gone. -/
theorem stmt_spared (stmt : Stmt) : ReadsLive model policy stmt := by
  induction stmt using Stmt.ind with
  | vars span kind decls =>
    refine StmtSpared.readsLive rfl ?_
    intro scope entries visible after gone ending log _ hnew hopened hquiet trail
    have hdecls : ∀ there ∈ (VariableDecl.declaratorsAll model decls).found visible, ∀ name,
        there.node.name.ident? = some name → name ∉ there.visible.names := fun there hm =>
      hnew there (by
        simpa [Stmt.readAll, Stmt.read, Reading.andThen, Reading.nothing, Reading.leaf] using hm)
    obtain ⟨hlog, hafter, hframes⟩ : _ ∧ _ ∧
        Opened (decls.foldl (MarkedScope.declare model policy) scope).frames entries _ :=
      declsEvents_spared hdecls hopened hquiet
    cases trail with
    | vars =>
      exact ⟨hlog, trivial, fun _ => ⟨(declaratorsAll_after decls visible).symm, hafter,
        (declare_all model policy decls scope).1, hframes⟩⟩
  | expr span value =>
    refine StmtSpared.readsLive rfl ?_
    intro scope entries visible after gone ending log _ _ hopened hquiet trail
    cases trail with
    | expr =>
      exact ⟨⟨hquiet.spared _, trivial⟩, trivial,
        fun _ => ⟨rfl, hquiet.evaluated ⟨visible, value⟩, .refl scope, hopened⟩⟩
  | ret | brk | cont => exact StmtSpared.readsLive rfl fun hexit => (by cases hexit)
  | ifElse span condition thenBranch elseBranch hThen hElse =>
    refine StmtSpared.readsLive rfl ?_
    intro scope entries visible after gone ending log _ hnew hopened hquiet trail
    have hthen : Unshadowed model visible (branchStmts thenBranch) :=
      branch_unshadowed hnew fun there hm => by
        simp [Stmt.read, Reading.andThen, Reading.leaf, Reading.inside, hm]
    cases elseBranch with
    | none =>
      simp only [markStatement, markElse] at trail ⊢
      cases trail with
      | thenBranch hbranch => exact taken_spared hThen hthen hopened hquiet hbranch
      | noBranch =>
        exact ⟨⟨hquiet.spared _, trivial⟩, trivial,
          fun _ => ⟨rfl, hquiet.evaluated ⟨visible, condition⟩, .refl scope, hopened⟩⟩
    | some branch =>
      have helse : Unshadowed model visible (branchStmts branch) :=
        branch_unshadowed hnew fun there hm => by
          simp [Stmt.read, Stmt.readElse, Reading.andThen, Reading.leaf, Reading.inside, hm]
      simp only [markStatement, markElse] at trail ⊢
      cases trail with
      | thenBranch hbranch => exact taken_spared hThen hthen hopened hquiet hbranch
      | elseBranch hbranch => exact taken_spared (hElse branch rfl) helse hopened hquiet hbranch
  | loop span condition body hBody =>
    refine StmtSpared.readsLive rfl ?_
    intro scope entries visible after gone ending log _ hnew hopened hquiet trail
    have hbody : Unshadowed model visible (branchStmts body) :=
      branch_unshadowed hnew fun there hm => by
        simp [Stmt.read, Reading.andThen, Reading.leaf, Reading.inside, hm]
    obtain ⟨hlog, hsettles, hafter⟩ :=
      rounds_spared (fun hquiet trail => branch_spared hBody hbody hopened hquiet trail) hquiet trail
    refine ⟨hlog, hsettles, fun hdone => ?_⟩
    obtain ⟨rfl, hend⟩ := hafter hdone
    exact ⟨rfl, hend, .refl scope, hopened⟩
  | block span body hBody =>
    have hlist : ListSpared model policy body := list_spared_of_forall hBody
    refine ⟨?_, hlist⟩
    intro scope entries visible after gone ending log _ hnew hopened hquiet trail
    have hbody : Unshadowed model visible (branchStmts (.block span body)) :=
      branch_unshadowed hnew fun _ => id
    simp only [markStatement] at trail ⊢
    cases trail with
    | block hpath =>
      have hentered : Opened (scope.enter .block).frames (visible :: entries) visible :=
        hopened.enter .block
      obtain ⟨hlog, hend, hsettles⟩ := hlist hbody hentered hquiet hpath
      exact ⟨hlog, hsettles.of_block, fun hdone => ⟨rfl, hend hdone, .refl scope, hopened⟩⟩
  | staged =>
    refine StmtSpared.readsLive rfl ?_
    intro scope entries visible after gone ending log _ _ _ _ trail
    cases trail

end Sparing

/-! ## Bodies -/

/-- **Only the value of a return reads what is destroyed.** The marked body is the output of the pass,
and all but its marked calls is the body that the pass was given. Take any path through it, an added
call on that path and something that happens later, with no declaration of the name between. If that
mentions the variable of the call, it is the value of a return, and everything between is added calls:
the return is the one that the call was added for. -/
theorem run_reads_live (model : Model) (policy : DestructorPolicy) (locals : Locals)
    (body : List Stmt) (hnew : Unshadowed model locals.visible body) :
    Marked.eraseAll (mark model policy locals body) = run model policy locals body ∧
      bracedAll (Marked.keptAll (mark model policy locals body)) = bracedAll body ∧
      ∀ (ending : Ending) (after : Bindings) (before between rest : List Event) (name : String)
        (event : Event),
        Trail model (.list (mark model policy locals body)) locals.visible ending after
          (before ++ .destroyed name :: (between ++ event :: rest)) →
        .declared name ∉ between → event.Reads name →
        event.isReturn = true ∧ ∀ other ∈ between, other.isDestruction = true := by
  refine ⟨eraseAll_mark .., bracedAll_keptAll_mark .., ?_⟩
  intro ending after before between rest name event trail hbetween hreads
  have hbody : ListSpared model policy body := list_spared_of_forall fun stmt _ => stmt_spared stmt
  have hopened : Opened (MarkedScope.start locals).frames [locals.visible] locals.visible :=
    ⟨List.nodup_nil, nofun, List.Subset.refl _, trivial⟩
  have hquiet : Quiet ⟨[], []⟩ locals.visible := nofun
  obtain ⟨hlog, -⟩ := hbody hnew hopened hquiet trail
  exact hlog.reads hbetween hreads

/-- A variable, and a loop whose first round declares a second one and returns a sum of both. -/
def sumInLoop (sum : Expr) : List Stmt :=
  [declareAs "x" "Foo",
   .loop {} (.literal {} (.bool true)) (.block {} [declareAs "y" "Foo", .ret {} (some sum)])]

/-- The return that a round of `sumInLoop` comes to reads both variables, and both have been
destroyed by the calls in front of it. -/
theorem run_reads_live_sumInLoop :
    let sum : Expr := .binary {} .add (.ident {} "y") (.ident {} "x")
    ∃ (after inside : Bindings) (before : List Event),
      Unshadowed fooModel (Locals.start none).visible (sumInLoop sum) ∧
        Trail fooModel (.list (mark fooModel .allClasses (.start none) (sumInLoop sum)))
          (Locals.start none).visible .ret after
          (before ++ .destroyed "y" :: ([.destroyed "x"] ++ .returned ⟨inside, sum⟩ :: [])) ∧
        (Event.returned ⟨inside, sum⟩).Reads "y" ∧
        (Event.returned ⟨inside, sum⟩).isReturn = true ∧
        ∀ other ∈ [Event.destroyed "x"], other.isDestruction = true := by
  intro sum
  have hnew : Unshadowed fooModel (Locals.start none).visible (sumInLoop sum) := by
    simp [Unshadowed, sumInLoop, declareAs, Stmt.readAll, Stmt.read, VariableDecl.readAll,
      VariableDecl.read, VariableDecl.bind, readOption, BindingName.ident?, Reading.andThen,
      Reading.nothing, Reading.leaf, Reading.binding, Reading.inside, Bindings.names, Locals.visible,
      Locals.start]
  have trail : Trail fooModel
      (.list (mark fooModel .allClasses (.start none) (sumInLoop sum))) [] .ret _ _ :=
    .cons .vars (.stop
      (.through (.cons .vars (.cons .added (.cons .added (.stop .ret (by decide))))) (Or.inl rfl)) (by decide))
  refine ⟨_, _, [.declared "x", .evaluated ⟨_, .literal {} (.bool true)⟩, .declared "y"], hnew,
    trail, ?_, ?_⟩
  · exact ⟨by decide, by decide⟩
  · exact (run_reads_live fooModel .allClasses (.start none) (sumInLoop sum) hnew).2.2 _ _
      [.declared "x", .evaluated ⟨_, .literal {} (.bool true)⟩, .declared "y"] [.destroyed "x"] [] "y"
      _ trail (by simp) ⟨by decide, by decide⟩

/-- A return reads a variable that the call in front of it has destroyed. -/
theorem returned_after_destroyed :
    ¬ ∀ (model : Model) (policy : DestructorPolicy) (locals : Locals) (body : List Stmt),
      Unshadowed model locals.visible body →
      ∀ (ending : Ending) (after : Bindings) (before between rest : List Event) (name : String)
        (event : Event),
        Trail model (.list (mark model policy locals body)) locals.visible ending after
          (before ++ .destroyed name :: (between ++ event :: rest)) →
        .declared name ∉ between → ¬ event.Reads name := by
  intro h
  let size : Expr := .property {} (.ident {} "x") "size"
  have hnew : Unshadowed fooModel (Locals.start none).visible
      [declareAs "x" "Foo", .ret {} (some size)] := by
    simp [Unshadowed, declareAs, Stmt.readAll, Stmt.read, VariableDecl.readAll,
      VariableDecl.read, VariableDecl.bind, readOption, BindingName.ident?, Reading.andThen,
      Reading.nothing, Reading.leaf, Reading.binding, Bindings.names, Locals.visible, Locals.start]
  have trail : Trail fooModel (.list (mark fooModel .allClasses (.start none)
      [declareAs "x" "Foo", .ret {} (some size)])) [] .ret _ _ :=
    .cons .vars (.cons .added (.stop .ret (by decide)))
  exact h _ _ _ _ hnew _ _ [.declared "x"] [] [] "x" _ trail (by simp) ⟨by decide, by decide⟩

end Cleanup
end NativeLowering
