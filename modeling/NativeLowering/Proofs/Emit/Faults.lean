import NativeLowering.Proofs.Emit.Backed
import NativeLowering.Syntax.Build

/-!
# Which faults of scope discipline writing a program can meet

Opening and closing scopes, statements, functions and classes can go wrong, and so can a call that
stands outside every function. The faults that say so are there, and writing a program meets none of
them, whatever the program and the model are: of the faults of scope discipline only the current
instance outside a class member is left (`generateWith_blames`).
-/

set_option autoImplicit false

namespace NativeLowering

open Lowered

theorem Fault.ordinary_of_isInternal {cause : Fault} (h : cause.isInternal = true) :
    cause.Ordinary := by
  intro hcategory
  cases cause <;> cases h <;> cases hcategory

/-- Where internal faults are ordinary too, nothing has to rule them out. -/
theorem backed_ordinary (model : Model) (program : Program) :
    Backed Fault.Ordinary (fun _ => True) model program where
  closed := Locals.closed_true model
  answers _ _ := .inl fun _ => Fault.ordinary_of_isInternal
  free := trivial
  member _ _ := trivial
  parts _ _ := .inl fun _ => Fault.ordinary_of_isInternal
  functions _ _ _ _ _ := .inl fun _ => Fault.ordinary_of_isInternal

/-- Writing a program fails with a fault at a place, and of the faults of scope discipline only the
current instance outside a class member can be one. -/
theorem generateWith_blames (options : Options) (model : Model) (program : Program) :
    (generateWith options model program).Blames Fault.Ordinary :=
  (backed_ordinary model program).blames (fun _ hexpected => hexpected.ordinary) options

/-- **Stack discipline of writing.** No program takes the stacks of a session down past their root
or leaves something open at the end. Each statement comes back to the scopes and the open statements
that it started from, whether it can be written or not; it changes no buffer but the current one,
and that only at its end. If it can be written, indentation and frames are what they were. -/
theorem writing_discipline :
    (∀ (options : Options) (model : Model) (program : Program) (e : LoweringError),
      generateWith options model program = .error e →
      ∃ span cause, e = .fault span cause ∧ cause ≠ .unfinished ∧
        (cause.category = .scopeDiscipline → cause = .thisOutsideMember)) ∧
    ∀ (cx : Context) (statement : Stmt) (session after : Session) (result : Lowered Unit),
      session.openFunction.isSome = true →
      (Emit.stmt cx statement).run session = (result, after) →
      after.depth = session.depth ∧ after.stages.length = session.stages.length ∧
        after.outer = session.outer ∧
        (∃ added, after.current.text = session.current.text ++ added) ∧
        ∀ value, result = .ok value →
          after.current.depth = session.current.depth ∧ after.frameCount = session.frameCount := by
  constructor
  · intro options model program e he
    obtain ⟨span, cause, rfl, hordinary⟩ := generateWith_blames options model program e he
    refine ⟨span, cause, rfl, ?_, hordinary⟩
    rintro rfl
    cases hordinary rfl
  · intro cx statement session after result hopen hrun
    have hbalanced : Emit.Balanced (Emit.stmt cx statement) :=
      (Emit.content_writes statement).moves.asStatement
    obtain ⟨hstays, hmoves⟩ := hbalanced session result after hopen hrun
    refine ⟨?_, hstays.staged, hstays.outer, hstays.grows, hmoves⟩
    rw [Session.depth, Session.depth, hstays.outer]

def strayInstance : Stmt :=
  Build.ret (some (Build.binary .add (Build.number "1") Build.thisRef))

def strayProgram : Program := ⟨[Build.function "stray" [] Build.void [strayInstance]]⟩

/-- Where writing starts in a free function. -/
def strayStart : Session :=
  { Session.start {} with openFunction := some ⟨.new {} none none "stray", .start none, none⟩ }

/-- The current instance in a free function is a fault of scope discipline. The failing statement
leaves the stacks as they were, and in the buffer the pieces that it wrote before it failed. -/
theorem writing_discipline_strayInstance :
    (∃ model e, generateWith {} model strayProgram = .error e ∧
      ∃ span cause, e = .fault span cause ∧ cause ≠ .unfinished ∧ cause = .thisOutsideMember) ∧
    ∀ model : Model, ∃ e after,
      (Emit.stmt ⟨model, {}⟩ strayInstance).run strayStart = (.error e, after) ∧
      after.depth = 1 ∧ after.stages.length = 0 ∧ after.outer = [] ∧
        after.current.text = "return 1 +\n" := by
  constructor
  · have hfails : (Model.build strayProgram []).toOption.any (fun model : TypedModel =>
        match generateWith {} model strayProgram with
        | .error (.fault _ cause) => cause.category == .scopeDiscipline
        | _ => false) = true := by decide +kernel
    obtain ⟨model, -, hmodel⟩ := (Option.any_eq_true _ _).mp hfails
    cases hrun : generateWith {} model strayProgram with
    | ok text =>
      rw [hrun] at hmodel
      cases hmodel
    | error e =>
      obtain ⟨span, cause, rfl, hfinished, honly⟩ :=
        writing_discipline.1 {} model strayProgram e hrun
      rw [hrun] at hmodel
      exact ⟨model, _, hrun, span, cause, rfl, hfinished, honly (beq_iff_eq.mp hmodel)⟩
  · intro model
    have hfails : ((Emit.stmt ⟨model, {}⟩ strayInstance).run strayStart).1
        = failAt {} .thisOutsideMember := rfl
    have htext : ((Emit.stmt ⟨model, {}⟩ strayInstance).run strayStart).2.current.text
        = "return 1 +\n" := rfl
    obtain ⟨hdepth, hstages, houter, -⟩ := writing_discipline.2 ⟨model, {}⟩ strayInstance
      strayStart _ _ rfl rfl
    exact ⟨_, _, Prod.ext hfails rfl, hdepth, hstages, houter, htext⟩

end NativeLowering
