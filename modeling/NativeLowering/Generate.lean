import NativeLowering.Emit.Decl
import NativeLowering.Model.Table
import NativeLowering.Syntax.Decode

/-!
# Lowering a program

The whole way from a program and its preludes to written source. The first failure ends it, and
nothing is written then.
-/

set_option autoImplicit false

namespace NativeLowering

/-- Writes a program against a model that the caller supplies. -/
def generateWith (options : Options) (model : Model) (program : Program) : Lowered String :=
  let cx : Context := { model, options }
  match (Emit.program cx program).run (.start options.layout) with
  | (.error e, _) => .error e
  | (.ok (), session) => session.finish options.outputOrder

/-- Writes a program, with preludes that declare what native code provides. -/
def generate (options : Options) (program : Program) (preludes : List Program) :
    Lowered String := do
  let model ← Model.build program preludes
  generateWith options model program

/-- Why no source is written for programs given as texts. -/
inductive GenerationError where
  /-- A text does not spell a program. -/
  | decode
  | lowering (cause : LoweringError)

/-- Writes a program given as a JSON text, with preludes given the same way. All texts are
decoded before anything is lowered. -/
def generateText (options : Options) (program : String) (preludes : List String) :
    Except GenerationError String :=
  match Program.parse? program, preludes.mapM Program.parse? with
  | some program, some preludes => (generate options program preludes).mapError .lowering
  | _, _ => .error .decode

end NativeLowering
