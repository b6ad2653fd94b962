import NativeLowering.Pass.Address
import NativeLowering.Pass.Cleanup
import NativeLowering.Pass.Receiver

/-!
# Running the selected passes
-/

set_option autoImplicit false

namespace NativeLowering

/-- Runs one pass over a body. -/
def Pass.run (model : Model) (policy : DestructorPolicy) (locals : Locals) (body : List Stmt) :
    Pass → Lowered (List Stmt)
  | .destructors => .ok (Cleanup.run model policy locals body)
  | .receiver => Receiver.run model locals body
  | .materialize => Address.run model locals body

/-- Runs the selected passes over a body, in their fixed order. -/
def PassSet.run (passes : PassSet) (model : Model) (policy : DestructorPolicy)
    (locals : Locals) (body : List Stmt) : Lowered (List Stmt) :=
  passes.toList.foldlM (fun body pass => pass.run model policy locals body) body

end NativeLowering
