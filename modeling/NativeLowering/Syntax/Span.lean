/-!
# Source spans

Where a node stands in the source it was parsed from, as a pair of offsets. A node that was not
parsed from a source has the empty span at zero.
-/

set_option autoImplicit false

namespace NativeLowering

/-- A stretch of source, from one offset up to another. -/
structure Span where
  start : Nat := 0
  stop : Nat := 0
  deriving DecidableEq

namespace Span

instance : Inhabited Span := ⟨{}⟩

/-- The smallest stretch that covers both. -/
def merge (a b : Span) : Span :=
  { start := min a.start b.start, stop := max a.stop b.stop }

end Span

end NativeLowering
