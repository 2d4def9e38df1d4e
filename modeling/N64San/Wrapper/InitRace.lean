import N64San.Wrapper.Placement
import N64San.Wrapper.PoolSafety

/-!
# The race for the initialisation

`isInitialized` is set only after the device has been initialised.  A thread
that has found it false and then waits may initialise the device again when
another one has long printed, and what the host has not read by then is gone.
-/

namespace N64San.IsViewer

open Transaction

/-! ## The race -/

section Race

variable {ι : Type} [DecidableEq ι]

end Race

end N64San.IsViewer
