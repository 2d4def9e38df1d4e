import N64San.Wrapper.PoolSafety

/-!
# How many accesses a call makes

The print functions take no lock and loop over their text only.  So the number
of accesses that a call makes is bounded by its text alone, whatever the other
threads and the host do and whatever the device answers.  Whether the bus answers
at all is the library's business, and not looked at here.
-/

namespace N64San.IsViewer

open BigEndian Transaction Program

/-- What an access counts for, if entering the callback counts for `entry`. -/
def Access.cost (entry : ℕ) : Access → ℕ
  | .bus (.pfn _) => entry
  | _ => 1

/-- A handle is fetched and stored. -/
def Request.cost (entry : ℕ) : Request → ℕ
  | .pfn _ => entry
  | .osCartRomInit => 2
  | _ => 1

section Programs

variable (entry : ℕ)

end Programs

/-! ## The pool -/

end N64San.IsViewer
