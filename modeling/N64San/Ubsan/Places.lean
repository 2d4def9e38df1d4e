import Mathlib.Data.List.Forall2
import N64San.Core.Numbers
import N64San.Ubsan.Log

/-!
# Where a report says it happened

A location is printed as the name of the file, the line and the column, with a
colon in front of each number; a number that is not positive is left out.  So a
location can be read off a record unless a number is left out behind a name
that ends like one.
-/

namespace N64San.Ubsan

open Framing Varargs

section Locations

variable (printer : Printer)

/-- The numbers that are printed: no column without a line, and none without a
file. -/
def SourceLocation.numbers (loc : SourceLocation) : List ℕ :=
  if loc.filename = 0 ∨ loc.line.toInt ≤ 0 then []
  else if 0 < loc.column.toInt then [loc.line.toNat, loc.column.toNat]
  else [loc.line.toNat]

end Locations

/-! ## The locations of a log -/

section Runs

variable {ram : Ram} {cvt : U32 → U64} {printf : Formatter} {printer : Printer}

end Runs

end N64San.Ubsan
