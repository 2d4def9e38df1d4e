import N64San.Ubsan.Runtime

/-!
# Diagnostics

`ubsan_diag.c`: a report prints its location, its severity and its message, one
call of the wrapper after the other.
-/

namespace N64San.Ubsan

open Varargs

def diagFile : String := "src/n64_ubsan/ubsan_diag.c"

/-- `VT_BOLD()`. -/
def vtBold : String := "\x1b[1m"

/-- `VT_BOLD_FGCOL(RED)`. -/
def vtBoldRed : String := "\x1b[1;31m"

/-- `VT_BOLD_FGCOL(BLACK)`. -/
def vtBoldBlack : String := "\x1b[1;30m"

/-- `VT_RST`. -/
def vtRst : String := "\x1b[m"

/-- `Ubsan_PrintSourceLocation`. -/
def ubsanPrintSourceLocation (file line column : U32) (vsStyle : Bool) : San Unit := do
  n64WrapperPrintf "%s" [.word file]
  if line.toInt ≤ 0 then
    return ()
  else if vsStyle then
    n64WrapperPrintf "(%d" [.word line]
    if 0 < column.toInt then
      n64WrapperPrintf ",%d" [.word column]
    n64WrapperPrintf ")" []
  else
    n64WrapperPrintf ":%d" [.word line]
    if 0 < column.toInt then
      n64WrapperPrintf ":%d" [.word column]

/-- `Ubsan_Location_Print`. -/
def ubsanLocationPrint : Location → San Unit
  | .source loc =>
      if loc.filename = 0 then n64WrapperPrintf "<unknown>" []
      else ubsanPrintSourceLocation loc.filename loc.line loc.column false
  | .memory loc => n64WrapperPrintf "%p" [.word loc]
  | .null => n64WrapperPrintf "<unknown>" []
  | .symbolized =>
      unreachableCode diagFile 74 "Ubsan_Location_Print(): Something went wrong"

/-- `Ubsan_DiagImpl`, which does not print the error type. -/
def ubsanDiagImpl (loc : Location) (level : DiagLevel) (_et : ErrorType) (fmt : String)
    (args : VaList) : San Unit := do
  n64WrapperPrintf vtBold []
  ubsanLocationPrint loc
  n64WrapperPrintf ":" []
  match level with
  | .error =>
      n64WrapperPrintf "%s runtime error: %s%s"
        [.literal vtBoldRed, .literal vtRst, .literal vtBold]
  | .note => n64WrapperPrintf "%s note: %s" [.literal vtBoldBlack, .literal vtRst]
  n64WrapperVprintf fmt args
  n64WrapperPrintf "%s\n" [.literal vtRst]

/-- `Ubsan_Diag`, which has four named arguments; the call is recorded. -/
def ubsanDiag (loc : Location) (level : DiagLevel) (et : ErrorType) (fmt : String)
    (args : List Arg) : San Unit := do
  modify fun c => { c with reports := c.reports ++ [⟨loc, level, et, fmt, args⟩] }
  ubsanDiagImpl loc level et fmt (vaStart 4 args)

/-! ## What a report prints -/

/-- The calls that print a source location. -/
def locationOutput (loc : SourceLocation) : List Output :=
  if loc.filename = 0 then [printfOutput "<unknown>" []]
  else if loc.line.toInt ≤ 0 then [printfOutput "%s" [.word loc.filename]]
  else if 0 < loc.column.toInt then
    [printfOutput "%s" [.word loc.filename], printfOutput ":%d" [.word loc.line],
      printfOutput ":%d" [.word loc.column]]
  else [printfOutput "%s" [.word loc.filename], printfOutput ":%d" [.word loc.line]]

/-- The calls that print an error at a source location. -/
def errorOutput (loc : SourceLocation) (fmt : String) (args : List Arg) : List Output :=
  printfOutput vtBold [] :: locationOutput loc ++
    [printfOutput ":" [],
      printfOutput "%s runtime error: %s%s"
        [.literal vtBoldRed, .literal vtRst, .literal vtBold],
      ⟨fmt, vaStart 4 args⟩, printfOutput "%s\n" [.literal vtRst]]

/-- Print one error report, and nothing else. -/
def reportError (loc : SourceLocation) (et : ErrorType) (fmt : String) (args : List Arg) :
    San Unit := do
  modify fun c => { c with reports := c.reports ++ [⟨.source loc, .error, et, fmt, args⟩] }
  emit (errorOutput loc fmt args)

theorem ubsanLocationPrint_source (loc : SourceLocation) :
    ubsanLocationPrint (.source loc) = emit (locationOutput loc) := by
  rw [ubsanLocationPrint, locationOutput]
  by_cases hfile : loc.filename = 0
  · rw [if_pos hfile, if_pos hfile]
    rfl
  · rw [if_neg hfile, if_neg hfile, ubsanPrintSourceLocation]
    by_cases hline : loc.line.toInt ≤ 0
    · rw [if_pos hline, if_pos hline]
      exact bind_pure_unit
    · rw [if_neg hline, if_neg hline]
      by_cases hcolumn : 0 < loc.column.toInt
      · rw [if_pos hcolumn]
        simp [hcolumn, n64WrapperPrintf, emit_bind_emit]
      · rw [if_neg hcolumn]
        simp [hcolumn, n64WrapperPrintf, emit_bind_emit]

/-- An error at a source location is printed by calls of the formatter alone. -/
theorem ubsanDiag_source (loc : SourceLocation) (et : ErrorType) (fmt : String)
    (args : List Arg) :
    ubsanDiag (.source loc) .error et fmt args = reportError loc et fmt args := by
  have himpl : ubsanDiagImpl (.source loc) .error et fmt (vaStart 4 args) =
      emit (errorOutput loc fmt args) := by
    rw [ubsanDiagImpl, ubsanLocationPrint_source]
    simp only [n64WrapperPrintf, n64WrapperVprintf, emit_bind_emit, errorOutput]
    rfl
  rw [ubsanDiag, himpl]
  rfl

section Exec

variable {loc : SourceLocation} {et : ErrorType} {fmt : String} {args : List Arg}
variable {printf : Formatter}

/-- Recording the call of `Ubsan_Diag` prints nothing. -/
theorem exec_reportError (loc : SourceLocation) (et : ErrorType) (fmt : String)
    (args : List Arg) (printf : Formatter) (c : Console) :
    (reportError loc et fmt args).exec printf c =
      (emit (errorOutput loc fmt args)).exec printf
        { c with reports := c.reports ++ [⟨.source loc, .error, et, fmt, args⟩] } := rfl

/-- A report whose calls all come back. -/
theorem exec_reportError_ok
    (h : ∀ output ∈ errorOutput loc fmt args, printf output = .ok ()) (c : Console) :
    (reportError loc et fmt args).exec printf c =
      (.ok (), ⟨c.reports ++ [⟨.source loc, .error, et, fmt, args⟩],
        c.out ++ errorOutput loc fmt args⟩) := by
  rw [exec_reportError, exec_emit_ok h]

theorem callsOnly_reportError {kind : Output → Prop}
    (h : ∀ output ∈ errorOutput loc fmt args, kind output) :
    CallsOnly kind (reportError loc et fmt args) := fun printf c =>
  callsOnly_emit h printf { c with reports := c.reports ++ _ }

/-- A report whose calls do not all come back does not come back. -/
theorem exec_reportError_ne_ok
    (h : ¬ ∀ output ∈ errorOutput loc fmt args, printf output = .ok ()) (c d : Console) :
    (reportError loc et fmt args).exec printf c ≠ (.ok (), d) := by
  obtain ⟨before, last, after, halt, -, -, -, hexec⟩ := exec_emit_error h
    { c with reports := c.reports ++ [⟨.source loc, .error, et, fmt, args⟩] }
  rw [exec_reportError, hexec]
  exact fun heq => by cases heq

end Exec

/-- The calls that print a report, if they all come back. -/
def Report.output (report : Report) : List Output :=
  ((ubsanDiag report.loc report.level report.et report.fmt report.args).exec
    (fun _ => .ok ()) ⟨[], []⟩).2.out

theorem Report.output_error (loc : SourceLocation) (et : ErrorType) (fmt : String)
    (args : List Arg) :
    Report.output ⟨.source loc, .error, et, fmt, args⟩ = errorOutput loc fmt args := by
  rw [output, ubsanDiag_source, exec_reportError_ok fun _ _ => rfl]
  rfl

theorem reportError_inj {loc loc' : SourceLocation} {et et' : ErrorType} {fmt fmt' : String}
    {args args' : List Arg}
    (h : reportError loc et fmt args = reportError loc' et' fmt' args') :
    loc = loc' ∧ et = et' ∧ fmt = fmt' ∧ args = args' := by
  -- a formatter that always comes back shows what is reported
  have hok : ∀ out : List Output, ∀ output ∈ out,
      (fun _ : Output => (.ok () : Except Halt Unit)) output = .ok () := fun _ _ _ => rfl
  have hreports := congrArg (fun program => (program.exec (fun _ => .ok ()) ⟨[], []⟩).2.reports) h
  rw [exec_reportError_ok (hok _), exec_reportError_ok (hok _)] at hreports
  simpa using hreports

end N64San.Ubsan
