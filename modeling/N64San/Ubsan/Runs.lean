import Mathlib.Data.List.Forall2
import N64San.Ubsan.Findings

/-!
# Runs of the handlers

One finding is handled after the other.  A run ends behind all of them, in the
first one that is not accepted, or in the middle of a report, at the first `%s`
that leads to no string.  Up to there the reports are whole, one for each
finding.
-/

namespace N64San.Ubsan

open Varargs

/-- Handle the findings, one after the other. -/
def handleAll (ram : Ram) (cvt : U32 → U64) : List Finding → San Unit
  | [] => pure ()
  | finding :: findings => do
      finding.handle ram cvt
      handleAll ram cvt findings

/-- The handler of the finding makes the report, an error at the location in the
record, and does nothing else. -/
def Finding.Makes (ram : Ram) (cvt : U32 → U64) (finding : Finding) (report : Report) : Prop :=
  ∃ et fmt args, report = ⟨.source (finding.loc ram), .error, et, fmt, args⟩ ∧
    finding.handle ram cvt = reportError (finding.loc ram) et fmt args

/-- Every `%s` of the call leads to a string. -/
def Output.Readable (ram : Ram) (output : Output) : Prop :=
  ∀ slot ∈ pointers output.pieces, ram.Holds slot

section Runs

variable {ram : Ram} {cvt : U32 → U64} {printf : Formatter}

theorem Finding.Makes.exec {finding : Finding} {report : Report}
    (h : finding.Makes ram cvt report) (printf : Formatter) (c : Console) :
    (finding.handle ram cvt).exec printf c =
      (emit report.output).exec printf { c with reports := c.reports ++ [report] } := by
  obtain ⟨et, fmt, args, rfl, hreport⟩ := h
  rw [hreport, Report.output_error, exec_reportError]

/-- The findings make the reports, and every string that is printed for them is
there. -/
structure Reported (ram : Ram) (cvt : U32 → U64) (findings : List Finding)
    (reports : List Report) : Prop where
  makes : List.Forall₂ (Finding.Makes ram cvt) findings reports
  readable : ∀ report ∈ reports, ∀ output ∈ report.output, output.Readable ram

/-- How a run ends, and what it has printed: all of its reports; those in front
of the first finding that is not accepted, and the text of a failed check; or
those in front of the first report with a string that is not there, and that
report up to the call that follows the pointer. -/
inductive RunEnds (ram : Ram) (cvt : U32 → U64) (c : Console) :
    List Finding → Except Halt Unit × Console → Prop
  | returned {findings : List Finding} {reports : List Report}
      (hreported : Reported ram cvt findings reports) :
      RunEnds ram cvt c findings
        (.ok (), ⟨c.reports ++ reports, c.out ++ reports.flatMap Report.output⟩)
  | rejected {done : List Finding} {finding : Finding} {rest : List Finding}
      {reports : List Report} {out : List Output} {halt : Halt}
      (hreported : Reported ram cvt done reports) (hrejected : ¬ finding.Accepted ram)
      (hfatal : ∀ output ∈ out, output.fmt ∈ fatalFormats) :
      RunEnds ram cvt c (done ++ finding :: rest)
        (.error halt, ⟨c.reports ++ reports, c.out ++ reports.flatMap Report.output ++ out⟩)
  | stopped {done : List Finding} {finding : Finding} {rest : List Finding}
      {reports : List Report} {report : Report} {before after : List Output} {last : Output}
      {halt : Halt} (hreported : Reported ram cvt done reports)
      (hmakes : finding.Makes ram cvt report) (houtput : report.output = before ++ last :: after)
      (hbefore : ∀ output ∈ before, output.Readable ram) (hlast : ¬ last.Readable ram) :
      RunEnds ram cvt c (done ++ finding :: rest)
        (.error halt, ⟨c.reports ++ reports ++ [report],
          c.out ++ reports.flatMap Report.output ++ (before ++ [last])⟩)

theorem Reported.nil : Reported ram cvt [] [] :=
  ⟨.nil, fun _ hmem => absurd hmem List.not_mem_nil⟩

theorem Reported.cons {finding : Finding} {findings : List Finding} {report : Report}
    {reports : List Report} (hmakes : finding.Makes ram cvt report)
    (hreadable : ∀ output ∈ report.output, output.Readable ram)
    (h : Reported ram cvt findings reports) :
    Reported ram cvt (finding :: findings) (report :: reports) :=
  ⟨.cons hmakes h.makes, List.forall_mem_cons.mpr ⟨hreadable, h.readable⟩⟩

/-- A finding whose report is printed goes first. -/
theorem RunEnds.cons {c : Console} {finding : Finding} {findings : List Finding}
    {report : Report} {result : Except Halt Unit × Console}
    (hmakes : finding.Makes ram cvt report)
    (hreadable : ∀ output ∈ report.output, output.Readable ram)
    (h : RunEnds ram cvt ⟨c.reports ++ [report], c.out ++ report.output⟩ findings result) :
    RunEnds ram cvt c (finding :: findings) result := by
  have hreports : ∀ reports, c.reports ++ [report] ++ reports = c.reports ++ report :: reports :=
    fun reports => List.append_assoc _ _ _
  have hout : ∀ reports : List Report,
      c.out ++ report.output ++ reports.flatMap Report.output =
        c.out ++ (report :: reports).flatMap Report.output := fun reports => by
    rw [List.flatMap_cons, List.append_assoc]
  cases h with
  | returned hreported =>
      rw [hreports, hout]
      exact .returned (hreported.cons hmakes hreadable)
  | rejected hreported hrejected hfatal =>
      rw [hreports, hout]
      exact .rejected (hreported.cons hmakes hreadable) hrejected hfatal
  | stopped hreported hstopped houtput hbefore hlast =>
      rw [hreports, hout]
      exact .stopped (hreported.cons hmakes hreadable) hstopped houtput hbefore hlast

end Runs

end N64San.Ubsan
