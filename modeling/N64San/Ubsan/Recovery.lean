import N64San.Ubsan.Decode
import N64San.Ubsan.Domain

/-!
# Recoverable handlers recover

What a compiler emits is accepted: each check of the decoders sits behind a test
of the handler that calls them, so no handler fails while it reports.  A
recoverable handler prints one report and returns; its `_abort` twin prints the
same report and dies.
-/

namespace N64San.Ubsan

namespace Entry

variable (ram : Ram)

/-- The records that a compiler emits and the handles that it passes.  The
divisor is the only handle that the division handler follows. -/
def WellFormed : Entry → Prop
  | typeMismatchV1 data _ =>
      data.typeCheckKind.toNat < typeCheckKinds.length ∧ data.logAlignment.toNat < 32
  | divremOverflow data _ rhs =>
      (∃ ty : IntType, data.type = ty.descriptor ∧ Followable ram ty rhs) ∨
        data.type.isFloatTy = true
  | shiftOutOfBounds data lhs rhs =>
      ∃ lhsType rhsType : IntType,
        data.lhsType = lhsType.descriptor ∧ data.rhsType = rhsType.descriptor ∧
          Followable ram lhsType lhs ∧ Followable ram rhsType rhs
  | _ => True

variable {ram} {entry : Entry}

theorem WellFormed.inTable (h : entry.WellFormed ram) : entry.InTable := by
  cases entry with
  | typeMismatchV1 data pointer => exact h.1
  | _ => trivial

theorem WellFormed.accepted (h : entry.WellFormed ram) : entry.Accepted ram := by
  cases entry with
  | divremOverflow data lhs rhs =>
      intro hsigned
      rcases h with ⟨ty, htype, hrhs⟩ | hfloat
      · rw [htype]
        exact hrhs.decodable
      · exact absurd (isIntegerTy_of_signed hsigned) (not_isIntegerTy_of_float hfloat)
  | shiftOutOfBounds data lhs rhs =>
      obtain ⟨lhsType, rhsType, hlhsType, hrhsType, hlhs, hrhs⟩ := h
      refine ⟨hrhsType ▸ hrhs.decodable, Or.inr ⟨?_, Or.inr fun _ => hlhsType ▸ hlhs.decodable⟩⟩
      rw [hlhsType]
      exact lhsType.isIntegerTy_descriptor
  | _ => trivial

/-- A well-formed entry makes one report at its location, and its format fits. -/
theorem WellFormed.soundly (h : entry.WellFormed ram) :
    ReportsSoundly entry.names entry.loc (entry.handle ram) :=
  (handle_decides h.inTable).reports h.accepted

theorem locNames_subset (entry : Entry) : entry.loc.names ⊆ entry.names := by
  cases entry with
  | pointerOverflow data base result => exact List.Subset.refl _
  | _ => exact List.subset_append_left _ _

end Entry

/-- What `Die` prints before the game crashes. -/
def dieOutput : Output :=
  printfOutput assertFormat
    [.literal "SAN: Die()\n", .literal terminationFile, .word 14]

theorem dieOutput_passes (names : List U32) : dieOutput.Passes names :=
  Fitting.passes ⟨[.text, .text, .number], by decide,
    .cons (.literal _) (.cons (.literal _) (.cons (.number _) .nil))⟩ 1

/-- Dying after a program that has returned. -/
theorem exec_die_after {program : San Unit} {printf : Formatter} {c d : Console}
    (h : program.exec printf c = (.ok (), d)) (hdie : printf dieOutput = .ok ()) :
    (do program; die : San Unit).exec printf c =
      (.error (.crash "SAN: Die()\n"), { d with out := d.out ++ [dieOutput] }) := by
  have hemit : (emit [dieOutput]).exec printf d =
      (.ok (), { d with out := d.out ++ [dieOutput] }) :=
    exec_emit_ok (List.forall_mem_singleton.mpr hdie) d
  rw [exec_bind_ok h]
  exact exec_bind_ok hemit fun _ => throw (.crash "SAN: Die()\n")

/-- With a formatter that comes back, a program that reports soundly returns, and
dies after the same report if it is to. -/
theorem ReportsSoundly.exec {names : List U32} {loc : SourceLocation} {program : San Unit}
    (h : ReportsSoundly names loc program) (hloc : loc.names ⊆ names) :
    ∃ et fmt args, ∀ printf : Formatter, printf.ReturnsOn names → ∀ c : Console,
      program.exec printf c =
          (.ok (), ⟨c.reports ++ [⟨.source loc, .error, et, fmt, args⟩],
            c.out ++ errorOutput loc fmt args⟩) ∧
        (do program; die : San Unit).exec printf c =
          (.error (.crash "SAN: Die()\n"),
            ⟨c.reports ++ [⟨.source loc, .error, et, fmt, args⟩],
              c.out ++ errorOutput loc fmt args ++ [dieOutput]⟩) := by
  obtain ⟨et, fmt, args, hreport, hmessage⟩ := h
  refine ⟨et, fmt, args, fun printf hprintf c => ?_⟩
  have hcalls : ∀ output ∈ errorOutput loc fmt args, printf output = .ok () :=
    fun output houtput => hprintf output
      (errorOutput_passes hloc hmessage.fitting output houtput)
  have hreturns : program.exec printf c =
      (.ok (), ⟨c.reports ++ [⟨.source loc, .error, et, fmt, args⟩],
        c.out ++ errorOutput loc fmt args⟩) := by
    rw [hreport]
    exact exec_reportError_ok hcalls c
  exact ⟨hreturns, exec_die_after hreturns (hprintf dieOutput (dieOutput_passes _))⟩

/-- For every well-formed record and any operand handles, a recoverable handler
makes exactly one report, at the location of the record, and gives control back;
the matching `_abort` handler prints the same report and then dies. -/
theorem recoverable_handlers_return {ram : Ram} {entry : Entry}
    (h : entry.WellFormed ram) :
    ∃ et fmt args, ∀ printf : Formatter, printf.ReturnsOn entry.names → ∀ c : Console,
      (entry.handle ram).exec printf c =
          (.ok (), ⟨c.reports ++ [⟨.source entry.loc, .error, et, fmt, args⟩],
            c.out ++ errorOutput entry.loc fmt args⟩) ∧
        (entry.handleAbort ram).exec printf c =
          (.error (.crash "SAN: Die()\n"),
            ⟨c.reports ++ [⟨.source entry.loc, .error, et, fmt, args⟩],
              c.out ++ errorOutput entry.loc fmt args ++ [dieOutput]⟩) := by
  rw [entry.handleAbort_eq]
  exact h.soundly.exec entry.locNames_subset

/-- A file name and the name of a type at `0x80000000`, and a double word at
`0x80000010`. -/
def divisorRam : Ram :=
  .ofBytes 0x80000000
    [0x61, 0x2E, 0x63, 0x00,
      0x27, 0x6C, 0x6F, 0x6E, 0x67, 0x20, 0x6C, 0x6F, 0x6E, 0x67, 0x27, 0x00,
      0x00, 0x00, 0x00, 0x00, 0x00, 0x00, 0x00, 0x00]

/-- A division by the 64-bit zero in that memory. -/
theorem recoverable_handlers_return_division : ∃ et fmt args,
    (ubsanHandleDivremOverflow divisorRam
        ⟨⟨0x80000000, 7, 3⟩, IntType.descriptor ⟨6, true, 0x80000004⟩⟩ 8
        0x80000010).exec divisorRam.printf ⟨[], []⟩ =
      (.ok (), ⟨[⟨.source ⟨0x80000000, 7, 3⟩, .error, et, fmt, args⟩],
        errorOutput ⟨0x80000000, 7, 3⟩ fmt args⟩) := by
  let entry : Entry := .divremOverflow
    ⟨⟨0x80000000, 7, 3⟩, IntType.descriptor ⟨6, true, 0x80000004⟩⟩ 8 0x80000010
  have hwell : entry.WellFormed divisorRam :=
    Or.inl ⟨⟨6, true, 0x80000004⟩, rfl, fun _ => by decide⟩
  have hnames : ∀ name ∈ entry.names, divisorRam.Holds (.word name) :=
    @Ram.holds_of_within _ _ 16 (by decide) (by decide)
  obtain ⟨et, fmt, args, hreturn⟩ := recoverable_handlers_return hwell
  exact ⟨et, fmt, args,
    (hreturn _ (divisorRam.printf_reads.returnsOn hnames) ⟨[], []⟩).1⟩

end N64San.Ubsan
