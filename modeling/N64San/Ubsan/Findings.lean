import N64San.Ubsan.CastRecords
import N64San.Ubsan.Recovery

/-!
# What the watched program finds

The handler of casts finds its record in memory and reads it load by load; it
makes one report or fails as well.  With it the handlers are complete: a finding
is what the watched program hands to any of them.
-/

namespace N64San.Ubsan

open BigEndian Varargs

/-! ## Loads in front of a report -/

/-- The program prints one error report at the location, with an argument for
each directive. -/
def ReportsSpecified (loc : SourceLocation) (program : San Unit) : Prop :=
  ∃ et fmt args, program = reportError loc et fmt args ∧
    Output.Specified ⟨fmt, vaStart 4 args⟩

theorem ReportsSoundly.specified {names : List U32} {loc : SourceLocation}
    {program : San Unit} (h : ReportsSoundly names loc program) :
    ReportsSpecified loc program := by
  obtain ⟨et, fmt, args, hreport, hmessage⟩ := h
  exact ⟨et, fmt, args, hreport, (hmessage.fitting.passes 4).specified⟩

section Decides

variable {A : Type} {ram : Ram} {kind : San Unit → Prop} {accepted : Prop}
variable {program : San Unit}

/-- A load in front of a program. -/
theorem decides_load {size : ℕ} {read : Memory → U32 → A} {address : U32}
    {next : A → San Unit} (h : Decides kind accepted (next (read ram.bytes address))) :
    Decides kind (ram.Readable size address ∧ accepted)
      (load ram size read address >>= next) where
  reports := by
    rintro ⟨hreadable, haccepted⟩
    rw [load, if_pos hreadable, pure_bind]
    exact h.reports haccepted
  fails hnot := by
    by_cases hreadable : ram.Readable size address
    · rw [load, if_pos hreadable, pure_bind]
      exact h.fails fun haccepted => hnot ⟨hreadable, haccepted⟩
    · exact (fails_load hreadable).bind _

theorem decides_load8 {address : U32} {next : U8 → San Unit}
    (h : Decides kind accepted (next (ram.bytes address))) :
    Decides kind (ram.Readable 1 address ∧ accepted) (load8 ram address >>= next) :=
  decides_load h

theorem decides_load32 {address : U32} {next : U32 → San Unit}
    (h : Decides kind accepted (next (readWord ram.bytes address))) :
    Decides kind (ram.Readable 4 address ∧ accepted) (load32 ram address >>= next) :=
  decides_load h

/-- A decoder in front of a report. -/
theorem decides_decoder {decoder : San A} {value : A} {next : A → San Unit}
    (hreads : accepted → decoder = pure value) (hfails : ¬ accepted → Fails decoder)
    (hnext : kind (next value)) : Decides kind accepted (decoder >>= next) where
  reports haccepted := by
    rw [hreads haccepted, pure_bind]
    exact hnext
  fails hnot := (hfails hnot).bind _

/-- A test whose other branch fails. -/
theorem decides_ite {answer : Bool} {other : San Unit} (h : Decides kind accepted program)
    (hother : Fails other) :
    Decides kind (answer = false ∧ accepted)
      (if answer = true then other else program) := by
  cases answer with
  | true => exact ⟨fun hboth => absurd hboth.1 (by simp), fun _ => hother⟩
  | false =>
      rw [if_neg Bool.false_ne_true]
      exact h.congr (and_iff_right rfl).symm

end Decides

/-! ## The float cast handler -/

/-- Two readable pieces are one. -/
theorem Ram.Readable.join {ram : Ram} {m n : ℕ} {address : U32}
    (h : ram.Readable m address) (h' : ram.Readable n (address + BitVec.ofNat 32 m)) :
    ram.Readable (m + n) address := by
  intro i hi
  by_cases him : i < m
  · exact h i him
  · have hlast := h' (i - m) (by omega)
    rw [BitVec.add_assoc, ← BitVec.ofNat_add, Nat.add_sub_cancel' (not_lt.mp him)] at hlast
    exact hlast

/-- What the bytes behind the first pointer of a record make of it. -/
def looksOld (ram : Ram) (data : U32) : Bool :=
  let first := ram.bytes (readWord ram.bytes data)
  let second := ram.bytes (readWord ram.bytes data + 1)
  decide (first.setWidth 16 + second.setWidth 16 < (2 : U16)) || decide (first = 0xff) ||
    decide (second = 0xff)

/-- The descriptor that lies at an address. -/
def descriptorAt (ram : Ram) (address : U32) : TypeDescriptor :=
  let word := readWord ram.bytes address
  ⟨word.extractLsb' 16 16, word.setWidth 16, typeNameOf address⟩

/-- A float of a known width, or an integer, can be read through the handle. -/
def TypeDescriptor.CastDecodable (type : TypeDescriptor) (ram : Ram) (val : ValueHandle) :
    Prop :=
  if type.isFloatTy = true then
    type.typeInfo ∈ floatWidths ∧ (type.typeInfo ≠ 32 → ram.Readable 8 val)
  else type.Decodable ram val

/-- The record can be read, does not look old, and leads to a descriptor with
which the handle can be decoded. -/
structure CastAccepted (ram : Ram) (data : U32) (val : ValueHandle) : Prop where
  record : ram.Readable 20 data
  filename : ram.Readable 2 (readWord ram.bytes data)
  new : looksOld ram data = false
  fromType : ram.Readable 4 (readWord ram.bytes (data + 12))
  value : (descriptorAt ram (readWord ram.bytes (data + 12))).CastDecodable ram val

section Cast

variable {ram : Ram} {cvt : U32 → U64} {type : TypeDescriptor} {val : ValueHandle}

theorem getFloatValue_unfold (hfloat : type.isFloatTy = true) :
    Value.getFloatValue ram cvt type val =
      let width : U32 := type.typeInfo.setWidth 32
      if width ≤ 4 * 8 then
        if width = 32 then pure (cvt val)
        else unreachableCode valueFile 140 "unexpected floating point bit width"
      else if width = 64 ∨ width = 80 ∨ width = 96 ∨ width = 128 then load64 ram val
      else unreachableCode valueFile 140 "unexpected floating point bit width" := by
  simp only [Value.getFloatValue, Value.isInlineFloat, TypeDescriptor.getFloatBitWidth, hfloat,
    check_true, pure_bind, decide_eq_true_eq]

theorem getFloatValue_fails (hfloat : type.isFloatTy = true)
    (h : ¬ (type.typeInfo ∈ floatWidths ∧ (type.typeInfo ≠ 32 → ram.Readable 8 val))) :
    Fails (Value.getFloatValue ram cvt type val) := by
  rw [getFloatValue_unfold hfloat]
  dsimp only
  split_ifs with hinline hsingle hknown
  · have hinfo : type.typeInfo = 32 := by bv_omega
    rw [hinfo] at h
    exact absurd ⟨by decide, fun hne => absurd rfl hne⟩ h
  · exact fails_unreachableCode _ _ _
  · have hinfo : type.typeInfo ∈ floatWidths := by
      have hwidth : type.typeInfo = 64 ∨ type.typeInfo = 80 ∨ type.typeInfo = 96 ∨
          type.typeInfo = 128 := by bv_omega
      rcases hwidth with heq | heq | heq | heq <;> rw [heq] <;> decide
    exact fails_load fun hreadable => h ⟨hinfo, fun _ => hreadable⟩
  · exact fails_unreachableCode _ _ _

/-- Whatever its value is, the report of a cast has an argument for each
directive. -/
theorem reportsSpecified_cast (loc : SourceLocation) (value : U64) (fromName toName : U32) :
    (∀ signed, ReportsSpecified loc (ubsanDiag (.source loc) .error .floatCastOverflow
      (integerFormat signed) [.double value, .word fromName, .word toName])) ∧
    ReportsSpecified loc (ubsanDiag (.source loc) .error .floatCastOverflow
      "%f (from type %s) is outside the range of representable values of type %s"
      [.double value, .word fromName, .word toName]) := by
  obtain ⟨high, low, rfl⟩ := exists_append value
  refine ⟨fun signed => ⟨_, _, _, ubsanDiag_source _ _ _ _, ?_⟩,
    ⟨_, _, _, ubsanDiag_source _ _ _ _, ?_⟩⟩
  · exact (specified_cast (vprintf_integerFormat high low fromName toName signed)
      Piece.noConfusion fun _ => Piece.noConfusion).1
  · exact (specified_cast (vprintf_floatFormat high low fromName toName)
      Piece.noConfusion fun _ => Piece.noConfusion).1

/-- The three branches of the handler behind its loads. -/
theorem decides_castReport (loc : SourceLocation) (fromType : TypeDescriptor) (toName : U32) :
    Decides (ReportsSpecified loc) (fromType.CastDecodable ram val)
      (if fromType.isFloatTy = true then do
        ubsanDiag (.source loc) .error .floatCastOverflow
          "%f (from type %s) is outside the range of representable values of type %s"
          [.double (← Value.getFloatValue ram cvt fromType val), .word fromType.typeName,
            .word toName]
      else if fromType.isUnsignedIntegerTy = true then do
        ubsanDiag (.source loc) .error .floatCastOverflow
          "%lu (from type %s) is outside the range of representable values of type %s"
          [.double (← Value.getUIntValue ram fromType val), .word fromType.typeName,
            .word toName]
      else do
        ubsanDiag (.source loc) .error .floatCastOverflow
          "%li (from type %s) is outside the range of representable values of type %s"
          [.double (← Value.getSIntValue ram fromType val), .word fromType.typeName,
            .word toName]) := by
  rw [TypeDescriptor.CastDecodable]
  by_cases hfloat : fromType.isFloatTy = true
  · rw [if_pos hfloat, if_pos hfloat]
    exact decides_decoder (fun h => getFloatValue_eq cvt (of_decide_eq_true hfloat) h.1 h.2)
      (getFloatValue_fails hfloat) (reportsSpecified_cast loc _ _ _).2
  · rw [if_neg hfloat, if_neg hfloat]
    by_cases hunsigned : fromType.isUnsignedIntegerTy = true
    · rw [if_pos hunsigned]
      exact decides_decoder (getUIntValue_eq_unsignedWord hunsigned)
        (getUIntValue_fails hunsigned) ((reportsSpecified_cast loc _ _ _).1 false)
    · rw [if_neg hunsigned]
      have hsigned : fromType.Decodable ram val → fromType.isSignedIntegerTy = true := fun h =>
        isSignedIntegerTy_of_not_unsigned h.1 (Bool.eq_false_of_not_eq_true hunsigned)
      exact decides_decoder (fun h => getSIntValue_eq_signedWord (hsigned h) h)
        (fun h => getSIntValue_fails (Or.inr h)) ((reportsSpecified_cast loc _ _ _).1 true)

theorem castAccepted_iff {data : U32} :
    CastAccepted ram data val ↔
      ram.Readable 4 data ∧ ram.Readable 1 (readWord ram.bytes data) ∧
        ram.Readable 1 (readWord ram.bytes data + 1) ∧ looksOld ram data = false ∧
        ram.Readable 4 data ∧ ram.Readable 4 (data + 4) ∧ ram.Readable 4 (data + 8) ∧
        ram.Readable 4 (data + 12) ∧ ram.Readable 4 (data + 16) ∧
        ram.Readable 4 (readWord ram.bytes (data + 12)) ∧
        (descriptorAt ram (readWord ram.bytes (data + 12))).CastDecodable ram val := by
  constructor
  · rintro ⟨hrecord, hfilename, hnew, hfrom, hvalue⟩
    have hpart : ∀ offset part, offset + part ≤ 20 →
        ram.Readable part (data + BitVec.ofNat 32 offset) := fun _ _ => hrecord.within
    have hstart : ram.Readable 4 data := fun i hi => hrecord i (by omega)
    exact ⟨hstart, fun i hi => hfilename i (by omega),
      hfilename.within (by decide : 1 + 1 ≤ 2), hnew, hstart, hpart 4 4 (by decide),
      hpart 8 4 (by decide), hpart 12 4 (by decide), hpart 16 4 (by decide), hfrom, hvalue⟩
  · rintro ⟨hstart, hfirst, hsecond, hnew, -, hline, hcolumn, hfrom, hto, hdescriptor, hvalue⟩
    exact ⟨(((hstart.join hline).join hcolumn).join hfrom).join hto, hfirst.join hsecond, hnew,
      hdescriptor, hvalue⟩

/-- The handler of casts makes one report or fails. -/
theorem handleFloatCastOverflow_decides (data : U32) :
    Decides (ReportsSpecified (recordLoc ram data)) (CastAccepted ram data val)
      (handleFloatCastOverflow ram cvt data val) := by
  have hold : Fails (n64WrapperAssert "FloatCastOverflowDataV1 is not implemented\n"
      handlersFile 541 : San Unit) := fails_n64WrapperAssert _ _ _
  apply Decides.congr _ castAccepted_iff.symm
  simp only [handleFloatCastOverflow, looksLikeFloatCastOverflowDataV1,
    loadFloatCastOverflowDataV2, loadTypeDescriptor, bind_assoc, pure_bind]
  apply decides_load32
  apply decides_load8
  apply decides_load8
  apply decides_ite _ hold
  apply decides_load32
  apply decides_load32
  apply decides_load32
  apply decides_load32
  apply decides_load32
  apply decides_load32
  exact decides_castReport (recordLoc ram data)
    (descriptorAt ram (readWord ram.bytes (data + 12))) _

end Cast

/-! ## Findings -/

/-- What the watched program hands to the runtime: the record and the handles of
a recoverable handler. -/
inductive Finding
  | entry (entry : Entry)
  | floatCastOverflow (data : U32) (val : ValueHandle)

namespace Finding

variable (ram : Ram) (cvt : U32 → U64)

def handle : Finding → San Unit
  | .entry e => e.handle ram
  | .floatCastOverflow data val => ubsanHandleFloatCastOverflow ram cvt data val

def handleAbort : Finding → San Unit
  | .entry e => e.handleAbort ram
  | .floatCastOverflow data val => ubsanHandleFloatCastOverflowAbort ram cvt data val

/-- The source location in the record of the finding. -/
def loc : Finding → SourceLocation
  | .entry e => e.loc
  | .floatCastOverflow data _ => recordLoc ram data

/-- The strings in memory that a report of the finding may print. -/
def names : Finding → List U32
  | .entry e => e.names
  | .floatCastOverflow data _ => castNames ram data

/-- The finding does not index the table of check kinds out of bounds. -/
def InTable : Finding → Prop
  | .entry e => e.InTable
  | .floatCastOverflow _ _ => True

/-- The findings on which the handler makes a report. -/
def Accepted : Finding → Prop
  | .entry e => e.Accepted ram
  | .floatCastOverflow data val => CastAccepted ram data val

/-- What a compiler emits, the casts of integers apart: their reports take the
value for a name. -/
def WellFormed : Finding → Prop
  | .entry e => e.WellFormed ram
  | .floatCastOverflow data val =>
      ∃ fromType toType, RecordAt ram data fromType toType ∧ fromType.typeKind = tkFloat ∧
        fromType.typeInfo ∈ floatWidths ∧ (fromType.typeInfo ≠ 32 → ram.Readable 8 val)

theorem handleAbort_eq (finding : Finding) :
    finding.handleAbort ram cvt = (do finding.handle ram cvt; die) := by
  cases finding with
  | entry entry => exact entry.handleAbort_eq ram
  | floatCastOverflow data val => rfl

variable {ram cvt}

theorem locNames_subset (finding : Finding) : (finding.loc ram).names ⊆ finding.names ram := by
  cases finding with
  | entry entry => exact entry.locNames_subset
  | floatCastOverflow data val => exact List.subset_append_left _ _

theorem handle_decides {finding : Finding} (h : finding.InTable) :
    Decides (ReportsSpecified (finding.loc ram)) (finding.Accepted ram)
      (finding.handle ram cvt) := by
  cases finding with
  | entry entry => exact (Entry.handle_decides h).mono ReportsSoundly.specified
  | floatCastOverflow data val => exact handleFloatCastOverflow_decides data

/-- A well-formed finding is reported with a format that fits. -/
theorem handle_soundly {finding : Finding} (h : finding.WellFormed ram) (cvt : U32 → U64) :
    ReportsSoundly (finding.names ram) (finding.loc ram) (finding.handle ram cvt) := by
  cases finding with
  | entry entry => exact Entry.WellFormed.soundly h
  | floatCastOverflow data val =>
      obtain ⟨fromType, toType, hrecord, hkind, hwidth, hval⟩ := h
      have hfrom : fromType.typeName ∈ castNames ram data := by
        simp [castNames, hrecord.fromType_at.name]
      have hto : toType.typeName ∈ castNames ram data := by
        simp [castNames, hrecord.toType_at.name]
      have hmessage : ∀ value, Message (castNames ram data)
          "%f (from type %s) is outside the range of representable values of type %s"
          [.double value, .word fromType.typeName, .word toType.typeName] := by
        intro value
        apply @Message.of_fits _ _ _ [.double, .text, .text] (by decide)
        · exact .cons (.double value) (.cons (.name hfrom) (.cons (.name hto) .nil))
        · rfl
      exact ⟨_, _, _, handleFloatCastOverflow_of_float cvt hrecord hkind hwidth hval,
        hmessage _⟩

end Finding

/-- Whatever the record and the operands of a well-formed finding are, and
wherever the formatter may halt, each call that its handler makes of the wrapper,
or that the `_abort` handler makes, prints at every directive the argument passed
for it, and the only pointers that a `%s` follows are the names in the record and
literals of the runtime.  With a formatter that comes back, the calls are those of
one whole report, and of the message of `Die` behind it. -/
theorem reports_follow_only_names {ram : Ram} {finding : Finding}
    (h : finding.WellFormed ram) (cvt : U32 → U64) :
    CallsOnly (Output.Passes (finding.names ram)) (finding.handle ram cvt) ∧
      CallsOnly (Output.Passes (finding.names ram)) (finding.handleAbort ram cvt) ∧
      ∃ fmt args, ∀ printf : Formatter, printf.ReturnsOn (finding.names ram) → ∀ c : Console,
        ((finding.handle ram cvt).exec printf c).2.out =
            c.out ++ errorOutput (finding.loc ram) fmt args ∧
          ((finding.handleAbort ram cvt).exec printf c).2.out =
            c.out ++ errorOutput (finding.loc ram) fmt args ++ [dieOutput] := by
  have hsoundly := finding.handle_soundly h cvt
  have hhandle : CallsOnly (Output.Passes (finding.names ram)) (finding.handle ram cvt) := by
    obtain ⟨et, fmt, args, hreport, hmessage⟩ := hsoundly
    rw [hreport]
    exact callsOnly_reportError
      (errorOutput_passes finding.locNames_subset hmessage.fitting)
  have hdie : CallsOnly (Output.Passes (finding.names ram)) (die : San Unit) :=
    (callsOnly_emit (List.forall_mem_singleton.mpr (dieOutput_passes _))).bind
      fun _ => callsOnly_throw _
  obtain ⟨et, fmt, args, hexec⟩ := hsoundly.exec finding.locNames_subset
  rw [finding.handleAbort_eq]
  refine ⟨hhandle, hhandle.bind fun _ => hdie, fmt, args, fun printf hprintf c => ?_⟩
  obtain ⟨hreturns, hdies⟩ := hexec printf hprintf c
  rw [hreturns, hdies]
  exact ⟨rfl, rfl⟩

/-- A pointer that overflows, in a file whose name is the only string there. -/
def pointerFinding : Finding :=
  .entry (.pointerOverflow ⟨⟨0x80000000, 12, 3⟩⟩ 8 0)

theorem reports_follow_only_names_pointer : ∃ fmt args,
    ((pointerFinding.handleAbort divisorRam fun _ => 0).exec divisorRam.printf ⟨[], []⟩).2.out =
        [] ++ errorOutput ⟨0x80000000, 12, 3⟩ fmt args ++ [dieOutput] ∧
      ∀ output ∈ errorOutput ⟨0x80000000, 12, 3⟩ fmt args ++ [dieOutput],
        output.Passes [0x80000000] := by
  have hnames : ∀ name ∈ pointerFinding.names divisorRam, divisorRam.Holds (.word name) :=
    @Ram.holds_of_within _ _ 16 (by decide) (by decide)
  obtain ⟨-, hcalls, fmt, args, hwhole⟩ :=
    @reports_follow_only_names divisorRam pointerFinding trivial fun _ => 0
  have hout := (hwhole _ (divisorRam.printf_reads.returnsOn hnames) ⟨[], []⟩).2
  obtain ⟨out, hmade, hpasses⟩ := hcalls divisorRam.printf ⟨[], []⟩
  rw [hout, List.append_assoc, List.append_cancel_left_eq] at hmade
  rw [← hmade] at hpasses
  exact ⟨fmt, args, hout, hpasses⟩

end N64San.Ubsan
