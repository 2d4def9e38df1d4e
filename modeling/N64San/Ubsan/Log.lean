import N64San.Core.Codec
import N64San.Ubsan.Runs

/-!
# The log

What a run of the handlers prints is a log of records: a bold location, a red
severity and a bold message.  Neither a location nor a message of a well-formed
finding contains an escape, so the log can be cut into its records again, and the
terminal is left with plain attributes after each of them.
-/

namespace N64San.Ubsan

open Framing Varargs Vt

/-! ## The printed text -/

section Text

variable (printer : Printer)

/-- What one call of the wrapper prints. -/
def Output.text (output : Output) : List Char :=
  printer.print (vprintf output.fmt output.args)

/-- What the calls print, one after the other. -/
def transcript (out : List Output) : List Char :=
  out.flatMap (Output.text printer)

/-- A source location in a report. -/
def locationText (loc : SourceLocation) : List Char :=
  if loc.filename = 0 then "<unknown>".toList
  else if loc.line.toInt ≤ 0 then printer.string (.word loc.filename)
  else if 0 < loc.column.toInt then
    printer.string (.word loc.filename) ++ ':' :: decimalText loc.line.toInt ++
      ':' :: decimalText loc.column.toInt
  else printer.string (.word loc.filename) ++ ':' :: decimalText loc.line.toInt

/-- The message of a report. -/
def messageText (fmt : String) (args : List Arg) : List Char :=
  printer.print (vprintf fmt (vaStart 4 args))

/-- What a report says: where, and what. -/
def Report.content (report : Report) : List Char × List Char :=
  match report.loc with
  | .source loc => (locationText printer loc, messageText printer report.fmt report.args)
  | _ => ("<unknown>".toList, messageText printer report.fmt report.args)

/-- A `printf` that copies its literals and renders everything else, the named
strings among it, in plain characters. -/
structure PlainPrinter (names : List U32) : Prop where
  literal : ∀ text, printer.string (.literal text) = text.toList
  name : ∀ name ∈ names, (printer.string (.word name)).all plainChar = true
  hex : ∀ value, (printer.hex value).all plainChar = true
  float : ∀ value, (printer.float value).all plainChar = true

end Text

/-- The records of a log. -/
def logRecord : Codec Char (List Char × List Char) :=
  .after vtBold.toList
    (.pair (.field [':'] esc "[1;31m runtime error: \x1b[m\x1b[1m".toList (by decide))
      (.field [] esc "[m\n".toList List.not_mem_nil))

theorem logRecord_write_ne_nil (value : List Char × List Char) :
    logRecord.write value ≠ [] :=
  List.cons_ne_nil _ _

section Plain

variable {printer : Printer} {names : List U32}

theorem esc_notMem {text : List Char} (h : text.all plainChar = true) : esc ∉ text := by
  intro hmem
  have hplain := List.all_eq_true.mp h esc hmem
  exact absurd hplain (by decide)

theorem decimalText_plain (value : ℤ) : (decimalText value).all plainChar = true := by
  have hdigit : ∀ c : Char, c.isDigit = true → plainChar c = true := by
    intro c hc
    have hrange := Char.isDigit_iff_toNat.mp hc
    have hne : c ≠ esc := by
      rintro rfl
      exact absurd hc (by decide)
    have hlow : 48 ≤ c.toNat := hrange.1
    have hhigh : c.toNat ≤ 57 := hrange.2
    simp only [plainChar, Bool.and_eq_true, decide_eq_true_eq]
    exact ⟨⟨by simpa using hne, by omega⟩, by omega⟩
  rw [List.all_eq_true]
  intro c hc
  cases value with
  | ofNat n =>
      rw [decimalText, Int.repr, Nat.toList_repr] at hc
      exact hdigit c (Nat.isDigit_of_mem_toDigits (by decide) (by decide) hc)
  | negSucc n =>
      rw [decimalText, Int.repr, String.toList_append, Nat.toList_repr, List.mem_append] at hc
      rcases hc with hsign | hc
      · rw [List.mem_singleton.mp hsign]
        decide
      · exact hdigit c (Nat.isDigit_of_mem_toDigits (by decide) (by decide) hc)

/-- What a directive prints of an argument is plain. -/
theorem piece_plain (hprinter : PlainPrinter printer names) {d : Directive} {arg : Arg}
    {piece : Piece} (hpiece : d.piece? arg = some piece) (harg : plainArg arg = true)
    (hpointer : ∀ slot, piece = .string slot → slot.IsText names) :
    (printer.piece piece).all plainChar = true := by
  cases d <;> cases arg <;> cases hpiece
  case signed.word value => exact decimalText_plain value.toInt
  case unsigned.word value => exact decimalText_plain value.toNat
  case hex.word value => exact hprinter.hex value
  case float.double value => exact hprinter.float value
  case string.literal text =>
      rw [Printer.piece, hprinter.literal]
      exact harg
  case string.word pointer =>
      rcases hpointer _ rfl with ⟨text, htext⟩ | ⟨name, hname, hword⟩
      · cases htext
      · cases hword
        exact hprinter.name pointer hname

/-- The message of a report is plain. -/
theorem Message.text_plain {fmt : String} {args : List Arg}
    (hprinter : PlainPrinter printer names) (h : Message names fmt args) :
    (messageText printer fmt args).all plainChar = true := by
  obtain ⟨kinds, hfits, hargs⟩ := h.fitting
  obtain ⟨pieces, hrender, hreads⟩ := fits_sound hfits hargs
  rw [messageText, vprintf_vaStart hrender 4, List.all_eq_true]
  intro c hc
  obtain ⟨piece, hpiece, hmem⟩ := List.mem_flatMap.mp hc
  rcases mem_of_render hrender hpiece with ⟨d, hd, rfl⟩ | ⟨d, arg, harg, hd⟩
  · rw [List.mem_singleton.mp hmem]
    exact List.all_eq_true.mp h.format d (mem_of_text_mem_parse hd)
  · have hplain := piece_plain hprinter hd (List.all_eq_true.mp h.arguments arg harg)
      fun slot hslot => hreads slot
        (List.mem_filterMap.mpr ⟨piece, hpiece, by rw [hslot]⟩)
    exact List.all_eq_true.mp hplain c hmem

theorem locationText_plain (hprinter : PlainPrinter printer names) {loc : SourceLocation}
    (hloc : loc.names ⊆ names) :
    (locationText printer loc).all plainChar = true := by
  have hcolon : plainChar ':' = true := by decide
  rw [locationText]
  by_cases hunknown : loc.filename = 0
  · rw [if_pos hunknown]
    decide
  have hfile := hprinter.name _ (hloc (SourceLocation.filename_mem_names hunknown))
  rw [if_neg hunknown]
  split_ifs
  · exact hfile
  · simp only [List.all_append, List.all_cons, hfile, hcolon, decimalText_plain, Bool.and_self]
  · simp only [List.all_append, List.all_cons, hfile, hcolon, decimalText_plain, Bool.and_self]

/-- The calls that print a location print its text. -/
theorem transcript_locationOutput (loc : SourceLocation) :
    transcript printer (locationOutput loc) = locationText printer loc := by
  have hunknown : (printfOutput "<unknown>" []).text printer = "<unknown>".toList := rfl
  have hfile : (printfOutput "%s" [.word loc.filename]).text printer =
      printer.string (.word loc.filename) := by
    have hpieces : vprintf "%s" (vaStart 1 [.word loc.filename]) =
        [.string (.word loc.filename)] := rfl
    simp [Output.text, printfOutput, hpieces, Printer.print, Printer.piece]
  have hnumber : ∀ value : U32, (printfOutput ":%d" [.word value]).text printer =
      ':' :: decimalText value.toInt := by
    intro value
    have hpieces : vprintf ":%d" (vaStart 1 [.word value]) =
        [.text ':', .decimal value.toInt] := rfl
    simp [Output.text, printfOutput, hpieces, Printer.print, Printer.piece]
  rw [locationOutput, locationText]
  split_ifs
  · simp only [transcript, List.flatMap_cons, List.flatMap_nil, hunknown, List.append_nil]
  · simp only [transcript, List.flatMap_cons, List.flatMap_nil, hfile, List.append_nil]
  · simp only [transcript, List.flatMap_cons, List.flatMap_nil, hfile, hnumber,
      List.append_nil, List.append_assoc]
  · simp only [transcript, List.flatMap_cons, List.flatMap_nil, hfile, hnumber,
      List.append_nil]

/-- The calls that print a report print one record. -/
theorem transcript_errorOutput
    (hliteral : ∀ text, printer.string (.literal text) = text.toList)
    (loc : SourceLocation) (fmt : String) (args : List Arg) :
    transcript printer (errorOutput loc fmt args) =
      logRecord.write (locationText printer loc, messageText printer fmt args) := by
  have hbold : (printfOutput vtBold []).text printer = vtBold.toList := rfl
  have hcolon : (printfOutput ":" []).text printer = [':'] := rfl
  have herror : (printfOutput "%s runtime error: %s%s"
      [.literal vtBoldRed, .literal vtRst, .literal vtBold]).text printer =
      vtBoldRed.toList ++
        (" runtime error: ".toList ++ (vtRst.toList ++ (vtBold.toList ++ []))) := by
    rw [← hliteral vtBoldRed, ← hliteral vtRst, ← hliteral vtBold]
    rfl
  have hreset : (printfOutput "%s\n" [.literal vtRst]).text printer =
      vtRst.toList ++ ['\n'] := by
    rw [← hliteral vtRst]
    rfl
  have hmessage : (Output.mk fmt (vaStart 4 args)).text printer =
      messageText printer fmt args := rfl
  calc
    transcript printer (errorOutput loc fmt args) =
        (printfOutput vtBold []).text printer ++ transcript printer (locationOutput loc) ++
          ((printfOutput ":" []).text printer ++
            ((printfOutput "%s runtime error: %s%s"
              [.literal vtBoldRed, .literal vtRst, .literal vtBold]).text printer ++
              ((Output.mk fmt (vaStart 4 args)).text printer ++
                ((printfOutput "%s\n" [.literal vtRst]).text printer ++ [])))) := by
      simp only [transcript, errorOutput, List.flatMap_append, List.flatMap_cons,
        List.flatMap_nil]
    _ = logRecord.write (locationText printer loc, messageText printer fmt args) := by
      rw [hbold, hcolon, herror, hreset, hmessage, transcript_locationOutput]
      simp [logRecord, Codec.after, Codec.pair, Codec.field, vtBold, vtBoldRed, vtRst, esc]

end Plain

/-! ## Runs of the handlers -/

/-- A record of plain text. -/
structure PlainRecord (value : List Char × List Char) : Prop where
  location : value.1.all plainChar = true
  message : value.2.all plainChar = true

theorem PlainRecord.valid {value : List Char × List Char} (h : PlainRecord value) :
    logRecord.Valid value :=
  ⟨esc_notMem h.location, esc_notMem h.message⟩

/-- A program that appends the reports and prints their records. -/
structure Logs (printf : Formatter) (printer : Printer) (program : San Unit) (reports : List Report)
    (out : List Output) : Prop where
  exec : ∀ c : Console,
    program.exec printf c = (.ok (), ⟨c.reports ++ reports, c.out ++ out⟩)
  text : transcript printer out = logRecord.writeAll (reports.map (Report.content printer))
  plain : ∀ report ∈ reports, PlainRecord (report.content printer)

section Runs

variable {ram : Ram} {cvt : U32 → U64} {printf : Formatter} {printer : Printer}

theorem Logs.nil : Logs printf printer (pure ()) [] [] where
  exec c := by
    rw [List.append_nil, List.append_nil]
    rfl
  text := rfl
  plain report hreport := absurd hreport List.not_mem_nil

theorem Logs.append {program program' : San Unit} {reports reports' : List Report}
    {out out' : List Output} (h : Logs printf printer program reports out)
    (h' : Logs printf printer program' reports' out') :
    Logs printf printer (do program; program') (reports ++ reports') (out ++ out') where
  exec c := by
    rw [exec_bind_ok (h.exec c), h'.exec, List.append_assoc, List.append_assoc]
  text := by
    rw [transcript, List.flatMap_append, List.map_append, Codec.writeAll,
      List.flatMap_append]
    exact congrArg₂ (· ++ ·) h.text h'.text
  plain report hreport :=
    (List.mem_append.mp hreport).elim (h.plain report) (h'.plain report)

/-- What was printed can be cut into the records again. -/
theorem Logs.readAll {program : San Unit} {reports : List Report} {out : List Output}
    (h : Logs printf printer program reports out) :
    logRecord.readAll (transcript printer out) =
      some (reports.map (Report.content printer)) := by
  apply (Codec.readAll_eq_some_iff logRecord_write_ne_nil).mpr
  exact ⟨List.forall_mem_map.mpr fun report hreport => (h.plain report hreport).valid, h.text⟩

/-- A well-formed finding appends one record to the log. -/
theorem Finding.handle_logs {finding : Finding} (h : finding.WellFormed ram)
    (hprinter : PlainPrinter printer (finding.names ram))
    (hprintf : printf.ReturnsOn (finding.names ram)) :
    ∃ report out, finding.Makes ram cvt report ∧
      Logs printf printer (finding.handle ram cvt) [report] out := by
  obtain ⟨et, fmt, args, hreport, hmessage⟩ := finding.handle_soundly h cvt
  refine ⟨_, errorOutput (finding.loc ram) fmt args, ⟨et, fmt, args, rfl, hreport⟩, ?_⟩
  rw [hreport]
  exact {
    exec := exec_reportError_ok fun output houtput => hprintf output
      (errorOutput_passes finding.locNames_subset hmessage.fitting output houtput)
    text := (transcript_errorOutput hprinter.literal (finding.loc ram) fmt args).trans
      (List.append_nil _).symm
    plain := List.forall_mem_singleton.mpr
      ⟨locationText_plain hprinter finding.locNames_subset, hmessage.text_plain hprinter⟩ }

/-- Well-formed findings append one record each. -/
theorem handleAll_logs {findings : List Finding}
    (hwell : ∀ finding ∈ findings, finding.WellFormed ram)
    (hprinter : ∀ finding ∈ findings, PlainPrinter printer (finding.names ram))
    (hprintf : ∀ finding ∈ findings, printf.ReturnsOn (finding.names ram)) :
    ∃ reports out, List.Forall₂ (Finding.Makes ram cvt) findings reports ∧
      Logs printf printer (handleAll ram cvt findings) reports out := by
  induction findings with
  | nil => exact ⟨[], [], .nil, Logs.nil⟩
  | cons finding findings ih =>
      obtain ⟨hwell, hwells⟩ := List.forall_mem_cons.mp hwell
      obtain ⟨hprinter, hprinters⟩ := List.forall_mem_cons.mp hprinter
      obtain ⟨hprintf, hprintfs⟩ := List.forall_mem_cons.mp hprintf
      obtain ⟨report, out, hmakes, hfirst⟩ := Finding.handle_logs hwell hprinter hprintf
      obtain ⟨reports, out', hall, hrest⟩ := ih hwells hprinters hprintfs
      exact ⟨report :: reports, out ++ out', .cons hmakes hall, hfirst.append hrest⟩

/-- After any run of handlers on well-formed findings the log can be cut into
records again: one for each finding, in order, with the exact location and
message of the report that the finding makes on its own. -/
theorem log_reads_back {findings : List Finding}
    (hwell : ∀ finding ∈ findings, finding.WellFormed ram)
    (hprinter : ∀ finding ∈ findings, PlainPrinter printer (finding.names ram))
    (hprintf : ∀ finding ∈ findings, printf.ReturnsOn (finding.names ram)) :
    ∃ reports out,
      (handleAll ram cvt findings).exec printf ⟨[], []⟩ = (.ok (), ⟨reports, out⟩) ∧
      List.Forall₂ (Finding.Makes ram cvt) findings reports ∧
      logRecord.readAll (transcript printer out) =
        some (reports.map (Report.content printer)) := by
  obtain ⟨reports, out, hmakes, hlogs⟩ := handleAll_logs hwell hprinter hprintf
  exact ⟨reports, out, hlogs.exec ⟨[], []⟩, hmakes, hlogs.readAll⟩

end Runs

/-! ## A log of two findings -/

/-- A character of one byte, as the host shows it. -/
def charOf (byte : U8) : Char :=
  Char.ofNat byte.toNat

/-- A number as `%X` prints it. -/
def upperHexText (value : ℕ) : List Char :=
  if value = 0 then ['0']
  else (Nat.digits 16 value).reverse.map fun digit => (Nat.digitChar digit).toUpper

/-- A `printf` that finds strings of less than 32 bytes in memory. -/
def memoryPrinter (ram : Ram) (float : U64 → List Char) : Printer where
  string
    | .literal text => text.toList
    | .word address => ((ram.stringWithin 32 address).getD []).map charOf
    | .padding => []
  hex value := upperHexText value.toNat
  float
  unspecified := []

theorem upperHexText_plain (value : ℕ) : (upperHexText value).all plainChar = true := by
  have hdigit : ∀ digit < 16, plainChar (Nat.digitChar digit).toUpper = true := by decide
  rw [upperHexText]
  split_ifs
  · decide
  · rw [List.all_map, List.all_eq_true]
    exact fun digit hmem => hdigit digit (Nat.digits_lt_base (by decide) (List.mem_reverse.mp hmem))

theorem memoryPrinter_plain {ram : Ram} {float : U64 → List Char} {names : List U32}
    (hnames : names.all (fun name =>
      (((ram.stringWithin 32 name).getD []).map charOf).all plainChar) = true)
    (hfloat : ∀ value, (float value).all plainChar = true) :
    PlainPrinter (memoryPrinter ram float) names where
  literal _ := rfl
  name := List.all_eq_true.mp hnames
  hex value := upperHexText_plain value.toNat
  float := hfloat

/-- The record at `0x80000000`, its file name, its two descriptors and the value
1e10, for a cast from `double` to `int`. -/
def doubleCastBytes : List U8 :=
  [0x80, 0x00, 0x00, 0x14, 0x00, 0x00, 0x00, 0x07, 0x00, 0x00, 0x00, 0x03,
    0x80, 0x00, 0x00, 0x18, 0x80, 0x00, 0x00, 0x26,
    0x61, 0x2E, 0x63, 0x00,
    0x00, 0x01, 0x00, 0x40, 0x27, 0x64, 0x6F, 0x75, 0x62, 0x6C, 0x65, 0x27, 0x00, 0x00,
    0x00, 0x00, 0x00, 0x0B, 0x27, 0x69, 0x6E, 0x74, 0x27, 0x00,
    0x42, 0x02, 0xA0, 0x5F, 0x20, 0x00, 0x00, 0x00]

def doubleCastRam : Ram :=
  .ofBytes 0x80000000 doubleCastBytes

/-- Prints the only float of that memory, and no other. -/
def doubleCastPrinter : Printer :=
  memoryPrinter doubleCastRam fun bits =>
    if bits = 0x4202A05F20000000 then "10000000000.000000".toList else []

theorem doubleCastRam_record :
    RecordAt doubleCastRam 0x80000000 ⟨tkFloat, 64, 0x8000001C⟩
      ⟨tkInteger, 11, 0x8000002A⟩ where
  readable := by decide
  filename := ⟨by decide, by decide, Or.inr (by decide)⟩
  fromType_at := ⟨by decide, by decide, by decide, by decide, by decide⟩
  toType_at := ⟨by decide, by decide, by decide, by decide, by decide⟩

/-- A pointer that overflows, and then a cast. -/
def twoFindings : List Finding :=
  [.entry (.pointerOverflow ⟨⟨0x80000014, 12, 3⟩⟩ 0x80123ABC 0),
    .floatCastOverflow 0x80000000 0x80000030]

theorem twoFindings_wellFormed :
    ∀ finding ∈ twoFindings, finding.WellFormed doubleCastRam := by
  rw [twoFindings, List.forall_mem_cons, List.forall_mem_singleton]
  exact ⟨trivial, _, _, doubleCastRam_record, rfl, by decide, fun _ => by decide⟩

theorem twoFindings_plain :
    ∀ finding ∈ twoFindings, PlainPrinter doubleCastPrinter (finding.names doubleCastRam) := by
  have hfloat : ∀ value : U64, (if value = 0x4202A05F20000000 then "10000000000.000000".toList
      else []).all plainChar = true := by
    intro value
    split_ifs <;> decide
  rw [twoFindings, List.forall_mem_cons, List.forall_mem_singleton]
  exact ⟨memoryPrinter_plain (by decide) hfloat, memoryPrinter_plain (by decide) hfloat⟩

theorem twoFindings_return :
    ∀ finding ∈ twoFindings, doubleCastRam.printf.ReturnsOn (finding.names doubleCastRam) := by
  have hreturns : ∀ names : List U32,
      names.all (fun name => (doubleCastRam.stringWithin 32 name).isSome) = true →
        doubleCastRam.printf.ReturnsOn names := fun names hnames =>
    doubleCastRam.printf_reads.returnsOn (Ram.holds_of_within (by decide) hnames)
  rw [twoFindings, List.forall_mem_cons, List.forall_mem_singleton]
  exact ⟨hreturns _ (by decide), hreturns _ (by decide)⟩

theorem log_reads_back_two : ∃ reports out,
    (handleAll doubleCastRam (fun _ => 0) twoFindings).exec doubleCastRam.printf ⟨[], []⟩ =
        (.ok (), ⟨reports, out⟩) ∧
      List.Forall₂ (Finding.Makes doubleCastRam fun _ => 0) twoFindings reports ∧
      logRecord.readAll (transcript doubleCastPrinter out) =
        some (reports.map (Report.content doubleCastPrinter)) :=
  log_reads_back twoFindings_wellFormed twoFindings_plain twoFindings_return

/-! ## What the terminal shows -/

section Shown

open Terminal

def boldAttributes : Attributes := ⟨true, none⟩

def boldRedAttributes : Attributes := ⟨true, some 1⟩

/-- A record on the screen. -/
def recordShown (value : List Char × List Char) : Screen :=
  (value.1 ++ [':']).map (fun c => (c, boldAttributes)) ++
    " runtime error: ".toList.map (fun c => (c, boldRedAttributes)) ++
    value.2.map (fun c => (c, boldAttributes)) ++ [('\n', .plain)]

theorem feed_vtBold (screen : Screen) :
    (writing .plain screen).feed vtBold.toList = writing boldAttributes screen := rfl

theorem feed_vtBoldRed (attributes : Attributes) (screen : Screen) :
    (writing attributes screen).feed vtBoldRed.toList = writing boldRedAttributes screen := rfl

theorem feed_vtRst (attributes : Attributes) (screen : Screen) :
    (writing attributes screen).feed vtRst.toList = writing .plain screen := rfl

theorem logRecord_write (value : List Char × List Char) :
    logRecord.write value = vtBold.toList ++ ((value.1 ++ [':']) ++ (vtBoldRed.toList ++
      (" runtime error: ".toList ++ (vtRst.toList ++ (vtBold.toList ++
        (value.2 ++ (vtRst.toList ++ ['\n']))))))) := by
  simp [logRecord, Codec.after, Codec.pair, Codec.field, vtBold, vtBoldRed, vtRst, esc]

/-- A record is shown in bold and red, and leaves the attributes plain. -/
theorem feed_record {value : List Char × List Char} (h : logRecord.Valid value)
    (screen : Screen) :
    (writing .plain screen).feed (logRecord.write value) =
      writing .plain (screen ++ recordShown value) := by
  obtain ⟨hlocation, hmessage⟩ := h
  have hplace : esc ∉ value.1 ++ [':'] := by
    rw [List.mem_append, not_or]
    exact ⟨hlocation, by decide⟩
  have hseverity : esc ∉ " runtime error: ".toList := by decide
  have hnewline : esc ∉ ['\n'] := by decide
  rw [logRecord_write, feed_append, feed_vtBold, feed_append, feed_text hplace, feed_append,
    feed_vtBoldRed, feed_append, feed_text hseverity, feed_append, feed_vtRst, feed_append,
    feed_vtBold, feed_append, feed_text hmessage, feed_append, feed_vtRst,
    feed_text hnewline]
  simp only [recordShown, List.append_assoc, List.map_cons, List.map_nil]

/-- Records are shown one after the other. -/
theorem feed_writeAll {values : List (List Char × List Char)}
    (h : ∀ value ∈ values, logRecord.Valid value) (screen : Screen) :
    (writing .plain screen).feed (logRecord.writeAll values) =
      writing .plain (screen ++ values.flatMap recordShown) := by
  induction values generalizing screen with
  | nil => exact congrArg (writing .plain) (List.append_nil screen).symm
  | cons value values ih =>
      obtain ⟨hvalue, hvalues⟩ := List.forall_mem_cons.mp h
      have hwrite : logRecord.writeAll (value :: values) =
          logRecord.write value ++ logRecord.writeAll values := rfl
      rw [hwrite, feed_append, feed_record hvalue, ih hvalues, List.flatMap_cons,
        List.append_assoc]

/-- Whatever well-formed findings are handled, if their names are plain text, a
plain terminal shows their records in the attributes meant for them and is plain
again afterwards: no message and nothing of what stands around it changes how
later text is shown. -/
theorem log_leaves_terminal_plain {ram : Ram} {cvt : U32 → U64} {printf : Formatter}
    {printer : Printer} {findings : List Finding}
    (hwell : ∀ finding ∈ findings, finding.WellFormed ram)
    (hprinter : ∀ finding ∈ findings, PlainPrinter printer (finding.names ram))
    (hprintf : ∀ finding ∈ findings, printf.ReturnsOn (finding.names ram))
    (screen : Screen) :
    ∃ reports, List.Forall₂ (Finding.Makes ram cvt) findings reports ∧
      (writing .plain screen).feed
          (transcript printer ((handleAll ram cvt findings).exec printf ⟨[], []⟩).2.out) =
        writing .plain (screen ++ reports.flatMap fun report =>
          recordShown (report.content printer)) := by
  obtain ⟨reports, out, hmakes, hlogs⟩ := handleAll_logs hwell hprinter hprintf
  have hvalid : ∀ value ∈ reports.map (Report.content printer), logRecord.Valid value :=
    List.forall_mem_map.mpr fun report hreport => (hlogs.plain report hreport).valid
  refine ⟨reports, hmakes, ?_⟩
  rw [hlogs.exec]
  change (writing .plain screen).feed (transcript printer out) = _
  rw [hlogs.text, feed_writeAll hvalid, List.flatMap_map]

theorem log_leaves_terminal_plain_two : ∃ reports,
    List.Forall₂ (Finding.Makes doubleCastRam fun _ => 0) twoFindings reports ∧
      (writing .plain []).feed (transcript doubleCastPrinter
          ((handleAll doubleCastRam (fun _ => 0) twoFindings).exec doubleCastRam.printf
            ⟨[], []⟩).2.out) =
        writing .plain ([] ++ reports.flatMap fun report =>
          recordShown (report.content doubleCastPrinter)) :=
  log_leaves_terminal_plain twoFindings_wellFormed twoFindings_plain twoFindings_return []

end Shown

end N64San.Ubsan
