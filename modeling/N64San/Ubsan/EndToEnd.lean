import N64San.Ubsan.Log
import N64San.Wrapper.Delivery

/-!
# From a failed check to the host

The handlers print through the wrapper, the wrapper writes the ring, and the
host reads it.  If the game's formatter spells out what the handlers print, and
the host keeps up, the bytes that reach the host are the log, and the host can
cut it into the reports that the handlers made.
-/

namespace N64San.Ubsan

open Framing Varargs
open IsViewer (Call Chunk RoomyRuns Complete ascii texts unread)

/-- A character of one byte that is not zero. -/
def byteChar (c : Char) : Bool :=
  0 < c.toNat && c.toNat < 256

/-- What the host makes of the bytes it has received. -/
def readHost (bytes : List BigEndian.Byte) : Option (List (List Char × List Char)) :=
  logRecord.readAll (bytes.map charOf)

section Bytes

variable {text : List Char}

theorem byteChar_of_plainChar {c : Char} (h : plainChar c = true) : byteChar c = true := by
  simp only [plainChar, Bool.and_eq_true] at h
  simp only [byteChar, Bool.and_eq_true]
  exact ⟨h.1.2, h.2⟩

theorem all_byteChar_of_plainChar (h : text.all plainChar = true) :
    text.all byteChar = true :=
  List.all_eq_true.mpr fun c hc => byteChar_of_plainChar (List.all_eq_true.mp h c hc)

theorem toNat_ascii {c : Char} (h : byteChar c = true) : (ascii c).toNat = c.toNat := by
  simp only [byteChar, Bool.and_eq_true, decide_eq_true_eq] at h
  rw [ascii, BitVec.toNat_ofNat]
  exact Nat.mod_eq_of_lt h.2

theorem charOf_ascii {c : Char} (h : byteChar c = true) : charOf (ascii c) = c := by
  rw [charOf, toNat_ascii h]
  exact Char.ofNat_toNat c

theorem ascii_ne_zero {c : Char} (h : byteChar c = true) : ascii c ≠ 0 := by
  intro hzero
  have htoNat := toNat_ascii h
  simp only [byteChar, Bool.and_eq_true, decide_eq_true_eq] at h
  rw [hzero] at htoNat
  exact absurd htoNat.symm (Nat.ne_of_gt h.1)

theorem map_charOf_ascii (h : text.all byteChar = true) :
    (text.map ascii).map charOf = text := by
  rw [List.map_map]
  exact List.map_congr_left (fun c hc => charOf_ascii (List.all_eq_true.mp h c hc))
    |>.trans (List.map_id text)

/-- No byte of the log is zero, so no part of it is skipped. -/
theorem texts_of_spelled {chunks : List Chunk} (h : text.all byteChar = true)
    (hspelled : chunks.flatMap Chunk.str = text.map ascii) :
    texts chunks = text.map ascii := by
  have hnonzero : ∀ byte ∈ text.map ascii, decide (byte ≠ 0) = true := by
    intro byte hbyte
    obtain ⟨c, hc, rfl⟩ := List.mem_map.mp hbyte
    exact decide_eq_true (ascii_ne_zero (List.all_eq_true.mp h c hc))
  calc
    texts chunks = (chunks.flatMap Chunk.str).filter (· ≠ 0) := List.filter_flatMap.symm
    _ = (text.map ascii).filter (· ≠ 0) := by rw [hspelled]
    _ = text.map ascii := List.filter_eq_self.mpr hnonzero

theorem logRecord_write_bytes {value : List Char × List Char} (h : PlainRecord value) :
    (logRecord.write value).all byteChar = true := by
  have hconstants : vtBold.toList.all byteChar = true ∧ [':'].all byteChar = true ∧
      vtBoldRed.toList.all byteChar = true ∧ " runtime error: ".toList.all byteChar = true ∧
      vtRst.toList.all byteChar = true ∧ ['\n'].all byteChar = true := by
    decide
  obtain ⟨hbold, hcolon, hred, hseverity, hreset, hnewline⟩ := hconstants
  simp only [logRecord_write, List.all_append, hbold, hcolon, hred, hseverity, hreset,
    hnewline, all_byteChar_of_plainChar h.location, all_byteChar_of_plainChar h.message,
    Bool.and_self]

theorem logRecord_writeAll_bytes {values : List (List Char × List Char)}
    (h : ∀ value ∈ values, PlainRecord value) :
    (logRecord.writeAll values).all byteChar = true := by
  rw [Codec.writeAll, List.all_flatMap, List.all_eq_true]
  exact fun value hvalue => logRecord_write_bytes (h value hvalue)

end Bytes

/-- Whatever well-formed findings are handled, if their names are plain text,
however the formatter cuts what they print into chunks and into calls of the
wrapper, and whenever the host reads: if every chunk leaves a cell of the ring
free, the host gets out exactly the reports that the findings make on their own,
in order. -/
theorem reports_reach_host {ram : Ram} {cvt : U32 → U64} {printf : Formatter}
    {printer : Printer} {findings : List Finding} {calls : List Call}
    {memory : IsViewer.S32 × Bool} {s : IsViewer.Session} (hfindings : findings ≠ [])
    (hwell : ∀ finding ∈ findings, finding.WellFormed ram)
    (hprinter : ∀ finding ∈ findings, PlainPrinter printer (finding.names ram))
    (hprintf : ∀ finding ∈ findings, printf.ReturnsOn (finding.names ram))
    (hruns : RoomyRuns calls (.ret memory, s))
    (hspelled : (calls.flatMap Call.chunks).flatMap Chunk.str =
      (transcript printer
        ((handleAll ram cvt findings).exec printf ⟨[], []⟩).2.out).map ascii) :
    ∃ reports, List.Forall₂ (Finding.Makes ram cvt) findings reports ∧
      readHost (s.consumed ++ unread s.device) =
        some (reports.map (Report.content printer)) := by
  obtain ⟨reports, out, hmakes, hlogs⟩ := handleAll_logs hwell hprinter hprintf
  have hplain : ∀ value ∈ reports.map (Report.content printer), PlainRecord value :=
    List.forall_mem_map.mpr hlogs.plain
  have hbytes := logRecord_writeAll_bytes hplain
  rw [hlogs.exec] at hspelled
  change _ = (transcript printer out).map ascii at hspelled
  rw [hlogs.text] at hspelled
  have hcalls : calls ≠ [] := by
    rintro rfl
    -- Without a call nothing would be printed, but each finding prints a record.
    obtain ⟨finding, rest, rfl⟩ := List.exists_cons_of_ne_nil hfindings
    cases hmakes with
    | cons _ _ => exact absurd hspelled.symm (by simp [Codec.writeAll, logRecord_write, vtBold])
  have htotal : s.consumed ++ unread s.device = texts (calls.flatMap Call.chunks) :=
    hruns.total hcalls
  refine ⟨reports, hmakes, ?_⟩
  rw [readHost, htotal, texts_of_spelled hbytes hspelled, map_charOf_ascii hbytes]
  apply (Codec.readAll_eq_some_iff logRecord_write_ne_nil).mpr
  exact ⟨fun value hvalue => (hplain value hvalue).valid, rfl⟩

/-- Formatters that come back print the same log. -/
theorem handleAll_exec_congr {ram : Ram} {cvt : U32 → U64} {printf printf' : Formatter}
    {findings : List Finding} (hwell : ∀ finding ∈ findings, finding.WellFormed ram)
    (hprintf : ∀ finding ∈ findings, printf.ReturnsOn (finding.names ram))
    (hprintf' : ∀ finding ∈ findings, printf'.ReturnsOn (finding.names ram)) (c : Console) :
    (handleAll ram cvt findings).exec printf c = (handleAll ram cvt findings).exec printf' c := by
  induction findings generalizing c with
  | nil => rfl
  | cons finding findings ih =>
      obtain ⟨hwell, hwells⟩ := List.forall_mem_cons.mp hwell
      obtain ⟨hprintf, hprintfs⟩ := List.forall_mem_cons.mp hprintf
      obtain ⟨hprintf', hprintfs'⟩ := List.forall_mem_cons.mp hprintf'
      obtain ⟨et, fmt, args, hreport, hmessage⟩ := finding.handle_soundly hwell cvt
      have hpasses := errorOutput_passes finding.locNames_subset hmessage.fitting
      rw [handleAll, hreport,
        exec_bind_ok (exec_reportError_ok (fun output h => hprintf output (hpasses output h)) c),
        exec_bind_ok (exec_reportError_ok (fun output h => hprintf' output (hpasses output h)) c)]
      exact ih hwells hprintfs hprintfs' _

/-- What the handlers of the two findings print. -/
def twoFindingsBytes : List BigEndian.Byte :=
  (transcript doubleCastPrinter ((handleAll doubleCastRam (fun _ => 0) twoFindings).exec
    doubleCastRam.printf ⟨[], []⟩).2.out).map ascii

set_option maxRecDepth 8000 in
theorem length_twoFindingsBytes : twoFindingsBytes.length = 266 := by
  have hreturn : ∀ finding ∈ twoFindings,
      Formatter.ReturnsOn (fun _ => .ok ()) (finding.names doubleCastRam) :=
    fun _ _ _ _ => rfl
  rw [twoFindingsBytes,
    handleAll_exec_congr twoFindings_wellFormed twoFindings_return hreturn]
  decide

/-- The log of the two findings, in one chunk. -/
theorem reports_reach_host_two : ∃ s reports,
    List.Forall₂ (Finding.Makes doubleCastRam fun _ => 0) twoFindings reports ∧
      readHost (IsViewer.Session.consumed s ++ unread s.device) =
        some (reports.map (Report.content doubleCastPrinter)) := by
  have hlength : twoFindingsBytes.length < 2 ^ 32 := by
    rw [length_twoFindingsBytes]
    decide
  have hexists : ∀ str : List BigEndian.Byte, str.length < 2 ^ 32 →
      ∃ chunk : Chunk, chunk.str = str := fun str h => ⟨⟨str, h⟩, rfl⟩
  obtain ⟨chunk, hchunk⟩ := hexists twoFindingsBytes hlength
  have hroom : chunk.str.length < IsViewer.ringSize := by
    rw [hchunk, length_twoFindingsBytes]
    decide
  have hspelled : ([Call.printf ⟨[chunk], 0⟩].flatMap Call.chunks).flatMap Chunk.str =
      (transcript doubleCastPrinter ((handleAll doubleCastRam (fun _ => 0) twoFindings).exec
        doubleCastRam.printf ⟨[], []⟩).2.out).map ascii := by
    rw [← twoFindingsBytes, ← hchunk]
    simp [Call.chunks]
  obtain ⟨s, hruns⟩ := IsViewer.roomy_single_runs (fun _ => 0) chunk 0 hroom
  exact ⟨s, reports_reach_host (List.cons_ne_nil _ _) twoFindings_wellFormed
    twoFindings_plain twoFindings_return hruns hspelled⟩

end N64San.Ubsan
