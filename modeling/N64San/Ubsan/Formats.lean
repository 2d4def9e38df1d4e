import N64San.Core.Format
import N64San.Core.Terminal
import N64San.Ubsan.Diag

/-!
# Formats and what they read

A format that fits its arguments prints each of them at its own directive, and
follows no operand as if it were a string.  The calls that print a report have
such formats, its message apart; so a report comes back if its message fits and
its names lead to strings.
-/

namespace N64San.Ubsan

open Varargs

/-- The call prints at every directive the argument that was passed for it, and
the only strings that it reads are literals and the given ones. -/
structure Output.Passes (names : List U32) (output : Output) : Prop where
  rendered : render? output.fmt output.args.args = some output.pieces
  reads : ReadsOnly names output.pieces

/-- What the runtime relies on, in terms of the names that lead to strings: a
call comes back if it prints what is passed and reads nothing else. -/
def Formatter.ReturnsOn (printf : Formatter) (names : List U32) : Prop :=
  ∀ output : Output, output.Passes names → printf output = .ok ()

/-- The string that the location of a report may print. -/
def SourceLocation.names (loc : SourceLocation) : List U32 :=
  if loc.filename = 0 then [] else [loc.filename]

section Passes

variable {names names' : List U32} {output : Output}

theorem Output.Passes.mono (h : output.Passes names) (hsub : names ⊆ names') :
    output.Passes names' where
  rendered := h.rendered
  reads slot hslot := (h.reads slot hslot).imp_right fun ⟨name, hname, heq⟩ =>
    ⟨name, hsub hname, heq⟩

theorem Output.Passes.specified (h : output.Passes names) : output.Specified where
  pieces := unspecified_notMem_of_render h.rendered
  pointers hpadding := by
    rcases h.reads _ hpadding with ⟨_, heq⟩ | ⟨_, _, heq⟩ <;> cases heq

theorem SourceLocation.filename_mem_names {loc : SourceLocation} (h : loc.filename ≠ 0) :
    loc.filename ∈ loc.names := by
  rw [names, if_neg h]
  exact List.mem_singleton_self _

/-- A formatter that reads memory comes back if all names lead to strings. -/
theorem Formatter.Reads.returnsOn {printf : Formatter} {ram : Ram} (h : printf.Reads ram)
    (hnames : ∀ name ∈ names, ram.Holds (.word name)) : printf.ReturnsOn names := by
  intro output houtput
  apply (h output houtput.specified).mpr
  intro slot hslot
  rcases houtput.reads slot hslot with ⟨text, rfl⟩ | ⟨name, hname, rfl⟩
  · trivial
  · exact hnames name hname

theorem Formatter.ReturnsOn.mono {printf : Formatter} (h : printf.ReturnsOn names')
    (hsub : names ⊆ names') : printf.ReturnsOn names := fun output houtput =>
  h output (houtput.mono hsub)

end Passes

/-! ## One format -/

section Fitting

variable {names : List U32}

/-- The format fits the arguments. -/
def Fitting (names : List U32) (fmt : String) (args : List Arg) : Prop :=
  ∃ kinds, fits (parse false fmt.toList) kinds = true ∧
    List.Forall₂ (HasKind names) kinds args

/-- What such a call prints, however many named arguments there are. -/
theorem Fitting.passes {fmt : String} {args : List Arg} (h : Fitting names fmt args)
    (fixed : ℕ) : Output.Passes names ⟨fmt, vaStart fixed args⟩ := by
  obtain ⟨kinds, hfits, hargs⟩ := h
  obtain ⟨pieces, hrender, hreads⟩ := fits_sound hfits hargs
  have hpieces : Output.pieces ⟨fmt, vaStart fixed args⟩ = pieces :=
    vprintf_vaStart hrender fixed
  constructor
  · rw [hpieces]
    exact hrender
  · rw [hpieces]
    exact hreads

theorem fitting_nil {fmt : String} (h : fits (parse false fmt.toList) [] = true) :
    Fitting names fmt [] :=
  ⟨[], h, .nil⟩

theorem fitting_number {fmt : String}
    (h : fits (parse false fmt.toList) [.number] = true) (value : U32) :
    Fitting names fmt [.word value] :=
  ⟨_, h, .cons (.number value) .nil⟩

/-! ## The calls of a report -/

/-- The calls that print a location. -/
theorem locationOutput_passes (loc : SourceLocation) :
    ∀ output ∈ locationOutput loc, output.Passes loc.names := by
  have hunknown : (printfOutput "<unknown>" []).Passes loc.names :=
    (fitting_nil (by decide)).passes 1
  have hnumber : ∀ value, (printfOutput ":%d" [.word value]).Passes loc.names :=
    fun value => (fitting_number (by decide) value).passes 1
  rw [locationOutput]
  by_cases hfile : loc.filename = 0
  · rw [if_pos hfile]
    exact List.forall_mem_singleton.mpr hunknown
  · have hname : (printfOutput "%s" [.word loc.filename]).Passes loc.names :=
      Fitting.passes ⟨[.text], by decide,
        .cons (.name (SourceLocation.filename_mem_names hfile)) .nil⟩ 1
    rw [if_neg hfile]
    split_ifs <;> simp [hname, hnumber]

/-- What holds of the calls that print an error, if it holds of its message and
of calls that read at most the name of the file. -/
theorem forall_mem_errorOutput {P : Output → Prop} {loc : SourceLocation} {fmt : String}
    {args : List Arg} (hframe : ∀ output, output.Passes loc.names → P output)
    (hmessage : P ⟨fmt, vaStart 4 args⟩) :
    ∀ output ∈ errorOutput loc fmt args, P output := by
  have hbold : (printfOutput vtBold []).Passes loc.names := (fitting_nil (by decide)).passes 1
  have hcolon : (printfOutput ":" []).Passes loc.names := (fitting_nil (by decide)).passes 1
  have herror : (printfOutput "%s runtime error: %s%s"
      [.literal vtBoldRed, .literal vtRst, .literal vtBold]).Passes loc.names :=
    Fitting.passes ⟨[.text, .text, .text], by decide,
      .cons (.literal _) (.cons (.literal _) (.cons (.literal _) .nil))⟩ 1
  have hreset : (printfOutput "%s\n" [.literal vtRst]).Passes loc.names :=
    Fitting.passes ⟨[.text], by decide, .cons (.literal _) .nil⟩ 1
  intro output houtput
  simp only [errorOutput, List.mem_append, List.mem_cons, List.not_mem_nil, or_false]
    at houtput
  rcases houtput with (rfl | hloc) | rfl | rfl | rfl | rfl
  · exact hframe _ hbold
  · exact hframe _ (locationOutput_passes loc output hloc)
  · exact hframe _ hcolon
  · exact hframe _ herror
  · exact hmessage
  · exact hframe _ hreset

theorem errorOutput_passes {loc : SourceLocation} {fmt : String} {args : List Arg}
    (hloc : loc.names ⊆ names) (h : Fitting names fmt args) :
    ∀ output ∈ errorOutput loc fmt args, output.Passes names :=
  forall_mem_errorOutput (fun _ houtput => houtput.mono hloc) (h.passes 4)

/-- A report comes back if the strings in its message are there, and its file
name is one. -/
theorem errorOutput_returns_iff {printf : Formatter} {ram : Ram} {loc : SourceLocation}
    {fmt : String} {args : List Arg} (hprintf : printf.Reads ram)
    (hfile : ∀ name ∈ loc.names, ram.Holds (.word name))
    (hmessage : Output.Specified ⟨fmt, vaStart 4 args⟩) :
    (∀ output ∈ errorOutput loc fmt args, printf output = .ok ()) ↔
      ∀ slot ∈ pointers (vprintf fmt (vaStart 4 args)), ram.Holds slot := by
  have hmem : Output.mk fmt (vaStart 4 args) ∈ errorOutput loc fmt args := by
    simp [errorOutput]
  constructor
  · exact fun hall => (hprintf _ hmessage).mp (hall _ hmem)
  · exact fun hholds => forall_mem_errorOutput (hprintf.returnsOn hfile)
      ((hprintf _ hmessage).mpr hholds)

/-! ## Messages -/

/-- A character of one byte, not zero, that begins no escape sequence. -/
def plainChar (c : Char) : Bool :=
  c ≠ Vt.esc && 0 < c.toNat && c.toNat < 256

/-- A literal argument has plain characters only. -/
def plainArg : Arg → Bool
  | .literal text => text.toList.all plainChar
  | _ => true

/-- The format fits the arguments, and both are plain text. -/
structure Message (names : List U32) (fmt : String) (args : List Arg) : Prop where
  fitting : Fitting names fmt args
  format : fmt.toList.all plainChar = true
  arguments : args.all plainArg = true

/-- The program prints one error report at the location with a message that
fits. -/
def ReportsSoundly (names : List U32) (loc : SourceLocation) (program : San Unit) : Prop :=
  ∃ et fmt args, program = reportError loc et fmt args ∧ Message names fmt args

theorem reportsSoundly_ubsanDiag {loc : SourceLocation} (et : ErrorType) {fmt : String}
    {args : List Arg} (h : Message names fmt args) :
    ReportsSoundly names loc (ubsanDiag (.source loc) .error et fmt args) :=
  ⟨et, fmt, args, ubsanDiag_source loc et fmt args, h⟩

/-- The check of a message's format against the kinds of its arguments. -/
def messageFits (fmt : String) (kinds : List Kind) : Bool :=
  fits (parse false fmt.toList) kinds && fmt.toList.all plainChar

theorem Message.of_fits {fmt : String} {args : List Arg} {kinds : List Kind}
    (h : messageFits fmt kinds = true) (hargs : List.Forall₂ (HasKind names) kinds args)
    (hplain : args.all plainArg = true) : Message names fmt args := by
  obtain ⟨hfits, hformat⟩ := Bool.and_eq_true_iff.mp h
  exact ⟨⟨kinds, hfits, hargs⟩, hformat, hplain⟩

theorem message_nil {fmt : String} (h : messageFits fmt [] = true) : Message names fmt [] :=
  .of_fits h .nil rfl

theorem message_number {fmt : String} (h : messageFits fmt [.number] = true) (value : U32) :
    Message names fmt [.word value] :=
  .of_fits h (.cons (.number value) .nil) rfl

theorem message_number_number {fmt : String}
    (h : messageFits fmt [.number, .number] = true) (left right : U32) :
    Message names fmt [.word left, .word right] :=
  .of_fits h (.cons (.number left) (.cons (.number right) .nil)) rfl

theorem message_number_name {fmt : String} (h : messageFits fmt [.number, .text] = true)
    (value : U32) {name : U32} (hname : name ∈ names) :
    Message names fmt [.word value, .word name] :=
  .of_fits h (.cons (.number value) (.cons (.name hname) .nil)) rfl

theorem message_number_number_name {fmt : String}
    (h : messageFits fmt [.number, .number, .text] = true) (left right : U32) {name : U32}
    (hname : name ∈ names) : Message names fmt [.word left, .word right, .word name] :=
  .of_fits h (.cons (.number left) (.cons (.number right) (.cons (.name hname) .nil))) rfl

end Fitting

end N64San.Ubsan
