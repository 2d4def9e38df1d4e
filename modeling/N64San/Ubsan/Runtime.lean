import N64San.Core.Varargs

/-!
# What the runtime runs on

Memory that can be read or not, the calls of the wrapper's print functions, and
the ways not to come back.  Every C function of the runtime is a `San` program;
none of them writes memory, so the memory is a parameter.  The formatter behind
the wrapper is the game's: a program is run with one, and what the runtime
relies on is that it reads the strings it is pointed to and comes back.
-/

namespace N64San.Ubsan

open BigEndian Varargs

abbrev U8 := Byte
abbrev U16 := BitVec 16
abbrev U32 := Word
abbrev U64 := Double

/-- The game's memory and the addresses at which a load succeeds. -/
structure Ram where
  bytes : Memory
  readable : U32 → Bool

/-- Memory that holds the bytes from an address on, and nothing else. -/
def Ram.ofBytes (base : U32) (bytes : List U8) : Ram where
  bytes address := bytes.getD (address - base).toNat 0
  readable address := decide ((address - base).toNat < bytes.length)

/-- All `size` bytes from `address` on can be read. -/
def Ram.Readable (ram : Ram) (size : ℕ) (address : U32) : Prop :=
  ∀ i < size, ram.readable (address + BitVec.ofNat 32 i) = true

instance (ram : Ram) (size : ℕ) (address : U32) : Decidable (ram.Readable size address) :=
  inferInstanceAs (Decidable (∀ i < size, _))

/-- The bytes from an address up to a NUL, if it is among the first `fuel` bytes
and all of them can be read. -/
def Ram.stringWithin (ram : Ram) : ℕ → U32 → Option (List U8)
  | 0, _ => none
  | fuel + 1, address =>
      if ram.readable address = true then
        if ram.bytes address = 0 then some []
        else (ram.stringWithin fuel (address + 1)).map (ram.bytes address :: ·)
      else none

/-- The string at an address: none where a load on the way to its end faults. -/
def Ram.string? (ram : Ram) (address : U32) : Option (List U8) :=
  ram.stringWithin (2 ^ 32) address

/-- The pointer leads to a string. -/
def Ram.Holds (ram : Ram) : Slot → Prop
  | .literal _ => True
  | .word address => (ram.string? address).isSome = true
  | .padding => False

instance (ram : Ram) (slot : Slot) : Decidable (ram.Holds slot) := by
  cases slot with
  | literal text => exact inferInstanceAs (Decidable True)
  | word address => exact inferInstanceAs (Decidable (_ = true))
  | padding => exact inferInstanceAs (Decidable False)

section Strings

variable {ram : Ram} {address : U32}

theorem Ram.stringWithin_mono {fuel fuel' : ℕ} {text : List U8}
    (h : ram.stringWithin fuel address = some text) (hle : fuel ≤ fuel') :
    ram.stringWithin fuel' address = some text := by
  induction fuel generalizing fuel' address text with
  | zero => cases h
  | succ fuel ih =>
      obtain ⟨rest, rfl⟩ := Nat.exists_eq_add_of_le hle
      rw [Nat.add_right_comm, stringWithin]
      rw [stringWithin] at h
      split_ifs at h ⊢ with hreadable hnul
      · exact h
      · obtain ⟨tail, htail, rfl⟩ := Option.map_eq_some_iff.mp h
        rw [ih htail (Nat.le_add_right fuel rest), Option.map_some]

/-- Strings are found by looking at a few bytes of each. -/
theorem Ram.holds_of_within {names : List U32} {fuel : ℕ} (hfuel : fuel ≤ 2 ^ 32)
    (h : names.all (fun name => (ram.stringWithin fuel name).isSome) = true) :
    ∀ name ∈ names, ram.Holds (.word name) := by
  intro name hname
  obtain ⟨text, htext⟩ := Option.isSome_iff_exists.mp (List.all_eq_true.mp h name hname)
  exact Option.isSome_of_eq_some (stringWithin_mono htext hfuel)

theorem Ram.not_holds_of_fault (h : ram.readable address = false) :
    ¬ ram.Holds (.word address) := by
  have hnone : ram.stringWithin (2 ^ 32 - 1 + 1) address = none := by
    rw [stringWithin, if_neg (by simp [h])]
  intro hholds
  rw [Holds, string?, show 2 ^ 32 = 2 ^ 32 - 1 + 1 from rfl, hnone] at hholds
  cases hholds

end Strings

/-- How a call ends that does not return: `N64Wrapper_Assert` crashes the game,
a load from an unreadable address faults, and an index outside a table finds
anything. -/
inductive Halt
  | crash (exp : String)
  | fault (address : U32)
  | wild (index : ℕ)
  deriving DecidableEq, Repr

structure SourceLocation where
  filename : U32
  line : U32
  column : U32
  deriving DecidableEq, Repr

/-- `Ubsan_Location`, a kind and the data that goes with it. -/
inductive Location
  | null
  | source (loc : SourceLocation)
  | memory (loc : U32)
  | symbolized
  deriving DecidableEq, Repr

inductive DiagLevel
  | error
  | note
  deriving DecidableEq, Repr

/-- The checks of `ubsan_checks.inc` that a handler below reports. -/
inductive ErrorType
  | nullPointerUse
  | nullPointerUseWithNullability
  | nullptrWithOffset
  | nullptrWithNonZeroOffset
  | nullptrAfterNonZeroOffset
  | pointerOverflow
  | misalignedPointerUse
  | insufficientObjectSize
  | signedIntegerOverflow
  | unsignedIntegerOverflow
  | integerDivideByZero
  | floatDivideByZero
  | invalidShiftBase
  | invalidShiftExponent
  | outOfBoundsIndex
  | floatCastOverflow
  deriving DecidableEq, Repr

/-- One call of `Ubsan_Diag`. -/
structure Report where
  loc : Location
  level : DiagLevel
  et : ErrorType
  fmt : String
  args : List Arg
  deriving DecidableEq, Repr

/-- One call of `N64Wrapper_Printf` or `N64Wrapper_Vprintf`. -/
structure Output where
  fmt : String
  args : VaList
  deriving DecidableEq, Repr

/-- What C89 says that the call prints. -/
def Output.pieces (output : Output) : List Piece :=
  vprintf output.fmt output.args

/-- Every directive of the call has an argument. -/
structure Output.Specified (output : Output) : Prop where
  pieces : .unspecified ∉ output.pieces
  pointers : .padding ∉ pointers output.pieces

/-- The game's formatter, as far as the runtime sees it: whether a call of it
comes back. -/
abbrev Formatter := Output → Except Halt Unit

/-- What the runtime relies on: a call comes back exactly if every `%s` of it
leads to a string. -/
def Formatter.Reads (printf : Formatter) (ram : Ram) : Prop :=
  ∀ output : Output, output.Specified →
    (printf output = .ok () ↔ ∀ slot ∈ pointers output.pieces, ram.Holds slot)

/-- A formatter that reads the strings and does nothing else. -/
def Ram.printf (ram : Ram) : Formatter := fun output =>
  match (pointers output.pieces).find? fun slot => ¬ ram.Holds slot with
  | none => .ok ()
  | some (.word address) => .error (.fault address)
  | some _ => .error (.fault 0)

/-- The calls made so far.  The last one may not have come back. -/
structure Console where
  reports : List Report
  out : List Output
  deriving DecidableEq, Repr

abbrev San := ReaderT Formatter (ExceptT Halt (StateM Console))

/-- Run a program: its result or the way it ended, and the console. -/
def San.exec {A : Type} (program : San A) (printf : Formatter) (c : Console) :
    Except Halt A × Console :=
  ExceptT.run (ReaderT.run program printf) c

/-- Make these calls of the formatter, and no others. -/
def emit : List Output → San Unit
  | [] => pure ()
  | output :: out => do
      modify fun c => { c with out := c.out ++ [output] }
      ofExcept ((← read) output)
      emit out

/-- `N64Wrapper_Vprintf`. -/
def n64WrapperVprintf (fmt : String) (args : VaList) : San Unit :=
  emit [⟨fmt, args⟩]

/-- A call of `N64Wrapper_Printf`, which has one named argument. -/
def printfOutput (fmt : String) (args : List Arg) : Output :=
  ⟨fmt, vaStart 1 args⟩

/-- `N64Wrapper_Printf`. -/
def n64WrapperPrintf (fmt : String) (args : List Arg) : San Unit :=
  emit [printfOutput fmt args]

def assertFormat : String := "Assertion failed: %s, file %s, line %d\n"

/-- `N64Wrapper_Assert` of the Majora's Mask build. -/
def n64WrapperAssert {A : Type} (exp file : String) (line : ℕ) : San A := do
  n64WrapperPrintf assertFormat
    [.literal exp, .literal file, .word (BitVec.ofNat 32 line)]
  throw (.crash exp)

def terminationFile : String := "src/n64_sanitizer_common/sanitizer_termination.c"

/-- `Die`. -/
def die {A : Type} : San A :=
  n64WrapperAssert "SAN: Die()\n" terminationFile 14

def sanitizerToolName : String := "SanitizerTool"

def checkFailedFormat : String :=
  "%s: CHECK failed: %s:%d \"%s\" (0x%zx, 0x%zx) (tid=%u)\n"

/-- `CheckFailed`; `GetTid` is zero. -/
def checkFailed {A : Type} (file : String) (line : ℕ) (cond : String) (v1 v2 : U64) :
    San A := do
  n64WrapperPrintf checkFailedFormat
    [.literal sanitizerToolName, .literal file, .word (BitVec.ofNat 32 line), .literal cond,
      .double v1, .double v2, .word 0]
  n64WrapperAssert cond file line

/-- `CHECK(a)`, with the text of `a`. -/
def check (file : String) (line : ℕ) (a : String) (value : Bool) : San Unit :=
  if value then pure ()
  else checkFailed file line ("((" ++ a ++ ")) != (0)") 0 0

/-- `UNREACHABLE(msg)`. -/
def unreachableCode {A : Type} (file : String) (line : ℕ) (msg : String) : San A := do
  check file line ("0 && \"" ++ msg ++ "\"") false
  die

/-- A load through a pointer. -/
def load {A : Type} (ram : Ram) (size : ℕ) (read : Memory → U32 → A) (address : U32) : San A :=
  if ram.Readable size address then pure (read ram.bytes address)
  else throw (.fault address)

def load8 (ram : Ram) (address : U32) : San U8 :=
  load ram 1 (fun m x => m x) address

def load32 (ram : Ram) (address : U32) : San U32 :=
  load ram 4 readWord address

def load64 (ram : Ram) (address : U32) : San U64 :=
  load ram 8 readDouble address

theorem emit_bind_emit (out later : List Output) :
    (emit out >>= fun _ => emit later) = emit (out ++ later) := by
  induction out with
  | nil => exact pure_bind () _
  | cons output out ih =>
      rw [List.cons_append, emit, emit]
      simp only [bind_assoc, ih]

@[simp]
theorem check_true (file : String) (line : ℕ) (a : String) :
    check file line a true = pure () := rfl

theorem Ram.printf_reads (ram : Ram) : ram.printf.Reads ram := by
  intro output _
  rw [Ram.printf]
  cases hfind : (pointers output.pieces).find? fun slot => ¬ ram.Holds slot with
  | none => exact iff_of_true rfl (by simpa using List.find?_eq_none.mp hfind)
  | some slot =>
      have hslot : ¬ ram.Holds slot := by simpa using List.find?_some hfind
      refine iff_of_false ?_ fun hall => hslot (hall slot (List.mem_of_find?_eq_some hfind))
      cases slot <;> exact fun h => by cases h

/-! ## Running -/

section Exec

variable {A B : Type} {program : San A} {printf : Formatter} {c d : Console}

theorem exec_bind_ok {value : A} (h : program.exec printf c = (.ok value, d))
    (next : A → San B) : (program >>= next).exec printf c = (next value).exec printf d := by
  change (match program.exec printf c with
    | (result, d) => (ExceptT.bindCont (fun value => next value printf) result :
        StateM Console _) d) = _
  rw [h]
  rfl

theorem exec_bind_error {halt : Halt} (h : program.exec printf c = (.error halt, d))
    (next : A → San B) : (program >>= next).exec printf c = (.error halt, d) := by
  change (match program.exec printf c with
    | (result, d) => (ExceptT.bindCont (fun value => next value printf) result :
        StateM Console _) d) = _
  rw [h]
  rfl

/-- One call of the formatter, and then the rest. -/
theorem exec_emit_cons (output : Output) (out : List Output) (printf : Formatter)
    (c : Console) :
    (emit (output :: out)).exec printf c =
      match printf output with
      | .ok () => (emit out).exec printf { c with out := c.out ++ [output] }
      | .error halt => (.error halt, { c with out := c.out ++ [output] }) := by
  change (match (ofExcept (printf output) : San Unit).exec printf
      { c with out := c.out ++ [output] } with
    | (result, d) => (ExceptT.bindCont (fun _ => emit out printf) result :
        StateM Console _) d) = _
  cases printf output with
  | ok value => rfl
  | error halt => rfl

/-- If all calls come back, they are made one after the other. -/
theorem exec_emit_ok {out : List Output} (h : ∀ output ∈ out, printf output = .ok ())
    (c : Console) :
    (emit out).exec printf c = (.ok (), { c with out := c.out ++ out }) := by
  induction out generalizing c with
  | nil =>
      rw [List.append_nil]
      rfl
  | cons output out ih =>
      obtain ⟨hfirst, hrest⟩ := List.forall_mem_cons.mp h
      rw [exec_emit_cons, hfirst]
      change (emit out).exec printf _ = _
      rw [ih hrest, List.append_assoc]
      rfl

/-- Otherwise the first one that does not come back is the last one. -/
theorem exec_emit_error {out : List Output} (h : ¬ ∀ output ∈ out, printf output = .ok ())
    (c : Console) :
    ∃ before last after halt, out = before ++ last :: after ∧
      (∀ output ∈ before, printf output = .ok ()) ∧ printf last = .error halt ∧
      (emit out).exec printf c = (.error halt, { c with out := c.out ++ (before ++ [last]) }) := by
  induction out generalizing c with
  | nil => exact absurd (fun _ hmem => absurd hmem List.not_mem_nil) h
  | cons output out ih =>
      rw [exec_emit_cons]
      cases hcall : printf output with
      | error halt =>
          exact ⟨[], output, out, halt, rfl, fun _ hmem => absurd hmem List.not_mem_nil,
            hcall, rfl⟩
      | ok value =>
          have hrest : ¬ ∀ output ∈ out, printf output = .ok () := fun hall =>
            h (List.forall_mem_cons.mpr ⟨hcall, hall⟩)
          obtain ⟨before, last, after, halt, rfl, hbefore, hlast, hexec⟩ :=
            ih hrest { c with out := c.out ++ [output] }
          refine ⟨output :: before, last, after, halt, rfl,
            List.forall_mem_cons.mpr ⟨hcall, hbefore⟩, hlast, ?_⟩
          change (emit _).exec printf _ = _
          rw [hexec, List.append_assoc]
          rfl

/-- Whatever the formatter does, all calls that the program makes of it are of
the given kind. -/
def CallsOnly (kind : Output → Prop) (program : San A) : Prop :=
  ∀ (printf : Formatter) (c : Console), ∃ out,
    (program.exec printf c).2.out = c.out ++ out ∧ ∀ output ∈ out, kind output

section CallsOnly

variable {kind : Output → Prop}

theorem callsOnly_throw (halt : Halt) : CallsOnly kind (throw halt : San A) := fun _ c =>
  ⟨[], (List.append_nil c.out).symm, fun _ hmem => absurd hmem List.not_mem_nil⟩

theorem callsOnly_emit {out : List Output} (h : ∀ output ∈ out, kind output) :
    CallsOnly kind (emit out) := by
  intro printf c
  by_cases hall : ∀ output ∈ out, printf output = .ok ()
  · rw [exec_emit_ok hall]
    exact ⟨out, rfl, h⟩
  · obtain ⟨before, last, after, halt, rfl, -, -, hexec⟩ := exec_emit_error hall c
    rw [hexec]
    refine ⟨before ++ [last], rfl, fun output houtput => h output ?_⟩
    rcases List.mem_append.mp houtput with hbefore | hlast
    · exact List.mem_append_left _ hbefore
    · rw [List.mem_singleton.mp hlast]
      exact List.mem_append_right _ List.mem_cons_self

theorem CallsOnly.bind (h : CallsOnly kind program) {next : A → San B}
    (hnext : ∀ value, CallsOnly kind (next value)) : CallsOnly kind (program >>= next) := by
  intro printf c
  obtain ⟨out, hout, hkind⟩ := h printf c
  cases hexec : program.exec printf c with
  | mk result d =>
      rw [hexec] at hout
      change d.out = _ at hout
      cases result with
      | error halt =>
          rw [exec_bind_error hexec]
          exact ⟨out, hout, hkind⟩
      | ok value =>
          obtain ⟨later, hlater, hkind'⟩ := hnext value printf d
          rw [exec_bind_ok hexec, hlater, hout]
          refine ⟨out ++ later, List.append_assoc _ _ _, fun output houtput => ?_⟩
          exact (List.mem_append.mp houtput).elim (hkind output) (hkind' output)

end CallsOnly

end Exec

section Load

variable {ram : Ram} {address : U32}

/-- What lies inside readable memory is readable. -/
theorem Ram.Readable.within {size offset part : ℕ} (h : ram.Readable size address)
    (hpart : offset + part ≤ size) : ram.Readable part (address + BitVec.ofNat 32 offset) := by
  intro i hi
  rw [BitVec.add_assoc, ← BitVec.ofNat_add]
  exact h (offset + i) (by omega)

theorem load8_of_readable (h : ram.Readable 1 address) :
    load8 ram address = pure (ram.bytes address) :=
  if_pos h

theorem load32_of_readable (h : ram.Readable 4 address) :
    load32 ram address = pure (readWord ram.bytes address) :=
  if_pos h

theorem load64_of_readable (h : ram.Readable 8 address) :
    load64 ram address = pure (readDouble ram.bytes address) :=
  if_pos h

end Load

end N64San.Ubsan
