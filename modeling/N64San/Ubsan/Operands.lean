import N64San.Ubsan.Classify
import N64San.Ubsan.Domain

/-!
# The operands that a report prints

The integer reports hand the raw handle of an operand to `%i`.  The number that
comes out is the operand only when the handle, read as a signed word, happens
to be the operand; the report of a float cast, next to them, decodes its
operand first.
-/

namespace N64San.Ubsan

open Varargs

variable {ram : Ram}

/-- An operand of a check: a value of an integer type and the handle that the
compiler passes for it, the zero-extended value up to 32 bits. -/
structure Operand (ram : Ram) where
  ty : IntType
  value : ℤ
  handle : ValueHandle
  encodes : Encodes ram ty value handle
  zeroExtended : ty.width ≤ 32 → handle = (BitVec.ofInt ty.width value).setWidth 32

namespace Operand

/-- The handle read as a signed word is the operand.  Inline operands must be
free of a sign extension that is not there, and of a sign that is not meant; an
operand in memory must be equal to its own address. -/
def Legible (operand : Operand ram) : Prop :=
  if operand.ty.width ≤ 32 then
    if operand.ty.signed then operand.ty.width = 32 ∨ 0 ≤ operand.value
    else operand.value < 2 ^ 31
  else operand.value = operand.handle.toInt

section

variable (operand : Operand ram)

/-- A signed operand that is narrower than its handle is printed modulo its
range. -/
theorem toInt_handle_of_narrow (hwidth : operand.ty.width < 32) :
    operand.handle.toInt = operand.value % 2 ^ operand.ty.width := by
  have hnarrow : ∀ k : Fin 7, 2 ^ k.val < 32 → 2 ^ 2 ^ k.val ≤ 2 ^ 16 := by decide
  have hpow : 2 ^ operand.ty.width ≤ 2 ^ 16 := hnarrow operand.ty.logWidth hwidth
  have hpowPos : (0 : ℤ) < 2 ^ operand.ty.width := by positivity
  have hnonneg := Int.emod_nonneg operand.value hpowPos.ne'
  have hlt := Int.emod_lt_of_pos operand.value hpowPos
  have hcast : ((2 ^ operand.ty.width : ℕ) : ℤ) = 2 ^ operand.ty.width := by push_cast; rfl
  have htoNat : operand.handle.toNat = (operand.value % 2 ^ operand.ty.width).toNat := by
    rw [operand.zeroExtended hwidth.le, BitVec.toNat_setWidth, BitVec.toNat_ofInt, hcast]
    apply Nat.mod_eq_of_lt
    omega
  calc
    operand.handle.toInt = operand.handle.toNat := BitVec.toInt_eq_toNat_of_lt (by omega)
    _ = (operand.value % 2 ^ operand.ty.width).toNat := congrArg Nat.cast htoNat
    _ = operand.value % 2 ^ operand.ty.width := Int.toNat_of_nonneg hnonneg

theorem toInt_handle_of_word (hwidth : operand.ty.width = 32)
    (hsigned : operand.ty.signed = true) : operand.handle.toInt = operand.value := by
  have hvalue := operand.encodes.inline hwidth.le
  rwa [if_pos hsigned, hwidth, BitVec.setWidth_eq] at hvalue

theorem toInt_handle_of_unsigned (hinline : operand.ty.width ≤ 32)
    (hsigned : operand.ty.signed = false) :
    operand.handle.toInt = operand.value ↔ operand.value < 2 ^ 31 := by
  have hvalue := operand.encodes.inline hinline
  rw [if_neg (by simp [hsigned])] at hvalue
  rw [BitVec.toInt_eq_toNat_cond, ← hvalue]
  split_ifs <;> omega

/-- What `%i` prints of the handle is the operand if and only if the operand is
legible. -/
theorem toInt_handle_eq_iff : operand.handle.toInt = operand.value ↔ operand.Legible := by
  rw [Legible]
  split_ifs with hinline hsigned
  · rcases hinline.lt_or_eq with hnarrow | hword
    · have hcontains := operand.encodes.contains
      rw [IntType.contains_of_signed hsigned] at hcontains
      have hhalf : (2 : ℤ) ^ (operand.ty.width - 1) ≤ 2 ^ operand.ty.width :=
        pow_le_pow_right₀ (by decide) (Nat.sub_le _ _)
      rw [operand.toInt_handle_of_narrow hnarrow, or_iff_right hnarrow.ne]
      constructor
      · intro hvalue
        rw [← hvalue]
        exact Int.emod_nonneg _ (by positivity)
      · exact fun hvalue => Int.emod_eq_of_lt hvalue (hcontains.2.trans_le hhalf)
    · exact iff_of_true (operand.toInt_handle_of_word hword hsigned) (Or.inl hword)
  · exact operand.toInt_handle_of_unsigned hinline (by simpa using hsigned)
  · exact eq_comm

end

end Operand

/-- A failed check of the seven reports, with its operands. -/
inductive Fault (ram : Ram)
  | add (loc : SourceLocation) (lhs rhs : Operand ram) (hty : rhs.ty = lhs.ty)
  | sub (loc : SourceLocation) (lhs rhs : Operand ram) (hty : rhs.ty = lhs.ty)
  | mul (loc : SourceLocation) (lhs rhs : Operand ram) (hty : rhs.ty = lhs.ty)
  | negate (loc : SourceLocation) (oldVal : Operand ram)
  | divrem (loc : SourceLocation) (lhs rhs : Operand ram) (hty : rhs.ty = lhs.ty)
  | shift (loc : SourceLocation) (lhs rhs : Operand ram)
  | outOfBounds (loc : SourceLocation) (index : Operand ram) (arrayType : TypeDescriptor)

namespace Fault

/-- The call of the handler. -/
def entry : Fault ram → Entry
  | add loc lhs rhs _ => .addOverflow ⟨loc, lhs.ty.descriptor⟩ lhs.handle rhs.handle
  | sub loc lhs rhs _ => .subOverflow ⟨loc, lhs.ty.descriptor⟩ lhs.handle rhs.handle
  | mul loc lhs rhs _ => .mulOverflow ⟨loc, lhs.ty.descriptor⟩ lhs.handle rhs.handle
  | negate loc oldVal => .negateOverflow ⟨loc, oldVal.ty.descriptor⟩ oldVal.handle
  | divrem loc lhs rhs _ => .divremOverflow ⟨loc, lhs.ty.descriptor⟩ lhs.handle rhs.handle
  | shift loc lhs rhs =>
      .shiftOutOfBounds ⟨loc, lhs.ty.descriptor, rhs.ty.descriptor⟩ lhs.handle rhs.handle
  | outOfBounds loc index arrayType =>
      .outOfBounds ⟨loc, arrayType, index.ty.descriptor⟩ index.handle

/-- The operands that the message names, in order. -/
def shown : Fault ram → List (Operand ram)
  | add _ lhs rhs _ | sub _ lhs rhs _ | mul _ lhs rhs _ => [lhs, rhs]
  | negate _ oldVal => [oldVal]
  | divrem _ lhs rhs _ => if rhs.value = -1 then [lhs] else []
  | shift _ lhs rhs =>
      match ShiftFault.of lhs.ty.width lhs.value rhs.value with
      | .negativeExponent | .largeExponent => [rhs]
      | .negativeBase => [lhs]
      | .notRepresentable => [lhs, rhs]
  | outOfBounds _ index _ => [index]

/-- The numbers that stand behind the operands in the message. -/
def trailing : Fault ram → List ℤ
  | shift _ lhs rhs =>
      match ShiftFault.of lhs.ty.width lhs.value rhs.value with
      | .largeExponent => [lhs.ty.width]
      | _ => []
  | _ => []

end Fault

/-- The program prints one report, with the given numbers in its message. -/
def PrintsNumbers (program : San Unit) (numbers : List ℤ) : Prop :=
  ∃ loc et fmt args, program = reportError loc et fmt args ∧
    decimals (vprintf fmt (vaStart 4 args)) = numbers

theorem ubsanOverflowHandler_prints (op : String) (data : OverflowData)
    (lhs rhs : ValueHandle) :
    PrintsNumbers (ubsanOverflowHandler op false data lhs rhs) [lhs.toInt, rhs.toInt] := by
  rw [ubsanOverflowHandler_recover]
  exact ⟨_, _, _, _, ubsanDiag_source _ _ _ _, rfl⟩

theorem handleNegateOverflowImpl_prints (data : OverflowData) (oldVal : ValueHandle) :
    PrintsNumbers (handleNegateOverflowImpl data oldVal) [oldVal.toInt] := by
  rw [handleNegateOverflowImpl]
  split_ifs
  · exact ⟨_, _, _, _, ubsanDiag_source _ _ _ _, rfl⟩
  · exact ⟨_, _, _, _, ubsanDiag_source _ _ _ _, rfl⟩

/-- A report prints the handles of its operands as signed words. -/
theorem Fault.handle_prints (fault : Fault ram) :
    PrintsNumbers (fault.entry.handle ram)
      (fault.shown.map (fun operand => operand.handle.toInt) ++ fault.trailing) := by
  cases fault with
  | add loc lhs rhs hty => exact ubsanOverflowHandler_prints _ _ _ _
  | sub loc lhs rhs hty => exact ubsanOverflowHandler_prints _ _ _ _
  | mul loc lhs rhs hty => exact ubsanOverflowHandler_prints _ _ _ _
  | negate loc oldVal => exact handleNegateOverflowImpl_prints _ _
  | divrem loc lhs rhs hty =>
      have hmeaning : meaning ram lhs.ty rhs.handle = rhs.value := hty ▸ rhs.encodes.meaning_eq
      have hrhs : Followable ram lhs.ty rhs.handle := hty ▸ rhs.encodes.followable
      rw [entry, Entry.handle, ubsanHandleDivremOverflow,
        handleDivremOverflowImpl_of_integer hrhs, hmeaning, shown]
      split_ifs
      · exact ⟨_, _, _, _, rfl, rfl⟩
      · exact ⟨_, _, _, _, rfl, rfl⟩
  | shift loc lhs rhs =>
      rw [entry, Entry.handle, ubsanHandleShiftOutOfBounds,
        handleShiftOutOfBoundsImpl_eq loc lhs.encodes.followable rhs.encodes.followable,
        lhs.encodes.meaning_eq, rhs.encodes.meaning_eq, shown, trailing]
      cases ShiftFault.of lhs.ty.width lhs.value rhs.value with
      | negativeExponent => exact ⟨_, _, _, _, rfl, rfl⟩
      | largeExponent =>
          have hwidths : ∀ k : Fin 7, (BitVec.ofNat 32 (2 ^ k.val)).toInt = (2 ^ k.val : ℕ) := by
            decide
          have hwidth : (BitVec.ofNat 32 lhs.ty.width).toInt = lhs.ty.width :=
            hwidths lhs.ty.logWidth
          refine ⟨_, _, _, _, rfl, ?_⟩
          change [rhs.handle.toInt, (BitVec.ofNat 32 lhs.ty.width).toInt] = _
          rw [hwidth]
          rfl
      | negativeBase => exact ⟨_, _, _, _, rfl, rfl⟩
      | notRepresentable => exact ⟨_, _, _, _, rfl, rfl⟩
  | outOfBounds loc index arrayType => exact ⟨_, _, _, _, ubsanDiag_source _ _ _ _, rfl⟩

/-- What the message of a fault should say: its operands, and the width of the
type where it is named. -/
def Fault.expected (fault : Fault ram) : List ℤ :=
  fault.shown.map (fun operand => operand.value) ++ fault.trailing

theorem PrintsNumbers.unique {program : San Unit} {left right : List ℤ}
    (hleft : PrintsNumbers program left) (hright : PrintsNumbers program right) :
    left = right := by
  obtain ⟨loc, et, fmt, args, hprogram, rfl⟩ := hleft
  obtain ⟨loc', et', fmt', args', hprogram', rfl⟩ := hright
  obtain ⟨_, _, rfl, rfl⟩ := reportError_inj (hprogram.symm.trans hprogram')
  rfl

/-- For every fault of the seven reports, the numbers printed for the operands
are the operands if and only if all operands that the message shows are
legible. -/
theorem report_prints_operands_iff (fault : Fault ram) :
    PrintsNumbers (fault.entry.handle ram) fault.expected ↔
      ∀ operand ∈ fault.shown, operand.Legible := by
  have hprints := fault.handle_prints
  have hlist : fault.shown.map (fun operand => operand.handle.toInt) ++ fault.trailing =
      fault.expected ↔ ∀ operand ∈ fault.shown, operand.Legible := by
    rw [Fault.expected, List.append_left_inj, List.map_inj_left]
    exact forall₂_congr fun operand _ => operand.toInt_handle_eq_iff
  rw [← hlist]
  constructor
  · exact fun hexpected => hprints.unique hexpected
  · exact fun hsame => hsame ▸ hprints

/-- A file name, the name of an array type and that of its index. -/
def arrayRam : Ram :=
  .ofBytes 0x80000000
    ("a.c\x00'int [4]'\x00'unsigned int'\x00".toList.map fun c => BitVec.ofNat 8 c.toNat)

def unsignedInt : IntType := .word false 0x8000000E

theorem encodes_largestIndex : Encodes arrayRam unsignedInt (2 ^ 32 - 1) 0xFFFFFFFF where
  contains := by decide
  inline _ := by decide
  address hwidth := absurd hwidth (by decide)

theorem zeroExtended_largestIndex : (0xFFFFFFFF : ValueHandle) =
    (BitVec.ofInt unsignedInt.width (2 ^ 32 - 1)).setWidth 32 := by
  decide

/-- The largest index of an unsigned 32-bit type. -/
def largestIndex : Operand arrayRam where
  ty := unsignedInt
  value := 2 ^ 32 - 1
  handle := 0xFFFFFFFF
  encodes := encodes_largestIndex
  zeroExtended _ := zeroExtended_largestIndex

/-- The report of that index out of bounds says `index -1`. -/
theorem largest_index_is_printed_negative (loc : SourceLocation) (arrayType : TypeDescriptor) :
    PrintsNumbers ((Fault.outOfBounds loc largestIndex arrayType).entry.handle arrayRam) [-1] :=
  (Fault.outOfBounds loc largestIndex arrayType).handle_prints

/-- At line 12 and column 5 of `a.c`, an index into an `int [4]`. -/
def largestIndexFault : Fault arrayRam :=
  .outOfBounds ⟨0x80000000, 12, 5⟩ largestIndex ⟨tkUnknown, 0, 0x80000004⟩

theorem largest_index_is_misprinted :
    ¬ PrintsNumbers (largestIndexFault.entry.handle arrayRam) largestIndexFault.expected := by
  intro hexpected
  have hsame := (largest_index_is_printed_negative _ _).unique hexpected
  exact absurd hsame (by decide)

end N64San.Ubsan
