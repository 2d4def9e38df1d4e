import N64San.Ubsan.Decode
import N64San.Ubsan.Handlers

/-!
# How the handlers classify a fault

The division and the shift handler look at their operands, and the handler of
pointer arithmetic at two addresses.  In terms of the integers that the handles
mean, each of them is a plain case distinction.
-/

namespace N64San.Ubsan

open BigEndian Varargs

variable {ram : Ram}

/-! ## Divisions -/

/-- A divisor that is read as minus one is an overflow, any other one is taken
for zero. -/
theorem handleDivremOverflowImpl_of_reads {helpers : Helpers} {ty : IntType}
    {rhs : ValueHandle} {r : ℤ} (h : Reads helpers ram ty rhs r) (loc : SourceLocation)
    (lhs : ValueHandle) :
    helpers.handleDivremOverflowImpl ram ⟨loc, ty.descriptor⟩ lhs rhs =
      if r = -1 then
        reportError loc .signedIntegerOverflow
          "division of %i by -1 cannot be represented in type %s" [.word lhs, .word ty.name]
      else reportError loc .integerDivideByZero "division by zero" [] := by
  rw [Helpers.handleDivremOverflowImpl, h.isMinusOne, pure_bind]
  by_cases hminus : r = -1
  · rw [if_pos hminus]
    simp only [hminus, decide_true, if_true]
    exact ubsanDiag_source _ _ _ _
  · rw [if_neg hminus]
    simp only [hminus, decide_false, ty.isIntegerTy_descriptor, if_true]
    exact ubsanDiag_source _ _ _ _

theorem handleDivremOverflowImpl_of_integer {ty : IntType} {rhs : ValueHandle}
    (h : Followable ram ty rhs) (loc : SourceLocation) (lhs : ValueHandle) :
    handleDivremOverflowImpl ram ⟨loc, ty.descriptor⟩ lhs rhs =
      if meaning ram ty rhs = -1 then
        reportError loc .signedIntegerOverflow
          "division of %i by -1 cannot be represented in type %s" [.word lhs, .word ty.name]
      else reportError loc .integerDivideByZero "division by zero" [] :=
  handleDivremOverflowImpl_of_reads (reads_quoted h) loc lhs

theorem handleDivremOverflowImpl_of_float {type : TypeDescriptor}
    (h : type.isFloatTy = true) (loc : SourceLocation) (lhs rhs : ValueHandle) :
    handleDivremOverflowImpl ram ⟨loc, type⟩ lhs rhs =
      reportError loc .floatDivideByZero "division by zero" [] := by
  have hinteger : type.isIntegerTy = false :=
    Bool.eq_false_of_not_eq_true (not_isIntegerTy_of_float h)
  have hsigned : type.isSignedIntegerTy = false := by
    rw [TypeDescriptor.isSignedIntegerTy, hinteger, Bool.false_and]
  rw [handleDivremOverflowImpl, Helpers.handleDivremOverflowImpl, Helpers.isMinusOne, hsigned]
  simp only [Bool.false_eq_true, if_false, pure_bind, hinteger]
  exact ubsanDiag_source _ _ _ _

/-- The operands for which the compiler calls the handler of a division of
integers. -/
def DivisionTraps (ty : IntType) (lhs rhs : ℤ) : Prop :=
  rhs = 0 ∨ ty.signed = true ∧ lhs = -2 ^ (ty.width - 1) ∧ rhs = -1

/-- They are the operands whose quotient is undefined, or no value of the
type. -/
theorem divisionTraps_iff {ty : IntType} {lhs rhs : ℤ} (hlhs : ty.Contains lhs)
    (hrhs : ty.Contains rhs) :
    DivisionTraps ty lhs rhs ↔ rhs = 0 ∨ ¬ ty.Contains (lhs.tdiv rhs) := by
  rw [DivisionTraps]
  apply or_congr_right'
  intro hzero
  have hquotient := Int.natAbs_tdiv_le_natAbs lhs rhs
  cases hsigned : ty.signed with
  | false =>
      rw [IntType.contains_of_unsigned hsigned] at hlhs hrhs ⊢
      have hnonneg := Int.tdiv_nonneg hlhs.1 hrhs.1
      have hlt : lhs.tdiv rhs < 2 ^ ty.width := by
        generalize (2 : ℤ) ^ ty.width = bound at *
        omega
      simp [hnonneg, hlt]
  | true =>
      rw [IntType.contains_of_signed hsigned] at hlhs ⊢
      generalize (2 : ℤ) ^ (ty.width - 1) = half at *
      rw [eq_self, true_and]
      by_cases hunit : rhs = 1 ∨ rhs = -1
      · rcases hunit with hone | hminus
        · rw [hone, Int.tdiv_one]
          omega
        · rw [hminus, Int.tdiv_neg, Int.tdiv_one]
          omega
      · -- any other divisor halves the dividend at least
        have hhalf : (lhs.tdiv rhs).natAbs ≤ lhs.natAbs / 2 := by
          rw [Int.natAbs_tdiv]
          exact Nat.div_le_div_left (by omega) (by decide)
        omega

/-- A divisor of zero is called one, and no other is, when the handler is called
for a reason. -/
theorem DivisionTraps.zero_iff {ty : IntType} {lhs rhs : ℤ} (h : DivisionTraps ty lhs rhs) :
    rhs = 0 ↔ rhs ≠ -1 := by
  rw [DivisionTraps] at h
  omega

/-- The handler sees of a divisor of 64 bits what lies at its address. -/
theorem handleDivremOverflowImpl_of_address {ram' : Ram} {ty : IntType}
    {rhs rhs' : ValueHandle} (haddress : ty.width = 64) (h : ram.Readable 8 rhs)
    (h' : ram'.Readable 8 rhs')
    (hvalue : readDouble ram.bytes rhs = readDouble ram'.bytes rhs')
    (loc : SourceLocation) (lhs : ValueHandle) :
    handleDivremOverflowImpl ram ⟨loc, ty.descriptor⟩ lhs rhs =
      handleDivremOverflowImpl ram' ⟨loc, ty.descriptor⟩ lhs rhs' := by
  have hmeaning : meaning ram ty rhs = meaning ram' ty rhs' := by
    rw [meaning, meaning, decoded_of_address haddress, decoded_of_address haddress, hvalue]
  rw [handleDivremOverflowImpl_of_integer fun _ => h,
    handleDivremOverflowImpl_of_integer fun _ => h', hmeaning]

/-- The report of a division says what went wrong with it.  An unsigned divisor
is never taken for minus one, and a divisor of 64 bits counts by what lies at
its address. -/
theorem division_report_names_fault (ram : Ram) (loc : SourceLocation) :
    (∀ {ty : IntType} {dividend divisor : ℤ} {lhs rhs : ValueHandle},
      Encodes ram ty dividend lhs → Encodes ram ty divisor rhs →
      DivisionTraps ty dividend divisor →
        ∃ et fmt args, handleDivremOverflowImpl ram ⟨loc, ty.descriptor⟩ lhs rhs =
            reportError loc et fmt args ∧
          (et = .signedIntegerOverflow ↔ divisor = -1) ∧
          (et = .integerDivideByZero ↔ divisor = 0) ∧
          (fmt = "division of %i by -1 cannot be represented in type %s" ↔ divisor = -1) ∧
          (fmt = "division by zero" ↔ divisor = 0)) ∧
    (∀ {ty : IntType} {divisor : ℤ} {lhs rhs : ValueHandle}, ty.signed = false →
      Encodes ram ty divisor rhs →
        handleDivremOverflowImpl ram ⟨loc, ty.descriptor⟩ lhs rhs =
          reportError loc .integerDivideByZero "division by zero" []) ∧
    (∀ {ram' : Ram} {ty : IntType} {lhs rhs rhs' : ValueHandle}, ty.width = 64 →
      ram.Readable 8 rhs → ram'.Readable 8 rhs' →
      readDouble ram.bytes rhs = readDouble ram'.bytes rhs' →
        handleDivremOverflowImpl ram ⟨loc, ty.descriptor⟩ lhs rhs =
          handleDivremOverflowImpl ram' ⟨loc, ty.descriptor⟩ lhs rhs') ∧
    (∀ {type : TypeDescriptor} {lhs rhs : ValueHandle}, type.isFloatTy = true →
      handleDivremOverflowImpl ram ⟨loc, type⟩ lhs rhs =
        reportError loc .floatDivideByZero "division by zero" []) := by
  refine ⟨fun {ty dividend divisor lhs rhs} _ hrhs htraps => ?_,
    fun {ty divisor lhs rhs} hsigned hrhs => ?_,
    fun haddress h h' hvalue => ?_, fun hfloat => ?_⟩
  · have hreport := handleDivremOverflowImpl_of_integer hrhs.followable loc lhs
    rw [hrhs.meaning_eq] at hreport
    have hzero := htraps.zero_iff
    by_cases hminus : divisor = -1
    · rw [if_pos hminus] at hreport
      refine ⟨_, _, _, hreport, ?_⟩
      simp [hminus]
    · rw [if_neg hminus] at hreport
      refine ⟨_, _, _, hreport, ?_⟩
      simp [hminus, hzero]
  · rw [handleDivremOverflowImpl_of_integer hrhs.followable,
      if_neg (meaning_ne_of_unsigned hsigned rhs)]
  · exact handleDivremOverflowImpl_of_address haddress h h' hvalue loc _
  · exact handleDivremOverflowImpl_of_float hfloat loc _ _

/-- The minimum of the signed type of one bit is minus one. -/
theorem division_report_names_fault_bit : ∃ fmt args,
    handleDivremOverflowImpl zeroRam ⟨⟨0, 0, 0⟩, IntType.descriptor ⟨0, true, 0⟩⟩ 1 0xFF =
      reportError ⟨0, 0, 0⟩ .signedIntegerOverflow fmt args := by
  have hbit : ∀ handle : ValueHandle, (handle.setWidth 1).toInt = -1 →
      Encodes zeroRam ⟨0, true, 0⟩ (-1) handle := fun handle hvalue =>
    ⟨by decide, fun _ => hvalue, fun hwidth => absurd hwidth (by decide)⟩
  obtain ⟨et, fmt, args, hreport, hoverflow, -⟩ :=
    (division_report_names_fault zeroRam ⟨0, 0, 0⟩).1 (hbit 1 (by decide))
      (hbit 0xFF (by decide)) (Or.inr ⟨rfl, by decide, rfl⟩)
  rw [hoverflow.mpr rfl] at hreport
  exact ⟨fmt, args, hreport⟩

/-! ## Shifts -/

/-- The four things that can be wrong with a shift. -/
inductive ShiftFault
  | negativeExponent
  | largeExponent
  | negativeBase
  | notRepresentable
  deriving DecidableEq, Repr

namespace ShiftFault

/-- The fault of shifting `base`, of `width` bits, by `exponent`. -/
def of (width : ℕ) (base exponent : ℤ) : ShiftFault :=
  if exponent < 0 then negativeExponent
  else if (width : ℤ) ≤ exponent then largeExponent
  else if base < 0 then negativeBase
  else notRepresentable

def errorType : ShiftFault → ErrorType
  | negativeExponent | largeExponent => .invalidShiftExponent
  | negativeBase | notRepresentable => .invalidShiftBase

def message : ShiftFault → String
  | negativeExponent => "shift exponent %i is negative"
  | largeExponent => "shift exponent %i is too large for %i-bit type %s"
  | negativeBase => "left shift of negative value %i"
  | notRepresentable => "left shift of %i by %i places cannot be represented in type %s"

def arguments (ty : IntType) (lhs rhs : ValueHandle) : ShiftFault → List Arg
  | negativeExponent => [.word rhs]
  | largeExponent => [.word rhs, .word (BitVec.ofNat 32 ty.width), .word ty.name]
  | negativeBase => [.word lhs]
  | notRepresentable => [.word lhs, .word rhs, .word ty.name]

/-- When a shift has the fault. -/
def Condition (width : ℕ) (base exponent : ℤ) : ShiftFault → Prop
  | negativeExponent => exponent < 0
  | largeExponent => (width : ℤ) ≤ exponent
  | negativeBase => 0 ≤ exponent ∧ exponent < width ∧ base < 0
  | notRepresentable => 0 ≤ exponent ∧ exponent < width ∧ 0 ≤ base

theorem of_eq_iff (width : ℕ) (base exponent : ℤ) (fault : ShiftFault) :
    of width base exponent = fault ↔ fault.Condition width base exponent := by
  rw [of]
  cases fault <;> split_ifs <;> simp [Condition] <;> omega

theorem message_injective : Function.Injective message := by
  intro left right h
  cases left <;> cases right <;> first | rfl | simp [message] at h

end ShiftFault

section Shift

variable {lhsType rhsType : IntType} {lhs rhs : ValueHandle}

section Reads

variable {helpers : Helpers} {l r : ℤ}

/-- The comparison of the exponent with the width is one of integers: neither
side is truncated. -/
theorem invalidShiftExponent_of_reads (h : Reads helpers ram rhsType rhs r)
    (loc : SourceLocation) :
    helpers.invalidShiftExponent ram ⟨loc, lhsType.descriptor, rhsType.descriptor⟩ rhs =
      pure (decide (r < 0 ∨ (lhsType.width : ℤ) ≤ r)) := by
  rw [Helpers.invalidShiftExponent, h.isNegative, pure_bind]
  by_cases hneg : r < 0
  · simp only [hneg, decide_true, if_true, true_or]
  · obtain ⟨w, hw, htoNat⟩ := h.positive (not_lt.mp hneg)
    have hwidths : ∀ k : Fin 7,
        ((BitVec.ofNat 32 (2 ^ k.val)).setWidth 64 : U64).toNat = 2 ^ k.val := by decide
    have hwidth : ((BitVec.ofNat 32 lhsType.width).setWidth 64 : U64).toNat = lhsType.width :=
      hwidths lhsType.logWidth
    have hle : (BitVec.ofNat 32 lhsType.width).setWidth 64 ≤ w ↔ (lhsType.width : ℤ) ≤ r := by
      rw [BitVec.le_def, hwidth, ← htoNat, Int.ofNat_le]
    simp only [hneg, decide_false, Bool.false_eq_true, if_false, false_or]
    rw [hw, pure_bind, lhsType.getIntegerBitWidth_descriptor, pure_bind]
    simp only [hle]

/-- The report of a shift handler is that of the fault that its decoders see. -/
theorem handleShiftOutOfBoundsImpl_of_reads (hl : Reads helpers ram lhsType lhs l)
    (hr : Reads helpers ram rhsType rhs r) (loc : SourceLocation) :
    helpers.handleShiftOutOfBoundsImpl ram ⟨loc, lhsType.descriptor, rhsType.descriptor⟩
        lhs rhs =
      reportError loc (ShiftFault.of lhsType.width l r).errorType
        (ShiftFault.of lhsType.width l r).message
        ((ShiftFault.of lhsType.width l r).arguments lhsType lhs rhs) := by
  rw [Helpers.handleShiftOutOfBoundsImpl, invalidShiftExponent_of_reads hr, pure_bind,
    ShiftFault.of]
  by_cases hneg : r < 0
  · rw [if_pos (decide_eq_true (Or.inl hneg)), hr.isNegative, pure_bind,
      if_pos (decide_eq_true hneg), ubsanDiag_source, if_pos hneg]
    rfl
  · by_cases hlarge : (lhsType.width : ℤ) ≤ r
    · rw [if_pos (decide_eq_true (Or.inr hlarge)), hr.isNegative, pure_bind,
        if_neg (by simpa using hneg), lhsType.getIntegerBitWidth_descriptor, pure_bind,
        ubsanDiag_source, if_neg hneg, if_pos hlarge]
      rfl
    · rw [if_neg (by simp [hneg, hlarge]), hl.isNegative, pure_bind, if_neg hneg,
        if_neg hlarge]
      by_cases hbase : l < 0
      · rw [if_pos (decide_eq_true hbase), ubsanDiag_source, if_pos hbase]
        rfl
      · rw [if_neg (by simpa using hbase), ubsanDiag_source, if_neg hbase]
        rfl

end Reads

theorem handleShiftOutOfBoundsImpl_eq (loc : SourceLocation)
    (hlhs : Followable ram lhsType lhs) (hrhs : Followable ram rhsType rhs) :
    let fault := ShiftFault.of lhsType.width (meaning ram lhsType lhs)
      (meaning ram rhsType rhs)
    handleShiftOutOfBoundsImpl ram ⟨loc, lhsType.descriptor, rhsType.descriptor⟩ lhs rhs =
      reportError loc fault.errorType fault.message (fault.arguments lhsType lhs rhs) :=
  handleShiftOutOfBoundsImpl_of_reads (reads_quoted hlhs) (reads_quoted hrhs) loc

/-- For operands of any two integer types, the message names the fault of the
shift, and the error type goes with it. -/
theorem shift_report_names_fault {base exponent : ℤ}
    (hlhs : Encodes ram lhsType base lhs) (hrhs : Encodes ram rhsType exponent rhs)
    (loc : SourceLocation) :
    ∃ et fmt args,
      handleShiftOutOfBoundsImpl ram ⟨loc, lhsType.descriptor, rhsType.descriptor⟩ lhs rhs =
        reportError loc et fmt args ∧
      (fmt = "shift exponent %i is negative" ↔ exponent < 0) ∧
      (fmt = "shift exponent %i is too large for %i-bit type %s" ↔
        (lhsType.width : ℤ) ≤ exponent) ∧
      (fmt = "left shift of negative value %i" ↔
        0 ≤ exponent ∧ exponent < lhsType.width ∧ base < 0) ∧
      (fmt = "left shift of %i by %i places cannot be represented in type %s" ↔
        0 ≤ exponent ∧ exponent < lhsType.width ∧ 0 ≤ base) ∧
      (et = .invalidShiftExponent ↔ exponent < 0 ∨ (lhsType.width : ℤ) ≤ exponent) ∧
      (et = .invalidShiftBase ↔ 0 ≤ exponent ∧ exponent < lhsType.width) := by
  have hreport := handleShiftOutOfBoundsImpl_eq loc hlhs.followable hrhs.followable
  rw [hlhs.meaning_eq, hrhs.meaning_eq] at hreport
  have hmessage : ∀ fault : ShiftFault,
      (ShiftFault.of lhsType.width base exponent).message = fault.message ↔
        fault.Condition lhsType.width base exponent := fun fault =>
    ShiftFault.message_injective.eq_iff.trans (ShiftFault.of_eq_iff _ _ _ fault)
  refine ⟨_, _, _, hreport, hmessage .negativeExponent, hmessage .largeExponent,
    hmessage .negativeBase, hmessage .notRepresentable, ?_, ?_⟩
  · rw [ShiftFault.of]
    split_ifs <;> simp [ShiftFault.errorType] <;> omega
  · rw [ShiftFault.of]
    split_ifs <;> simp [ShiftFault.errorType] <;> omega

end Shift

/-- Memory with the number `2 ^ 32 + 1` at address zero. -/
def wideRam : Ram := ⟨fun address => if address = 3 ∨ address = 7 then 1 else 0, fun _ => true⟩

/-- The 64-bit exponent `2 ^ 32 + 1` is too large for a 32-bit base. -/
theorem shift_report_names_fault_wideExponent : ∃ et args,
    handleShiftOutOfBoundsImpl wideRam
        ⟨⟨0, 0, 0⟩, (IntType.word true 0).descriptor, IntType.descriptor ⟨6, false, 0⟩⟩ 1 0 =
      reportError ⟨0, 0, 0⟩ et "shift exponent %i is too large for %i-bit type %s" args := by
  have hlhs : Encodes wideRam (.word true 0) 1 1 :=
    ⟨by decide, fun _ => by decide, fun hwidth => absurd hwidth (by decide)⟩
  have hrhs : Encodes wideRam ⟨6, false, 0⟩ (2 ^ 32 + 1) 0 :=
    ⟨by decide, fun hwidth => absurd hwidth (by decide), fun _ => by decide⟩
  obtain ⟨et, fmt, args, hreport, _, hlarge, _⟩ :=
    shift_report_names_fault hlhs hrhs ⟨0, 0, 0⟩
  refine ⟨et, args, ?_⟩
  rw [hreport, hlarge.mpr (by decide)]

/-! ## Pointers -/

/-- What a report of pointer arithmetic says about the operation. -/
inductive PointerFault
  | addition
  | subtraction
  | neutral
  deriving DecidableEq, Repr

namespace PointerFault

/-- The fault of going from `base` to `result`: an operation is named only when
both lie in the same half of the address space. -/
def of (base result : U32) : PointerFault :=
  if base.toNat < 2 ^ 31 ↔ result.toNat < 2 ^ 31 then
    if result < base then addition else subtraction
  else neutral

def message : PointerFault → String
  | addition => "addition of unsigned offset to %X overflowed to %X"
  | subtraction => "subtraction of unsigned offset from %X overflowed to %X"
  | neutral => "pointer index expression with base %X overflowed to %X"

theorem message_injective : Function.Injective message := by
  intro left right h
  cases left <;> cases right <;> first | rfl | simp [message] at h

variable {base result : U32} {offset : ℕ}

end PointerFault

/-- `base + offset` lies beyond the address space, and `result` is what is left
of it. -/
def AdditionWraps (base : U32) (offset : ℕ) (result : U32) : Prop :=
  2 ^ 32 < base.toNat + offset ∧ result.toNat = base.toNat + offset - 2 ^ 32

/-- `base - offset` lies below zero, and `result` is what is left of it. -/
def SubtractionWraps (base : U32) (offset : ℕ) (result : U32) : Prop :=
  base.toNat < offset ∧ result.toNat = base.toNat + 2 ^ 32 - offset

section Pointer

variable {base result : ValueHandle} {offset : ℕ}

theorem AdditionWraps.result_ne (h : AdditionWraps base offset result) : result ≠ 0 := by
  rintro rfl
  obtain ⟨hwrap, hzero⟩ := h
  change 0 = _ at hzero
  omega

theorem SubtractionWraps.result_ne (h : SubtractionWraps base offset result)
    (hoffset : offset < 2 ^ 32) : result ≠ 0 := by
  rintro rfl
  obtain ⟨hwrap, hzero⟩ := h
  change 0 = _ at hzero
  omega

/-- An addition leads to a lower address. -/
theorem PointerFault.of_addition (h : AdditionWraps base offset result)
    (hoffset : offset < 2 ^ 32) : of base result ≠ subtraction := by
  obtain ⟨hwrap, hresult⟩ := h
  have hbelow : result < base := by
    rw [BitVec.lt_def]
    omega
  rw [of, if_pos hbelow]
  split_ifs <;> simp

/-- A subtraction leads to a higher one. -/
theorem PointerFault.of_subtraction (h : SubtractionWraps base offset result)
    (hoffset : offset < 2 ^ 32) : of base result ≠ addition := by
  obtain ⟨hwrap, hresult⟩ := h
  have habove : ¬ result < base := by
    rw [BitVec.lt_def]
    omega
  rw [of, if_neg habove]
  split_ifs <;> simp

/-- Half the address space or less is not enough to wrap around and come back
to the same half. -/
theorem PointerFault.of_eq_neutral (hoffset : offset ≤ 2 ^ 31)
    (h : AdditionWraps base offset result ∨ SubtractionWraps base offset result) :
    of base result = neutral := by
  have hbase := base.isLt
  have hhalves : ¬ (base.toNat < 2 ^ 31 ↔ result.toNat < 2 ^ 31) := by
    rw [AdditionWraps, SubtractionWraps] at h
    omega
  exact if_neg hhalves

theorem toInt_nonneg_iff (x : U32) : 0 ≤ x.toInt ↔ x.toNat < 2 ^ 31 := by
  rw [BitVec.toInt_pos_iff]
  omega

/-- Between two addresses that are not null, the report is that of the fault. -/
theorem handlePointerOverflowImpl_eq (loc : SourceLocation) (hbase : base ≠ 0)
    (hresult : result ≠ 0) :
    handlePointerOverflowImpl ⟨loc⟩ base result =
      reportError loc .pointerOverflow (PointerFault.of base result).message
        [.word base, .word result] := by
  have het : pointerOverflowError base result = .pointerOverflow := by
    rw [pointerOverflowError, if_neg fun h => hbase h.1, if_neg fun h => hbase h.1,
      if_neg fun h => hresult h.2]
  have hhalves : decide (0 ≤ base.toInt) = decide (0 ≤ result.toInt) ↔
      (base.toNat < 2 ^ 31 ↔ result.toNat < 2 ^ 31) := by
    rw [decide_eq_decide, toInt_nonneg_iff, toInt_nonneg_iff]
  simp only [handlePointerOverflowImpl, het, reduceCtorEq, if_false, hhalves, PointerFault.of,
    ubsanDiag_source]
  split_ifs <;> rfl

/-- The message speaks of an unsigned offset, in one direction or the other. -/
def NamesOperation (fmt : String) : Prop :=
  fmt = "addition of unsigned offset to %X overflowed to %X" ∨
    fmt = "subtraction of unsigned offset from %X overflowed to %X"

theorem PointerFault.namesOperation_message (fault : PointerFault) :
    NamesOperation fault.message ↔ fault ≠ neutral := by
  have hmessage : ∀ other : PointerFault, fault.message = other.message ↔ fault = other :=
    fun _ => message_injective.eq_iff
  have hiff : NamesOperation fault.message ↔ fault = addition ∨ fault = subtraction :=
    or_congr (hmessage addition) (hmessage subtraction)
  rw [hiff]
  cases fault <;> simp

/-- An operation is named for a large offset only. -/
theorem PointerFault.lt_of_namesOperation
    (h : AdditionWraps base offset result ∨ SubtractionWraps base offset result)
    (hnames : NamesOperation (of base result).message) : 2 ^ 31 < offset := by
  by_contra hhalf
  rw [namesOperation_message] at hnames
  exact hnames (of_eq_neutral (not_lt.mp hhalf) h)

/-- The report of a pointer that wrapped around never turns the direction of the
operation around, and names the operation only for an offset of more than half
the address space. -/
theorem pointer_report_keeps_direction (hbase : base ≠ 0)
    (hoffset : offset < 2 ^ 32) (loc : SourceLocation) :
    (AdditionWraps base offset result →
      ∃ fmt args, handlePointerOverflowImpl ⟨loc⟩ base result =
          reportError loc .pointerOverflow fmt args ∧
        fmt ≠ "subtraction of unsigned offset from %X overflowed to %X" ∧
        (NamesOperation fmt → 2 ^ 31 < offset) ∧
        (offset ≤ 2 ^ 31 → fmt = "pointer index expression with base %X overflowed to %X")) ∧
    (SubtractionWraps base offset result →
      ∃ fmt args, handlePointerOverflowImpl ⟨loc⟩ base result =
          reportError loc .pointerOverflow fmt args ∧
        fmt ≠ "addition of unsigned offset to %X overflowed to %X" ∧
        (NamesOperation fmt → 2 ^ 31 < offset) ∧
        (offset ≤ 2 ^ 31 → fmt = "pointer index expression with base %X overflowed to %X")) := by
  constructor
  · intro h
    refine ⟨_, _, handlePointerOverflowImpl_eq loc hbase h.result_ne, ?_,
      PointerFault.lt_of_namesOperation (Or.inl h), fun hhalf => ?_⟩
    · intro hmessage
      exact PointerFault.of_addition h hoffset (PointerFault.message_injective hmessage)
    · rw [PointerFault.of_eq_neutral hhalf (Or.inl h)]
      rfl
  · intro h
    refine ⟨_, _, handlePointerOverflowImpl_eq loc hbase (h.result_ne hoffset), ?_,
      PointerFault.lt_of_namesOperation (Or.inr h), fun hhalf => ?_⟩
    · intro hmessage
      exact PointerFault.of_subtraction h hoffset (PointerFault.message_injective hmessage)
    · rw [PointerFault.of_eq_neutral hhalf (Or.inr h)]
      rfl

end Pointer

/-- An offset of `2 ^ 31 - 1` from a cached address to the start of memory. -/
theorem pointer_report_keeps_direction_cached : ∃ args,
    handlePointerOverflowImpl ⟨⟨0, 0, 0⟩⟩ 0x80000004 3 =
      reportError ⟨0, 0, 0⟩ .pointerOverflow
        "pointer index expression with base %X overflowed to %X" args := by
  have hwraps : AdditionWraps 0x80000004 0x7FFFFFFF 3 := ⟨by decide, by decide⟩
  obtain ⟨fmt, args, hreport, -, -, hneutral⟩ :=
    (pointer_report_keeps_direction (by decide) (by decide) ⟨0, 0, 0⟩).1 hwraps
  rw [hneutral (by decide)] at hreport
  exact ⟨args, hreport⟩

end N64San.Ubsan
