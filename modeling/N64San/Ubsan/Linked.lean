import N64San.Asm.ShiftHelpers
import N64San.Ubsan.Classify

/-!
# The runtime as it is linked

The decoder of signed integers calls the two shift helpers.  Here the C code
runs with the helpers that the assembler really makes of their text: every
signed value of up to 32 bits is decoded to zero.  With the last instruction in
the delay slot, as it is indented, the runtime does what its C code says.
-/

namespace N64San.Ubsan

open BigEndian Mips
open ShiftHelpers (calling filledWithNop pair shiftBody shiftBody_regs shiftBody_straight
  shiftRoutine)

/-! ## The helpers, seen from C -/

/-- A call of the machine code comes back with what the function computes. -/
def RunsAs (machine : List Instr) (f : U64 → U64 → U64) : Prop :=
  ∀ s, ∃ t, call machine s = some (s.regs .ra, t) ∧
    pair t .v0 .v1 = f (pair s .a0 .a1) (pair s .a2 .a3)

/-- The helpers as the build assembles them, however the slot is filled. -/
structure Assembled (helpers : Helpers) : Prop where
  left : ∃ machine, Reorder ShiftHelpers.u64LeftShift machine ∧ RunsAs machine helpers.left
  right : ∃ machine, Reorder ShiftHelpers.u64RightShift machine ∧ RunsAs machine helpers.right

/-- The helpers as they are written, with the last instruction in the slot. -/
structure AsWritten (helpers : Helpers) : Prop where
  left : RunsAs ShiftHelpers.u64LeftShift helpers.left
  right : RunsAs ShiftHelpers.u64RightShift helpers.right

/-- The lower word in both halves. -/
def lowTwice (x : U64) : U64 :=
  (x.setWidth 32 : U32) ++ (x.setWidth 32 : U32)

theorem pair_calling (value shift : U64) :
    pair (calling value shift) .a0 .a1 = value ∧ pair (calling value shift) .a2 .a3 = shift := by
  constructor
  · rw [pair, calling, ShiftHelpers.signExtend_setWidth, ShiftHelpers.signExtend_setWidth,
      high_append_low]
  · rw [pair, calling, ShiftHelpers.signExtend_setWidth, ShiftHelpers.signExtend_setWidth,
      high_append_low]

/-- Machine code computes one function only. -/
theorem RunsAs.unique {machine : List Instr} {f g : U64 → U64 → U64}
    (hf : RunsAs machine f) (hg : RunsAs machine g) : f = g := by
  funext value shift
  obtain ⟨hvalue, hamount⟩ := pair_calling value shift
  obtain ⟨t, hcall, hresult⟩ := hf (calling value shift)
  obtain ⟨t', hcall', hresult'⟩ := hg (calling value shift)
  rw [hcall] at hcall'
  cases hcall'
  rw [hvalue, hamount] at hresult hresult'
  exact hresult.symm.trans hresult'

section Routine

variable {shift : Instr} {f : U64 → U64 → U64} (hstraight : shift.isJump = false)
  (hshift : ∀ t, shift.exec t = t.set .v0 (f (t.regs .t6) (t.regs .t7)))

include hstraight hshift

/-- In reorder mode the caller finds the lower word in both registers. -/
theorem runsAs_reordered {machine : List Instr} (hmachine : Reorder (shiftRoutine shift) machine) :
    RunsAs machine fun value amount => lowTwice (f value amount) := by
  intro s
  obtain ⟨hv0, hv1, hra⟩ := shiftBody_regs hshift s rfl
  have hcall := hmachine.call_eq (shiftBody_straight hstraight) s
  rw [hra] at hcall
  refine ⟨_, hcall, ?_⟩
  rw [pair, hv0, hv1, ShiftHelpers.signExtend_setWidth]
  rfl

theorem runsAs_as_written : RunsAs (shiftRoutine shift) f := by
  intro s
  obtain ⟨t, hcall, hreturns⟩ := ShiftHelpers.computes_as_written hstraight hshift s rfl
  exact ⟨t, hcall, hreturns.1⟩

end Routine

/-- The processor's own shifts. -/
def shiftLeftModulo (value shift : U64) : U64 :=
  value <<< (shift.toNat % 64)

def shiftRightModulo (value shift : U64) : U64 :=
  value.sshiftRight (shift.toNat % 64)

section Calls

variable {helpers : Helpers} (value shift : U64)

theorem Assembled.left_eq (h : Assembled helpers) :
    helpers.left value shift = lowTwice (shiftLeftModulo value shift) := by
  obtain ⟨machine, hmachine, hruns⟩ := h.left
  have hreordered := runsAs_reordered (f := shiftLeftModulo) rfl (fun _ => rfl) hmachine
  rw [hruns.unique hreordered]

theorem Assembled.right_eq (h : Assembled helpers) :
    helpers.right value shift = lowTwice (shiftRightModulo value shift) := by
  obtain ⟨machine, hmachine, hruns⟩ := h.right
  have hreordered := runsAs_reordered (f := shiftRightModulo) rfl (fun _ => rfl) hmachine
  rw [hruns.unique hreordered]

theorem AsWritten.left_eq (h : AsWritten helpers) :
    helpers.left value shift = shiftLeftModulo value shift := by
  have hwritten : RunsAs ShiftHelpers.u64LeftShift shiftLeftModulo :=
    runsAs_as_written rfl fun _ => rfl
  rw [h.left.unique hwritten]

theorem AsWritten.right_eq (h : AsWritten helpers) :
    helpers.right value shift = shiftRightModulo value shift := by
  have hwritten : RunsAs ShiftHelpers.u64RightShift shiftRightModulo :=
    runsAs_as_written rfl fun _ => rfl
  rw [h.right.unique hwritten]

end Calls

/-! ## As assembled -/

namespace Linked

variable {helpers : Helpers} {ram : Ram}

theorem lowTwice_eq_zero {x : U64} (h : (x.setWidth 32 : U32) = 0) : lowTwice x = 0 := by
  rw [lowTwice, h]
  rfl

theorem setWidth_shiftLeft_eq_zero (x : U64) {n : ℕ} (hn : 32 ≤ n) :
    ((x <<< n).setWidth 32 : U32) = 0 := by
  ext i hi
  simp
  omega

section Decoders

variable {ty : IntType} {val : ValueHandle}

/-- A signed value of up to 32 bits is shifted out of the lower word, and what
the caller gets back has the lower word twice. -/
theorem getSIntValue_of_assembled (h : Assembled helpers) (hsigned : ty.signed = true)
    (hinline : ty.width ≤ 32) : helpers.getSIntValue ram ty.descriptor val = pure 0 := by
  have hwidth := ty.width_pos
  have hleft : helpers.left (val.setWidth 64) ty.extraBits = 0 := by
    rw [h.left_eq, shiftLeftModulo, ty.toNat_extraBits]
    exact lowTwice_eq_zero (setWidth_shiftLeft_eq_zero _ (by omega))
  have hzero : ∀ shift, shiftRightModulo 0 shift = 0 := fun _ => BitVec.zero_sshiftRight
  rw [getSIntValue_of_inline hsigned hinline, hleft, h.right_eq, hzero]
  rfl

end Decoders

/-- The integer that the assembled runtime takes a handle for. -/
def linkedMeaning (ram : Ram) (ty : IntType) (val : ValueHandle) : ℤ :=
  if ty.signed = true ∧ ty.width ≤ 32 then 0 else meaning ram ty val

theorem reads_of_assembled (h : Assembled helpers) {ty : IntType} {val : ValueHandle}
    (hval : Followable ram ty val) : Reads helpers ram ty val (linkedMeaning ram ty val) := by
  rw [linkedMeaning]
  cases hsigned : ty.signed with
  | false =>
      rw [if_neg (by simp)]
      exact reads_of_unsigned hsigned hval
  | true =>
      rcases ty.width_le_or with hinline | haddress
      · rw [if_pos ⟨rfl, hinline⟩]
        exact reads_of_signed hsigned (getSIntValue_of_assembled h hsigned hinline)
      · rw [if_neg (by simp [haddress]), meaning_of_signed hsigned]
        exact reads_of_signed hsigned (getSIntValue_of_address hsigned haddress hval)

/-- A wrong divisor matters when it is minus one. -/
theorem linkedMeaning_eq_minus_one_iff {ty : IntType} {val : ValueHandle} :
    (linkedMeaning ram ty val = -1 ↔ meaning ram ty val = -1) ↔
      (meaning ram ty val = -1 → ty.width = 64) := by
  have hsigned : meaning ram ty val = -1 → ty.signed = true := by
    intro hminus
    by_contra hne
    exact meaning_ne_of_unsigned (by simpa using hne) val hminus
  rw [linkedMeaning]
  rcases ty.width_le_or with hinline | haddress
  · have hne : ty.width ≠ 64 := by omega
    by_cases hminus : meaning ram ty val = -1
    · simp [hminus, hsigned hminus, hinline, hne]
    · split_ifs <;> simp [hminus]
  · simp [haddress]

/-- The report of a division by the linked runtime is the one that the C code
makes unless the divisor is a minus one of at most 32 bits: that one is called
a division by zero. -/
theorem division_report_as_linked_iff (h : Assembled helpers) {ty : IntType}
    {rhs : ValueHandle} (hrhs : Followable ram ty rhs) (loc : SourceLocation)
    (lhs : ValueHandle) :
    (helpers.handleDivremOverflowImpl ram ⟨loc, ty.descriptor⟩ lhs rhs =
        handleDivremOverflowImpl ram ⟨loc, ty.descriptor⟩ lhs rhs ↔
      (meaning ram ty rhs = -1 → ty.width = 64)) ∧
    (meaning ram ty rhs = -1 → ty.width ≤ 32 →
      helpers.handleDivremOverflowImpl ram ⟨loc, ty.descriptor⟩ lhs rhs =
        reportError loc .integerDivideByZero "division by zero" []) := by
  rw [handleDivremOverflowImpl_of_reads (reads_of_assembled h hrhs),
    handleDivremOverflowImpl_of_integer hrhs]
  constructor
  · rw [← linkedMeaning_eq_minus_one_iff]
    constructor
    · intro heq
      split_ifs at heq with hlinked hmeaning hmeaning
      · exact iff_of_true hlinked hmeaning
      · cases (reportError_inj heq).2.1
      · cases (reportError_inj heq).2.1
      · exact iff_of_false hlinked hmeaning
    · intro hiff
      simp only [hiff]
  · intro hminus hinline
    have hlinked : linkedMeaning ram ty rhs ≠ -1 := by
      intro hsame
      have hwidth := linkedMeaning_eq_minus_one_iff.mp (iff_of_true hsame hminus) hminus
      omega
    rw [if_neg hlinked]

/-- An exponent taken for zero hides that it is out of range. -/
theorem shiftFault_zero_exponent_iff {width : ℕ} (hwidth : 0 < width) (l r : ℤ) :
    ShiftFault.of width l 0 = ShiftFault.of width l r ↔ 0 ≤ r ∧ r < width := by
  rw [ShiftFault.of_eq_iff, ShiftFault.of]
  split_ifs <;> simp only [ShiftFault.Condition] <;> omega

/-- A base taken for zero hides that it is negative. -/
theorem shiftFault_zero_base_iff (width : ℕ) (l r : ℤ) :
    ShiftFault.of width 0 r = ShiftFault.of width l r ↔ (0 ≤ r → r < width → 0 ≤ l) := by
  rw [ShiftFault.of_eq_iff, ShiftFault.of]
  split_ifs <;> simp only [ShiftFault.Condition] <;> omega

theorem shiftFault_zero_iff {width : ℕ} (hwidth : 0 < width) (l r : ℤ) :
    ShiftFault.of width 0 0 = ShiftFault.of width l r ↔
      (0 ≤ r ∧ r < width) ∧ (0 ≤ r → r < width → 0 ≤ l) := by
  rw [ShiftFault.of_eq_iff, ShiftFault.of]
  split_ifs <;> simp only [ShiftFault.Condition] <;> omega

/-- The fault that the linked runtime sees is the one of the operands if no
signed operand of at most 32 bits has to be told from zero. -/
theorem shiftFault_linked_iff {lhsType rhsType : IntType} {lhs rhs : ValueHandle} :
    ShiftFault.of lhsType.width (linkedMeaning ram lhsType lhs)
          (linkedMeaning ram rhsType rhs) =
        ShiftFault.of lhsType.width (meaning ram lhsType lhs) (meaning ram rhsType rhs) ↔
      (rhsType.signed = true ∧ rhsType.width ≤ 32 →
          0 ≤ meaning ram rhsType rhs ∧ meaning ram rhsType rhs < lhsType.width) ∧
        (lhsType.signed = true ∧ lhsType.width ≤ 32 →
          0 ≤ meaning ram rhsType rhs → meaning ram rhsType rhs < lhsType.width →
            0 ≤ meaning ram lhsType lhs) := by
  have hwidth := lhsType.width_pos
  rw [linkedMeaning, linkedMeaning]
  by_cases hrhs : rhsType.signed = true ∧ rhsType.width ≤ 32
  · rw [if_pos hrhs, imp_iff_right hrhs]
    by_cases hlhs : lhsType.signed = true ∧ lhsType.width ≤ 32
    · rw [if_pos hlhs, imp_iff_right hlhs]
      exact shiftFault_zero_iff hwidth _ _
    · rw [if_neg hlhs, shiftFault_zero_exponent_iff hwidth]
      exact (and_iff_left fun h => absurd h hlhs).symm
  · rw [if_neg hrhs]
    by_cases hlhs : lhsType.signed = true ∧ lhsType.width ≤ 32
    · rw [if_pos hlhs, imp_iff_right hlhs, shiftFault_zero_base_iff]
      exact (and_iff_right fun h => absurd h hrhs).symm
    · rw [if_neg hlhs]
      exact iff_of_true rfl ⟨fun h => absurd h hrhs, fun h => absurd h hlhs⟩

/-- The report of a shift by the linked runtime is the one that the C code makes
exactly if a signed exponent of at most 32 bits is in range, and a signed base of
at most 32 bits is not negative where the exponent is in range. -/
theorem shift_report_as_linked_iff (h : Assembled helpers) {lhsType rhsType : IntType}
    {lhs rhs : ValueHandle} (hlhs : Followable ram lhsType lhs)
    (hrhs : Followable ram rhsType rhs) (loc : SourceLocation) :
    helpers.handleShiftOutOfBoundsImpl ram ⟨loc, lhsType.descriptor, rhsType.descriptor⟩
          lhs rhs =
        handleShiftOutOfBoundsImpl ram
          ⟨loc, lhsType.descriptor, rhsType.descriptor⟩ lhs rhs ↔
      (rhsType.signed = true ∧ rhsType.width ≤ 32 →
          0 ≤ meaning ram rhsType rhs ∧ meaning ram rhsType rhs < lhsType.width) ∧
        (lhsType.signed = true ∧ lhsType.width ≤ 32 →
          0 ≤ meaning ram rhsType rhs → meaning ram rhsType rhs < lhsType.width →
            0 ≤ meaning ram lhsType lhs) := by
  rw [← shiftFault_linked_iff, handleShiftOutOfBoundsImpl_of_reads (reads_of_assembled h hlhs)
    (reads_of_assembled h hrhs), handleShiftOutOfBoundsImpl_eq loc hlhs hrhs]
  constructor
  · exact fun heq => ShiftFault.message_injective (reportError_inj heq).2.2.1
  · intro hfault
    rw [hfault]

/-- What the helpers compute when a `nop` fills the slot. -/
def nopFilled : Helpers where
  left value shift := lowTwice (shiftLeftModulo value shift)
  right value shift := lowTwice (shiftRightModulo value shift)

theorem assembled_nopFilled : Assembled nopFilled where
  left := ⟨_, ShiftHelpers.reorder_filledWithNop rfl,
    runsAs_reordered rfl (fun _ => rfl) (ShiftHelpers.reorder_filledWithNop rfl)⟩
  right := ⟨_, ShiftHelpers.reorder_filledWithNop rfl,
    runsAs_reordered rfl (fun _ => rfl) (ShiftHelpers.reorder_filledWithNop rfl)⟩

/-- The least word divided by minus one is reported as a division by zero. -/
theorem division_report_as_linked_least :
    nopFilled.handleDivremOverflowImpl zeroRam
          ⟨⟨4, 1, 1⟩, (IntType.word true 8).descriptor⟩ 0x80000000 0xFFFFFFFF =
        reportError ⟨4, 1, 1⟩ .integerDivideByZero "division by zero" [] ∧
      nopFilled.handleDivremOverflowImpl zeroRam
          ⟨⟨4, 1, 1⟩, (IntType.word true 8).descriptor⟩ 0x80000000 0xFFFFFFFF ≠
        handleDivremOverflowImpl zeroRam
          ⟨⟨4, 1, 1⟩, (IntType.word true 8).descriptor⟩ 0x80000000 0xFFFFFFFF := by
  have hrhs : Followable zeroRam (.word true 8) 0xFFFFFFFF := fun _ => by decide
  obtain ⟨hiff, hzero⟩ := division_report_as_linked_iff assembled_nopFilled hrhs ⟨4, 1, 1⟩
    0x80000000
  refine ⟨hzero (by decide) (by decide), fun heq => ?_⟩
  exact absurd (hiff.mp heq (by decide)) (by decide)

/-- A word shifted left by minus one: the exponent is not called negative. -/
theorem shift_report_as_linked_negative :
    nopFilled.handleShiftOutOfBoundsImpl zeroRam
        ⟨⟨4, 1, 1⟩, (IntType.word true 0).descriptor, (IntType.word true 0).descriptor⟩
        1 0xFFFFFFFF ≠
      handleShiftOutOfBoundsImpl zeroRam
        ⟨⟨4, 1, 1⟩, (IntType.word true 0).descriptor, (IntType.word true 0).descriptor⟩
        1 0xFFFFFFFF := by
  intro heq
  have hlhs : Followable zeroRam (.word true 0) 1 := fun _ => by decide
  have hrhs : Followable zeroRam (.word true 0) 0xFFFFFFFF := fun _ => by decide
  have hrange := ((shift_report_as_linked_iff assembled_nopFilled hlhs hrhs ⟨4, 1, 1⟩).mp
    heq).1 (by decide)
  exact absurd hrange.1 (by decide)

/-! ## As written -/

/-- Behind a check that fails nothing runs. -/
theorem check_false_bind {A : Type} (file : String) (line : ℕ) (a : String)
    (next next' : Unit → San A) :
    (check file line a false >>= next) = (check file line a false >>= next') :=
  (checkFailed_bind next).trans (checkFailed_bind next').symm

/-- A width of at most 32 bits leaves an amount that the processor does not
reduce. -/
theorem extraBits_mod {width : U32} (hpos : width ≠ 0) (hinline : width ≤ 4 * 8) :
    ((8 * 8 - width : U32).setWidth 64 : U64).toNat % 64 =
      ((8 * 8 - width : U32).setWidth 64 : U64).toNat := by
  apply Nat.mod_eq_of_lt
  rw [BitVec.toNat_setWidth]
  bv_omega

theorem one_shiftLeft_ne_zero (n : ℕ) : 1#32 <<< (n % 32) ≠ 0 := by
  have hbits : ∀ k < 32, 1#32 <<< k ≠ 0 := by decide
  exact hbits _ (Nat.mod_lt n (by decide))

/-- With the last instruction in the slot the decoder does for every descriptor
what its C code says. -/
theorem getSIntValue_of_asWritten (h : AsWritten helpers) :
    helpers.getSIntValue = Value.getSIntValue := by
  funext ram type val
  rw [Value.getSIntValue, Helpers.getSIntValue, Helpers.getSIntValue]
  cases hsigned : type.isSignedIntegerTy with
  | false => exact check_false_bind _ _ _ _ _
  | true =>
      have hinteger : type.isIntegerTy = true := (Bool.and_eq_true_iff.mp hsigned).1
      simp only [Value.isInlineInt, TypeDescriptor.getIntegerBitWidth, hinteger, check_true,
        pure_bind, decide_eq_true_eq]
      split_ifs with hinline
      · have hamount := extraBits_mod (one_shiftLeft_ne_zero _) hinline
        rw [h.left_eq, h.right_eq, shiftLeftModulo, shiftRightModulo, hamount]
        rfl
      · rfl
      · rfl

/-- The handlers use the helpers in the decoder of signed integers only. -/
theorem handlers_congr {helpers helpers' : Helpers}
    (h : helpers.getSIntValue = helpers'.getSIntValue) :
    helpers.handleDivremOverflowImpl = helpers'.handleDivremOverflowImpl ∧
      helpers.handleShiftOutOfBoundsImpl = helpers'.handleShiftOutOfBoundsImpl := by
  have hminusOne : helpers.isMinusOne = helpers'.isMinusOne := by
    funext ram type val
    rw [Helpers.isMinusOne, Helpers.isMinusOne, h]
  have hnegative : helpers.isNegative = helpers'.isNegative := by
    funext ram type val
    rw [Helpers.isNegative, Helpers.isNegative, h]
  have hpositive : helpers.getPositiveIntValue = helpers'.getPositiveIntValue := by
    funext ram type val
    rw [Helpers.getPositiveIntValue, Helpers.getPositiveIntValue, h]
  have hexponent : helpers.invalidShiftExponent = helpers'.invalidShiftExponent := by
    funext ram data rhs
    rw [Helpers.invalidShiftExponent, Helpers.invalidShiftExponent, hnegative, hpositive]
  constructor
  · funext ram data lhs rhs
    rw [Helpers.handleDivremOverflowImpl, Helpers.handleDivremOverflowImpl, hminusOne]
  · funext ram data lhs rhs
    rw [Helpers.handleShiftOutOfBoundsImpl, Helpers.handleShiftOutOfBoundsImpl, hexponent,
      hnegative]

/-- With the last instruction in the slot, as it is indented, the whole runtime
does what its C code says. -/
theorem noreorder_repairs_runtime (h : AsWritten helpers) :
    (∀ ram type val, helpers.getSIntValue ram type val = Value.getSIntValue ram type val) ∧
      (∀ ram data lhs rhs, helpers.handleDivremOverflowImpl ram data lhs rhs =
        handleDivremOverflowImpl ram data lhs rhs) ∧
      (∀ ram data lhs rhs, helpers.handleShiftOutOfBoundsImpl ram data lhs rhs =
        handleShiftOutOfBoundsImpl ram data lhs rhs) := by
  have hget := getSIntValue_of_asWritten h
  obtain ⟨hdivision, hshift⟩ := handlers_congr hget
  constructor
  · intro ram type val
    rw [hget]
  constructor
  · intro ram data lhs rhs
    rw [hdivision, handleDivremOverflowImpl]
  · intro ram data lhs rhs
    rw [hshift, handleShiftOutOfBoundsImpl]

/-- The processor's shifts of a negative byte with other bits above it. -/
theorem noreorder_repairs_runtime_byte :
    Helpers.getSIntValue ⟨shiftLeftModulo, shiftRightModulo⟩ zeroRam
        (IntType.descriptor ⟨3, true, 0⟩) 0xABCDEFFF =
      Value.getSIntValue zeroRam (IntType.descriptor ⟨3, true, 0⟩) 0xABCDEFFF :=
  (noreorder_repairs_runtime ⟨runsAs_as_written rfl fun _ => rfl,
    runsAs_as_written rfl fun _ => rfl⟩).1 zeroRam _ _

end Linked

end N64San.Ubsan
