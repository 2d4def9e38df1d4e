import N64San.Core.Mips

/-!
# The 64-bit shift helpers

`U64_LeftShift` and `U64_RightShift` receive a 64-bit value and a 64-bit shift
in register pairs, store both to the caller's argument area, shift once and
split the result into a pair again.  The last instruction of either routine
stands behind its `jr $ra`, indented as for a delay slot.  In reorder mode the
assembler fills the slot itself, and that instruction is never reached.
-/

namespace N64San.ShiftHelpers

open BigEndian Mips

/-- The text of both routines up to the one instruction that shifts. -/
def shiftRoutine (shift : Instr) : List Instr :=
  [.sw .a0 0x0 .sp, .sw .a1 0x4 .sp, .sw .a2 0x8 .sp, .sw .a3 0xc .sp,
    .ld .t7 0x8 .sp, .ld .t6 0x0 .sp,
    shift,
    .dsll32 .v1 .v0 0, .dsra32 .v1 .v1 0, .jr .ra, .dsra32 .v0 .v0 0]

def u64LeftShift : List Instr := shiftRoutine (.dsllv .v0 .t6 .t7)

def u64RightShift : List Instr := shiftRoutine (.dsrav .v0 .t6 .t7)

/-- The 64-bit value in a pair of registers, high word first. -/
def pair (s : Cpu) (high low : Reg) : Double :=
  (s.regs high).setWidth 32 ++ (s.regs low).setWidth 32

/-- A 64-bit result in `$v0:$v1`, each half sign-extended. -/
def Returns (s : Cpu) (result : Double) : Prop :=
  pair s .v0 .v1 = result ∧
    s.regs .v0 = (result.extractLsb' 32 32).signExtend 64 ∧
    s.regs .v1 = (result.setWidth 32).signExtend 64

instance (s : Cpu) (result : Double) : Decidable (Returns s result) :=
  inferInstanceAs (Decidable (_ ∧ _ ∧ _))

/-- The call comes back to its caller with the result. -/
def Computes (machine : List Instr) (s : Cpu) (result : Double) : Prop :=
  ∃ t, call machine s = some (s.regs .ra, t) ∧ Returns t result

/-- What stands before the jump. -/
def shiftBody (shift : Instr) : List Instr :=
  (shiftRoutine shift).take 9

theorem shiftRoutine_eq (shift : Instr) :
    shiftRoutine shift = shiftBody shift ++ .jr .ra :: [.dsra32 .v0 .v0 0] := rfl

/-! ## Halves of a double word -/

theorem signExtend_high (x : Double) :
    x.sshiftRight 32 = (x.extractLsb' 32 32).signExtend 64 := by
  ext i hi
  rw [BitVec.getElem_signExtend, BitVec.getElem_sshiftRight]
  by_cases hlow : i < 32
  · simp [hlow, BitVec.getLsbD_eq_getElem, show 32 + i < 64 by omega]
  · simp [hlow, BitVec.msb_eq_getLsbD_last, show ¬ 32 + i < 64 by omega,
      BitVec.getLsbD_eq_getElem]

theorem signExtend_setWidth (w : Word) : (w.signExtend 64).setWidth 32 = w := by
  ext i hi
  simp [BitVec.getLsbD_signExtend, hi]
  omega

/-- Shifting the lower half out changes every value but zero and minus one. -/
theorem sshiftRight_eq_self_iff (x : Double) :
    x.sshiftRight 32 = x ↔ x = 0 ∨ x = -1 := by
  have hzero : (0 : Double).toInt = 0 := rfl
  have hminus : (-1 : Double).toInt = -1 := rfl
  rw [← BitVec.toInt_inj, ← BitVec.toInt_inj, ← BitVec.toInt_inj, BitVec.toInt_sshiftRight,
    Int.shiftRight_eq_div_pow, hzero, hminus]
  omega

/-! ## The loads see what the stores wrote -/

theorem readWord_writeWord_offset (m : Memory) (base word : Word) {c d : Word}
    (habove : 4 ≤ (d - c).toNat) (hbelow : 4 ≤ (c - d).toNat) :
    readWord (writeWord m (base + c) word) (base + d) = readWord m (base + d) := by
  apply readWord_writeWord_of_far <;> bv_omega

/-- Memory after four words have been stored to the argument area. -/
def argumentArea (m : Memory) (base w₀ w₁ w₂ w₃ : Word) : Memory :=
  writeWord (writeWord (writeWord (writeWord m (base + 0x0) w₀) (base + 0x4) w₁)
    (base + 0x8) w₂) (base + 0xc) w₃

theorem readDouble_argumentArea (m : Memory) (base w₀ w₁ w₂ w₃ : Word) :
    readDouble (argumentArea m base w₀ w₁ w₂ w₃) (base + 0x0) = w₀ ++ w₁ ∧
      readDouble (argumentArea m base w₀ w₁ w₂ w₃) (base + 0x8) = w₂ ++ w₃ := by
  have hfirst : base + 0x0 + 4 = base + 0x4 := by bv_omega
  have hsecond : base + 0x8 + 4 = base + 0xc := by bv_omega
  constructor
  · rw [readDouble, hfirst, argumentArea,
      readWord_writeWord_offset _ _ _ (by decide) (by decide),
      readWord_writeWord_offset _ _ _ (by decide) (by decide),
      readWord_writeWord_offset _ _ _ (by decide) (by decide), readWord_writeWord,
      readWord_writeWord_offset _ _ _ (by decide) (by decide),
      readWord_writeWord_offset _ _ _ (by decide) (by decide), readWord_writeWord]
  · rw [readDouble, hsecond, argumentArea, readWord_writeWord,
      readWord_writeWord_offset _ _ _ (by decide) (by decide), readWord_writeWord]

/-! ## The routines up to the jump -/

/-- The state after the stores and the loads. -/
def loaded (s : Cpu) : Cpu :=
  execAll [.sw .a0 0x0 .sp, .sw .a1 0x4 .sp, .sw .a2 0x8 .sp, .sw .a3 0xc .sp,
    .ld .t7 0x8 .sp, .ld .t6 0x0 .sp] s

theorem loaded_regs (s : Cpu) :
    (loaded s).regs .t6 = pair s .a0 .a1 ∧ (loaded s).regs .t7 = pair s .a2 .a3 ∧
      (loaded s).regs .ra = s.regs .ra :=
  let base := (s.regs .sp).setWidth 32
  let area := readDouble_argumentArea s.mem base ((s.regs .a0).setWidth 32)
    ((s.regs .a1).setWidth 32) ((s.regs .a2).setWidth 32) ((s.regs .a3).setWidth 32)
  ⟨area.1, area.2, rfl⟩

/-- The state at the jump, for either shift. -/
theorem shiftBody_regs {shift : Instr} {f : Double → Double → Double}
    (hshift : ∀ t, shift.exec t = t.set .v0 (f (t.regs .t6) (t.regs .t7))) (s : Cpu)
    {result : Double} (hresult : f (pair s .a0 .a1) (pair s .a2 .a3) = result) :
    (execAll (shiftBody shift) s).regs .v0 = result ∧
      (execAll (shiftBody shift) s).regs .v1 = (result.setWidth 32).signExtend 64 ∧
      (execAll (shiftBody shift) s).regs .ra = s.regs .ra := by
  have hbody : execAll (shiftBody shift) s =
      execAll [.dsll32 .v1 .v0 0, .dsra32 .v1 .v1 0] (shift.exec (loaded s)) := rfl
  obtain ⟨ht6, ht7, hra⟩ := loaded_regs s
  have hv0 : (shift.exec (loaded s)).regs .v0 = result := by
    rw [hshift, ht6, ht7, hresult]
    rfl
  refine ⟨?_, ?_, ?_⟩
  · rw [hbody]
    exact hv0
  · rw [hbody, ← sshiftRight_shiftLeft result (by decide) rfl, ← hv0]
    rfl
  · rw [hbody, ← hra, hshift]
    rfl

/-- A pair of sign-extended halves is the double word they come from. -/
theorem returns_of_halves {t : Cpu} {result : Double}
    (hv0 : t.regs .v0 = (result.extractLsb' 32 32).signExtend 64)
    (hv1 : t.regs .v1 = (result.setWidth 32).signExtend 64) : Returns t result := by
  refine ⟨?_, hv0, hv1⟩
  rw [pair, hv0, hv1, signExtend_setWidth, signExtend_setWidth, high_append_low]

/-- Before the last instruction `$v0` holds the whole result instead of its
upper half. -/
theorem returns_iff {t : Cpu} {result : Double} (hv0 : t.regs .v0 = result)
    (hv1 : t.regs .v1 = (result.setWidth 32).signExtend 64) :
    Returns t result ↔ result = 0 ∨ result = -1 := by
  rw [← sshiftRight_eq_self_iff, signExtend_high]
  constructor
  · rintro ⟨_, hhigh, _⟩
    rw [← hhigh, hv0]
  · intro hself
    exact returns_of_halves (hv0.trans hself.symm) hv1

theorem shiftBody_straight {shift : Instr} (hshift : shift.isJump = false) :
    ∀ i ∈ shiftBody shift, i.isJump = false := by
  rw [shiftBody, shiftRoutine]
  intro i hi
  fin_cases hi <;> first | exact hshift | rfl

section Calls

variable {shift : Instr} {f : Double → Double → Double}
variable (hstraight : shift.isJump = false)
  (hshift : ∀ t, shift.exec t = t.set .v0 (f (t.regs .t6) (t.regs .t7)))
  (s : Cpu) {result : Double} (hresult : f (pair s .a0 .a1) (pair s .a2 .a3) = result)

include hstraight hshift hresult

/-- However the assembler fills the slot, the call comes back with the whole
result in `$v0`. -/
theorem computes_reordered_iff {machine : List Instr}
    (hmachine : Reorder (shiftRoutine shift) machine) :
    Computes machine s result ↔ result = 0 ∨ result = -1 := by
  obtain ⟨hv0, hv1, hra⟩ := shiftBody_regs hshift s hresult
  have hcall := hmachine.call_eq (shiftBody_straight hstraight) s
  rw [hra] at hcall
  rw [← returns_iff hv0 hv1, Computes, hcall]
  constructor
  · rintro ⟨t, hcalled, hreturns⟩
    cases hcalled
    exact hreturns
  · exact fun hreturns => ⟨_, rfl, hreturns⟩

/-- With the last instruction in the slot, as the indentation has it, the call
returns the result. -/
theorem computes_as_written : Computes (shiftRoutine shift) s result := by
  obtain ⟨hv0, hv1, hra⟩ := shiftBody_regs hshift s hresult
  generalize ht : execAll (shiftBody shift) s = t at hv0 hv1 hra
  refine ⟨t.set .v0 ((t.regs .v0).sshiftRight 32), ?_, returns_of_halves ?_ ?_⟩
  · rw [shiftRoutine_eq, call_noreorder (shiftBody_straight hstraight), ht, hra]
    rfl
  · rw [Cpu.set_regs_self, hv0, signExtend_high]
  · rw [Cpu.set_regs_of_ne t _ (by decide), hv1]

end Calls

/-! ## When the upper half does not matter -/

theorem shiftLeft_eq_zero_or_minus_one_iff (value : Double) {n : ℕ} (hn : n < 64) :
    value <<< n = 0 ∨ value <<< n = -1 ↔
      value.toNat % 2 ^ (64 - n) = 0 ∨ (value = -1 ∧ n = 0) := by
  have hpow : 2 ^ (64 - n) * 2 ^ n = 2 ^ 64 := by
    rw [← pow_add, Nat.sub_add_cancel hn.le]
  have hshift : (value <<< n).toNat = value.toNat % 2 ^ (64 - n) * 2 ^ n := by
    rw [BitVec.toNat_shiftLeft, Nat.shiftLeft_eq, ← hpow, Nat.mul_mod_mul_right]
  have hzero : value <<< n = 0 ↔ value.toNat % 2 ^ (64 - n) = 0 := by
    rw [← BitVec.toNat_inj, hshift]
    exact Nat.mul_eq_zero.trans (or_iff_left (pow_ne_zero n two_ne_zero))
  have hminus : value <<< n = -1 ↔ value = -1 ∧ n = 0 := by
    constructor
    · intro h
      have hn0 : n = 0 := by
        by_contra hne
        have hbit : (value <<< n).getLsbD 0 = true := by
          rw [h]
          rfl
        rw [BitVec.getLsbD_shiftLeft] at hbit
        simp [Nat.pos_of_ne_zero hne] at hbit
      subst hn0
      exact ⟨by rwa [BitVec.shiftLeft_zero] at h, rfl⟩
    · rintro ⟨rfl, rfl⟩
      rfl
  rw [hzero, hminus]

theorem sshiftRight_eq_zero_or_minus_one_iff (value : Double) (n : ℕ) :
    value.sshiftRight n = 0 ∨ value.sshiftRight n = -1 ↔
      -2 ^ n ≤ value.toInt ∧ value.toInt < 2 ^ n := by
  have hzero : (0 : Double).toInt = 0 := rfl
  have hminus : (-1 : Double).toInt = -1 := rfl
  have hpos : (0 : ℤ) < (2 ^ n : ℕ) := by positivity
  rw [← BitVec.toInt_inj, ← BitVec.toInt_inj, BitVec.toInt_sshiftRight,
    Int.shiftRight_eq_div_pow, hzero, hminus, Int.ediv_eq_iff_of_pos hpos,
    Int.ediv_eq_iff_of_pos hpos]
  push_cast at hpos ⊢
  omega

/-- As this build assembles them, the left shift returns its result only when
that is zero or minus one, which takes a value without any bit below the ones
shifted out; and the right shift only when nothing but the sign is left. -/
theorem shift_helpers_compute_iff (s : Cpu) (hshift : (pair s .a2 .a3).toNat < 64) :
    let value := pair s .a0 .a1
    let n := (pair s .a2 .a3).toNat
    (∀ machine, Reorder u64LeftShift machine →
        (Computes machine s (value <<< n) ↔
          value.toNat % 2 ^ (64 - n) = 0 ∨ (value = -1 ∧ n = 0))) ∧
      (∀ machine, Reorder u64RightShift machine →
        (Computes machine s (value.sshiftRight n) ↔
          -2 ^ n ≤ value.toInt ∧ value.toInt < 2 ^ n)) := by
  intro value n
  have hmod : n % 64 = n := Nat.mod_eq_of_lt hshift
  constructor
  · intro machine hmachine
    rw [← shiftLeft_eq_zero_or_minus_one_iff value hshift]
    exact computes_reordered_iff (f := fun x y => x <<< (y.toNat % 64)) rfl (fun _ => rfl) s
      (congrArg (value <<< ·) hmod) hmachine
  · intro machine hmachine
    rw [← sshiftRight_eq_zero_or_minus_one_iff value n]
    exact computes_reordered_iff (f := fun x y => x.sshiftRight (y.toNat % 64)) rfl
      (fun _ => rfl) s (congrArg value.sshiftRight hmod) hmachine

/-- A caller that passes `value` and `shift`. -/
def calling (value shift : Double) : Cpu where
  regs
    | .a0 => (value.extractLsb' 32 32).signExtend 64
    | .a1 => (value.setWidth 32).signExtend 64
    | .a2 => (shift.extractLsb' 32 32).signExtend 64
    | .a3 => (shift.setWidth 32).signExtend 64
    | .sp => 0xFFFFFFFF803FFFE0
    | .ra => 0xFFFFFFFF80001000
    | _ => 0
  mem _ := 0

/-- The routine with a `nop` in the slot, as the assembler may leave it. -/
def filledWithNop (shift : Instr) : List Instr :=
  shiftBody shift ++ .jr .ra :: .nop :: [.dsra32 .v0 .v0 0]

theorem reorder_filledWithNop {shift : Instr} (hshift : shift.isJump = false) :
    Reorder (shiftRoutine shift) (filledWithNop shift) :=
  .jump (shiftBody_straight hshift) .nop (.straight (by simp [Instr.isJump]))

/-- The left shift pushes the last bit out; the right shift is right about the sign
of -5, and wrong about 40. -/
theorem shift_helpers_compute_signs :
    Computes (filledWithNop (.dsllv .v0 .t6 .t7)) (calling 0xF000000000000000 4) 0 ∧
      Computes (filledWithNop (.dsrav .v0 .t6 .t7)) (calling (-5) 3) (-1) ∧
      ¬ Computes (filledWithNop (.dsrav .v0 .t6 .t7)) (calling 40 3) 5 := by
  have hleft := (shift_helpers_compute_iff (calling 0xF000000000000000 4) (by decide)).1 _
    (reorder_filledWithNop rfl)
  have hright := (shift_helpers_compute_iff (calling (-5) 3) (by decide)).2 _
    (reorder_filledWithNop rfl)
  have hwrong := (shift_helpers_compute_iff (calling 40 3) (by decide)).2 _
    (reorder_filledWithNop rfl)
  exact ⟨hleft.mpr (Or.inl (by decide)), hright.mpr (by decide), mt hwrong.mp (by decide)⟩

/-- One, shifted left by zero, does not come back as one: its `$v0` is `1`. -/
theorem left_shift_of_one_fails :
    ∃ machine, Reorder u64LeftShift machine ∧ ¬ Computes machine (calling 1 0) 1 := by
  refine ⟨filledWithNop (.dsllv .v0 .t6 .t7), reorder_filledWithNop rfl, ?_⟩
  rw [computes_reordered_iff (f := fun x y => x <<< (y.toNat % 64)) rfl (fun _ => rfl)
    (calling 1 0) (by decide) (reorder_filledWithNop rfl)]
  decide

end N64San.ShiftHelpers
