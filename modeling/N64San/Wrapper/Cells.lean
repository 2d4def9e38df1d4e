import N64San.Wrapper.Print

/-!
# Cells, indices and the space check

The arithmetic of `is_proutSyncPrintf`.  Address mask, lane shift and byte mask
agree: the read-modify-write of a word replaces exactly the byte of cell
`start`.  `start` walks the ring one cell at a time, and the two comparisons of
the space check are one inequality about the free cells.
-/

namespace N64San.IsViewer

open BigEndian CircularBuffer Transaction

/-! ## Address and lane of a cell -/

theorem and_mask_eq (x : ℕ) : x &&& 0xFFFFFFC = x / 4 % 2 ^ 26 * 4 := by
  have hmask : 0xFFFFFFC = (2 ^ 26 - 1) * 2 ^ 2 := by decide
  have hfour : x / 4 % 2 ^ 26 * 4 = x / 2 ^ 2 % 2 ^ 26 * 2 ^ 2 := by norm_num
  rw [hmask, hfour, ← Nat.shiftLeft_eq, ← Nat.shiftLeft_eq, ← Nat.shiftRight_eq_div_pow]
  apply Nat.eq_of_testBit_eq
  intro i
  simp only [Nat.testBit_and, Nat.testBit_shiftLeft, Nat.testBit_two_pow_sub_one,
    Nat.testBit_mod_two_pow, Nat.testBit_shiftRight]
  by_cases hi : 2 ≤ i
  · rw [Nat.add_sub_cancel' hi, decide_eq_true hi]
    simp [Bool.and_comm]
  · simp [hi]

theorem toNat_dataAdrs : dataAdrs.toNat = 0xB3FF0020 := rfl

theorem toNat_charAdrs (start : S32) :
    (charAdrs start).toNat = 0xB3FF0020 + start.toNat / 4 % 2 ^ 26 * 4 := by
  have hmask : (start &&& 0xFFFFFFC).toNat = start.toNat / 4 % 2 ^ 26 * 4 := by
    rw [BitVec.toNat_and]
    exact and_mask_eq start.toNat
  have hlt : start.toNat / 4 % 2 ^ 26 < 2 ^ 26 := Nat.mod_lt _ (by decide)
  rw [charAdrs, BitVec.toNat_add, hmask, toNat_dataAdrs]
  omega

/-- Cell `start` is byte `start mod 4` of its word. -/
theorem charAdrs_add_lane {start : S32} (hstart : start.toNat < ringSize) :
    charAdrs start + BitVec.ofNat 32 (start.toNat % 4) =
      dataAdrs + BitVec.ofNat 32 start.toNat := by
  have hstart' : start.toNat < 0xFFE0 := hstart
  apply BitVec.eq_of_toNat_eq
  rw [BitVec.toNat_add, BitVec.toNat_add, toNat_charAdrs, toNat_dataAdrs,
    BitVec.toNat_ofNat, BitVec.toNat_ofNat]
  omega

/-- `(3 - (start & 3)) * 8` is the shift of lane `start mod 4`. -/
theorem charWord_eq_setLane (start : S32) (c : Byte) (data : U32) :
    charWord start c data = setLane data (start.toNat % 4) c := by
  have hand : (start &&& 3).toNat = start.toNat % 4 := by
    rw [BitVec.toNat_and]
    exact Nat.and_two_pow_sub_one_eq_mod start.toNat 2
  have hshift : ((3 - (start &&& 3)) * 8 : S32).toNat = 8 * (3 - start.toNat % 4) := by
    rw [BitVec.toNat_mul, BitVec.toNat_sub, hand]
    simp only [BitVec.ofNat_eq_ofNat, BitVec.toNat_ofNat]
    omega
  simp only [charWord, setLane, BitVec.shiftLeft_eq', hshift]

/-- The read-modify-write of a character changes cell `start` and nothing
else. -/
theorem write_charWord (d : Device) {start : S32} (hstart : start.toNat < ringSize)
    (c : Byte) :
    writeWord d (charAdrs start) (charWord start c (readWord d (charAdrs start))) =
      setData d start.toNat c := by
  have hlane : start.toNat % 4 < 4 := Nat.mod_lt _ (by decide)
  rw [charWord_eq_setLane, writeWord_setLane_readWord d _ c hlane,
    charAdrs_add_lane hstart, setData]

/-- Whatever `start` is, the word of its cell lies behind the header. -/
theorem charAdrs_far (start : S32) {devAddr : U32}
    (hheader : (devAddr - gISVDbgPrnAdrs).toNat + 4 ≤ 0x20) :
    4 ≤ (devAddr - charAdrs start).toNat ∧ 4 ≤ (charAdrs start - devAddr).toNat := by
  have hadrs := toNat_charAdrs start
  have hlt : start.toNat / 4 % 2 ^ 26 < 2 ^ 26 := Nat.mod_lt _ (by decide)
  rw [gISVDbgPrnAdrs] at hheader
  constructor <;> bv_omega

theorem readWord_header_write_char (d : Device) (start : S32) (word : U32) {devAddr : U32}
    (hheader : (devAddr - gISVDbgPrnAdrs).toNat + 4 ≤ 0x20) :
    readWord (writeWord d (charAdrs start) word) devAddr = readWord d devAddr := by
  obtain ⟨habove, hbelow⟩ := charAdrs_far start hheader
  exact readWord_writeWord_of_far d (charAdrs start) word habove hbelow

/-! ## Walking the ring -/

theorem toInt_eq_toNat_of_lt_ringSize {x : S32} (hx : x.toNat < ringSize) :
    x.toInt = x.toNat := by
  have hx' : x.toNat < 0xFFE0 := hx
  exact BitVec.toInt_eq_toNat_of_lt (by omega)

theorem toNat_advance {start : S32} (hstart : start.toNat < ringSize) :
    (advance start).toNat = (start.toNat + 1) % ringSize := by
  have hstart' : start.toNat < 0xFFE0 := hstart
  have hsucc : (start + 1).toNat = start.toNat + 1 := by
    rw [BitVec.toNat_add]
    simp only [BitVec.ofNat_eq_ofNat, BitVec.toNat_ofNat]
    omega
  have hint : (start + 1).toInt = start.toNat + 1 := by
    rw [BitVec.toInt_eq_toNat_of_lt (by omega), hsucc]
    omega
  simp only [advance, hint, ringSize]
  split_ifs with hwrap
  · rw [BitVec.toNat_sub, hsucc]
    simp only [BitVec.ofNat_eq_ofNat, BitVec.toNat_ofNat]
    omega
  · rw [hsucc]
    omega

theorem toNat_advance_lt {start : S32} (hstart : start.toNat < ringSize) :
    (advance start).toNat < ringSize := by
  rw [toNat_advance hstart]
  exact mod_ringSize_lt _

/-! ## The space check -/

/-- For indices inside the ring and an end that fits an `s32`, the check
refuses a chunk exactly when its `count` bytes and the unread bytes do not fit
the ring together. -/
theorem noRoom_iff {pos start : S32} {count : U32} (hpos : pos.toNat < ringSize)
    (hstart : start.toNat < ringSize)
    (hend : start.toNat + count.toNat ≤ 2 ^ 31 - 1) :
    noRoom pos start count = true ↔
      ringSize < distance ringSize pos.toNat start.toNat + count.toNat := by
  have hpos' : pos.toNat < 0xFFE0 := hpos
  have hstart' : start.toNat < 0xFFE0 := hstart
  have hsum : (start + count).toNat = start.toNat + count.toNat := by
    rw [BitVec.toNat_add]
    omega
  have hint : (start + count).toInt = start.toNat + count.toNat := by
    rw [BitVec.toInt_eq_toNat_of_lt (by omega), hsum]
    omega
  rw [distance_eq_ite hpos hstart]
  simp only [noRoom, hint, ringSize, toInt_eq_toNat_of_lt_ringSize hpos,
    toInt_eq_toNat_of_lt_ringSize hstart]
  by_cases hwrap : 0xFFE0 ≤ (start.toNat + count.toNat : ℤ)
  · have hsub : (start + count - 0xFFE0).toNat = start.toNat + count.toNat - 0xFFE0 := by
      rw [BitVec.toNat_sub, hsum]
      simp only [BitVec.ofNat_eq_ofNat, BitVec.toNat_ofNat]
      omega
    have hsubInt : (start + count - 0xFFE0).toInt = start.toNat + count.toNat - 0xFFE0 := by
      rw [BitVec.toInt_eq_toNat_of_lt (by omega), hsub]
      omega
    rw [if_pos hwrap, hsubInt, Bool.or_eq_true, decide_eq_true_iff, decide_eq_true_iff]
    split_ifs <;> omega
  · rw [if_neg hwrap, Bool.and_eq_true, decide_eq_true_iff, decide_eq_true_iff]
    split_ifs <;> omega

end N64San.IsViewer
