import Mathlib

/-!
# Big-endian byte memory

A 32-bit address space of bytes, read and written in big-endian words.  The
most significant byte of a word has the lowest address, so byte lane `0` is the
most significant one.
-/

namespace N64San.BigEndian

abbrev Byte := BitVec 8
abbrev Word := BitVec 32
abbrev Double := BitVec 64
abbrev Memory := Word → Byte

/-- The byte that a big-endian store of `word` puts at offset `lane`. -/
def byteOfWord (word : Word) (lane : ℕ) : Byte :=
  word.extractLsb' (8 * (3 - lane)) 8

def readWord (m : Memory) (address : Word) : Word :=
  m address ++ m (address + 1) ++ m (address + 2) ++ m (address + 3)

def writeWord (m : Memory) (address : Word) (word : Word) : Memory := fun x =>
  if (x - address).toNat < 4 then byteOfWord word (x - address).toNat else m x

/-- A double word is the word at its address followed by the next word. -/
def readDouble (m : Memory) (address : Word) : Double :=
  readWord m address ++ readWord m (address + 4)

/-- `word` with the byte of one lane replaced: shift the byte into its lane and
mask the old one out. -/
def setLane (word : Word) (lane : ℕ) (byte : Byte) : Word :=
  (byte.setWidth 32 <<< (8 * (3 - lane))) |||
    (word &&& ~~~(0xFF#32 <<< (8 * (3 - lane))))

/-! ## Bits of a lane -/

theorem getLsbD_byteOfWord (word : Word) (lane : ℕ) {i : ℕ} (hi : i < 8) :
    (byteOfWord word lane).getLsbD i = word.getLsbD (8 * (3 - lane) + i) := by
  simp [byteOfWord, hi]

theorem getLsbD_setLane (word : Word) (byte : Byte) (lane : ℕ) {k : ℕ}
    (hk : k < 32) :
    (setLane word lane byte).getLsbD k =
      if 8 * (3 - lane) ≤ k ∧ k < 8 * (3 - lane) + 8 then
        byte.getLsbD (k - 8 * (3 - lane))
      else word.getLsbD k := by
  have hmask : (0xFF#32).getLsbD (k - 8 * (3 - lane)) =
      decide (k - 8 * (3 - lane) < 8) := by
    have h255 : (0xFF#32) = BitVec.setWidth 32 (BitVec.allOnes 8) := by decide
    rw [h255, BitVec.getLsbD_setWidth, BitVec.getLsbD_allOnes]
    simp only [show k - 8 * (3 - lane) < 32 by omega, decide_true, Bool.true_and]
  simp only [setLane, BitVec.getLsbD_or, BitVec.getLsbD_and, BitVec.getLsbD_not,
    BitVec.getLsbD_shiftLeft, BitVec.getLsbD_setWidth, hmask, hk, decide_true,
    Bool.true_and, show k - 8 * (3 - lane) < 32 by omega]
  by_cases hlow : k < 8 * (3 - lane)
  · simp [hlow, show ¬ 8 * (3 - lane) ≤ k by omega]
  · by_cases hhigh : k - 8 * (3 - lane) < 8
    · simp [hlow, hhigh, show 8 * (3 - lane) ≤ k ∧ k < 8 * (3 - lane) + 8 by omega]
    · have hbyte : byte.getLsbD (k - 8 * (3 - lane)) = false :=
        BitVec.getLsbD_of_ge _ _ (by omega)
      simp [hlow, hhigh, hbyte, show ¬ (8 * (3 - lane) ≤ k ∧ k < 8 * (3 - lane) + 8) by omega]

theorem getLsbD_readWord (m : Memory) (address : Word) {lane i : ℕ}
    (hlane : lane < 4) (hi : i < 8) :
    (readWord m address).getLsbD (8 * (3 - lane) + i) =
      (m (address + BitVec.ofNat 32 lane)).getLsbD i := by
  have hread : readWord m address =
      m (address + BitVec.ofNat 32 0) ++ m (address + BitVec.ofNat 32 1) ++
        m (address + BitVec.ofNat 32 2) ++ m (address + BitVec.ofNat 32 3) := by
    simp [readWord]
  rw [hread]
  simp only [BitVec.getLsbD_append]
  interval_cases lane
  · rw [if_neg (by omega), if_neg (by omega), if_neg (by omega)]
    congr 1; omega
  · rw [if_neg (by omega), if_neg (by omega), if_pos (by omega)]
    congr 1; omega
  · rw [if_neg (by omega), if_pos (by omega)]
    congr 1; omega
  · rw [if_pos (by omega)]
    congr 1; omega

/-! ## Bytes of a word -/

theorem byteOfWord_setLane (word : Word) (byte : Byte) {lane other : ℕ}
    (hlane : lane < 4) (hother : other < 4) :
    byteOfWord (setLane word lane byte) other =
      if other = lane then byte else byteOfWord word other := by
  apply BitVec.eq_of_getLsbD_eq
  intro i hi
  rw [getLsbD_byteOfWord _ _ hi, getLsbD_setLane _ _ _ (by omega)]
  split_ifs with hin heq heq
  · subst heq
    congr 1; omega
  · omega
  · omega
  · exact (getLsbD_byteOfWord _ _ hi).symm

theorem byteOfWord_readWord (m : Memory) (address : Word) {lane : ℕ}
    (hlane : lane < 4) :
    byteOfWord (readWord m address) lane = m (address + BitVec.ofNat 32 lane) := by
  apply BitVec.eq_of_getLsbD_eq
  intro i hi
  rw [getLsbD_byteOfWord _ _ hi, getLsbD_readWord m address hlane hi]

/-- A word is determined by its four bytes. -/
theorem eq_of_byteOfWord_eq {left right : Word}
    (h : ∀ lane < 4, byteOfWord left lane = byteOfWord right lane) :
    left = right := by
  apply BitVec.eq_of_getLsbD_eq
  intro i hi
  have hbyte := congrArg (fun byte : Byte => byte.getLsbD (i % 8))
    (h (3 - i / 8) (by omega))
  simp only [getLsbD_byteOfWord _ _ (Nat.mod_lt i (by omega : 8 > 0))] at hbyte
  rwa [show 8 * (3 - (3 - i / 8)) + i % 8 = i by omega] at hbyte

/-! ## Reading back -/

theorem readWord_congr {m m' : Memory} {address address' : Word}
    (h : ∀ lane < 4, m (address + BitVec.ofNat 32 lane) =
      m' (address' + BitVec.ofNat 32 lane)) :
    readWord m address = readWord m' address' := by
  apply eq_of_byteOfWord_eq
  intro lane hlane
  rw [byteOfWord_readWord _ _ hlane, byteOfWord_readWord _ _ hlane, h lane hlane]

theorem writeWord_apply_lane (m : Memory) (address word : Word) {lane : ℕ}
    (hlane : lane < 4) :
    writeWord m address word (address + BitVec.ofNat 32 lane) =
      byteOfWord word lane := by
  have hoffset : (address + BitVec.ofNat 32 lane - address).toNat = lane := by
    rw [BitVec.add_comm, BitVec.add_sub_cancel, BitVec.toNat_ofNat]
    omega
  rw [writeWord, hoffset, if_pos hlane]

@[simp]
theorem readWord_writeWord (m : Memory) (address word : Word) :
    readWord (writeWord m address word) address = word := by
  apply eq_of_byteOfWord_eq
  intro lane hlane
  rw [byteOfWord_readWord _ _ hlane, writeWord_apply_lane _ _ _ hlane]

/-- A write leaves every byte outside its four untouched. -/
theorem writeWord_apply_of_far (m : Memory) (address word : Word) {x : Word}
    (hx : 4 ≤ (x - address).toNat) : writeWord m address word x = m x := by
  rw [writeWord, if_neg (by omega)]

/-- A write leaves every word at a distance of at least four untouched. -/
theorem readWord_writeWord_of_far (m : Memory) (address word : Word) {other : Word}
    (habove : 4 ≤ (other - address).toNat)
    (hbelow : 4 ≤ (address - other).toNat) :
    readWord (writeWord m address word) other = readWord m other := by
  apply readWord_congr
  intro lane hlane
  apply writeWord_apply_of_far
  bv_omega

/-- Replacing one lane of the word that is there changes exactly one byte. -/
theorem writeWord_setLane_readWord (m : Memory) (address : Word) (byte : Byte)
    {lane : ℕ} (hlane : lane < 4) :
    writeWord m address (setLane (readWord m address) lane byte) =
      Function.update m (address + BitVec.ofNat 32 lane) byte := by
  funext x
  by_cases hx : (x - address).toNat < 4
  · obtain ⟨other, hother, rfl⟩ : ∃ other < 4, x = address + BitVec.ofNat 32 other :=
      ⟨(x - address).toNat, hx, by
        rw [BitVec.ofNat_toNat, BitVec.setWidth_eq, BitVec.add_comm, BitVec.sub_add_cancel]⟩
    rw [writeWord_apply_lane _ _ _ hother, byteOfWord_setLane _ _ hlane hother,
      byteOfWord_readWord _ _ hother, Function.update_apply]
    have hiff : address + BitVec.ofNat 32 other = address + BitVec.ofNat 32 lane ↔
        other = lane := by
      constructor
      · intro h
        bv_omega
      · rintro rfl
        rfl
    simp only [hiff]
  · rw [writeWord_apply_of_far _ _ _ (by omega), Function.update_of_ne]
    rintro rfl
    bv_omega

/-! ## Halves of a double word -/

theorem high_append_low (x : Double) :
    x.extractLsb' 32 32 ++ x.setWidth 32 = x := by
  ext i hi
  rw [BitVec.getElem_append]
  split_ifs with hlow
  · simp [BitVec.getLsbD_eq_getElem hi]
  · simp [show 32 + (i - 32) = i by omega, BitVec.getLsbD_eq_getElem, hi]

/-- Every double word is a high word followed by a low word. -/
theorem exists_append (x : Double) : ∃ high low : Word, x = high ++ low :=
  ⟨_, _, (high_append_low x).symm⟩

/-! ## Sign extension -/

/-- A left shift and an arithmetic right shift by the same amount extend the
sign of the bits that stay. -/
theorem sshiftRight_shiftLeft (x : Double) {n w : ℕ} (hw : 0 < w) (hn : n + w = 64) :
    (x <<< n).sshiftRight n = (x.setWidth w).signExtend 64 := by
  ext i hi
  rw [BitVec.getElem_signExtend, BitVec.getElem_sshiftRight]
  by_cases hlow : i < w
  · simp [hlow, hi, BitVec.getLsbD_eq_getElem, show n + i < 64 by omega]
  · have hlast : w - 1 < 64 := by omega
    simp [hlow, BitVec.msb_eq_getLsbD_last, BitVec.getLsbD_eq_getElem hlast, hw,
      show ¬ n + i < 64 by omega, show ¬ 63 < n by omega, show 63 - n = w - 1 by omega]

end N64San.BigEndian
