import N64San.Core.BigEndian
import N64San.Core.CircularBuffer
import N64San.Core.Transaction

/-!
# The IS-Viewer window

`ISVDbg` is mapped at `0xB3FF0000` of the cartridge bus.  Its header holds the
magic word and the two ring indices, its `data` array the ring itself.  The
game reaches it in single 32-bit transactions, `osEPiReadIo` and
`osEPiWriteIo`.
-/

namespace N64San.IsViewer

open BigEndian CircularBuffer Transaction

abbrev U32 := Word
abbrev S32 := Word
abbrev Device := Memory

def gISVDbgPrnAdrs : U32 := 0xB3FF0000
def magicAdrs : U32 := gISVDbgPrnAdrs + 0x00
def getAdrs : U32 := gISVDbgPrnAdrs + 0x04
def putAdrs : U32 := gISVDbgPrnAdrs + 0x14
def dataAdrs : U32 := gISVDbgPrnAdrs + 0x20

/-- `sizeof(ISVDbg.data)`, that is `0x10000 - 0x20`. -/
abbrev ringSize : ℕ := 0xFFE0

theorem mod_ringSize_lt (i : ℕ) : i % ringSize < ringSize :=
  Nat.mod_lt i (by decide)

/-- A piece of text the game's formatter hands to its callback: `count` bytes
at `str`. -/
structure Chunk where
  str : List Byte
  length_lt : str.length < 2 ^ 32
  deriving DecidableEq

namespace Chunk

def count (chunk : Chunk) : U32 :=
  BitVec.ofNat 32 chunk.str.length

/-- The bytes that `is_proutSyncPrintf` puts into the ring: it skips NULs. -/
def text (chunk : Chunk) : List Byte :=
  chunk.str.filter (· ≠ 0)

@[simp]
theorem toNat_count (chunk : Chunk) : chunk.count.toNat = chunk.str.length := by
  rw [count, BitVec.toNat_ofNat, Nat.mod_eq_of_lt chunk.length_lt]

theorem length_text_le (chunk : Chunk) : chunk.text.length ≤ chunk.str.length :=
  List.length_filter_le _ _

end Chunk

/-- The texts of the chunks, one after the other. -/
def texts (chunks : List Chunk) : List Byte :=
  chunks.flatMap Chunk.text

theorem texts_concat (chunks : List Chunk) (chunk : Chunk) :
    texts (chunks ++ [chunk]) = texts chunks ++ chunk.text := by
  rw [texts, List.flatMap_append, List.flatMap_singleton, texts]

theorem filter_cons_zero (str : List Byte) :
    ((0 : Byte) :: str).filter (· ≠ 0) = str.filter (· ≠ 0) :=
  List.filter_cons_of_neg (by simp)

theorem filter_cons_of_ne {c : Byte} (hc : c ≠ 0) (str : List Byte) :
    (c :: str).filter (· ≠ 0) = c :: str.filter (· ≠ 0) :=
  List.filter_cons_of_pos (by simpa using hc)

/-- Which of the two kinds of write a statement makes: a whole header word, or
one character of the ring.  The device does not see the difference. -/
inductive Purpose
  | header
  | character
  deriving DecidableEq, Repr

/-- What the wrapper exchanges with the game's code.  Every transfer goes
through the one handle that `osCartRomInit` returns, so a transaction is its
address and its data.  `pfn` records that the game's formatter has called its
callback; it is not a transaction. -/
inductive Request
  | pfn (chunk : Chunk)
  | osCartRomInit
  | osEPiReadIo (devAddr : U32)
  | osEPiWriteIo (purpose : Purpose) (devAddr data : U32)
  deriving DecidableEq

abbrev Pi := Program Request U32

def osCartRomInit : Pi U32 := .perform .osCartRomInit

def osEPiReadIo (devAddr : U32) : Pi U32 := .perform (.osEPiReadIo devAddr)

def osEPiWriteIo (purpose : Purpose) (devAddr data : U32) : Pi U32 :=
  .perform (.osEPiWriteIo purpose devAddr data)

/-- The reply of the bus and the contents of the window afterwards. -/
def exec : Request → Device → U32 × Device
  | .pfn _, d => (0, d)
  | .osCartRomInit, d => (0, d)
  | .osEPiReadIo devAddr, d => (readWord d devAddr, d)
  | .osEPiWriteIo _ devAddr data, d => (0, writeWord d devAddr data)

/-! ## What a device state denotes -/

def magicWord (d : Device) : U32 := readWord d magicAdrs
def getWord (d : Device) : U32 := readWord d getAdrs
def putWord (d : Device) : U32 := readWord d putAdrs
def dataByte (d : Device) (i : ℕ) : Byte := d (dataAdrs + BitVec.ofNat 32 i)

def getIndex (d : Device) : ℕ := (getWord d).toNat
def putIndex (d : Device) : ℕ := (putWord d).toNat

/-- `(put - get) mod 0xFFE0`. -/
def pending (d : Device) : ℕ :=
  distance ringSize (getIndex d) (putIndex d)

/-- The bytes of the window that the pair `get`, `put` denotes. -/
def unread (d : Device) : List Byte :=
  window ringSize (dataByte d) (getIndex d) (pending d)

@[simp]
theorem length_unread (d : Device) : (unread d).length = pending d :=
  length_window _ _ _

/-! ## Header writes -/

@[simp]
theorem magicWord_write_get (d : Device) (w : U32) :
    magicWord (writeWord d getAdrs w) = magicWord d :=
  readWord_writeWord_of_far _ _ _ (by decide) (by decide)

@[simp]
theorem magicWord_write_put (d : Device) (w : U32) :
    magicWord (writeWord d putAdrs w) = magicWord d :=
  readWord_writeWord_of_far _ _ _ (by decide) (by decide)

@[simp]
theorem magicWord_write_magic (d : Device) (w : U32) :
    magicWord (writeWord d magicAdrs w) = w :=
  readWord_writeWord _ _ _

@[simp]
theorem getWord_write_get (d : Device) (w : U32) :
    getWord (writeWord d getAdrs w) = w :=
  readWord_writeWord _ _ _

@[simp]
theorem getWord_write_put (d : Device) (w : U32) :
    getWord (writeWord d putAdrs w) = getWord d :=
  readWord_writeWord_of_far _ _ _ (by decide) (by decide)

@[simp]
theorem getWord_write_magic (d : Device) (w : U32) :
    getWord (writeWord d magicAdrs w) = getWord d :=
  readWord_writeWord_of_far _ _ _ (by decide) (by decide)

@[simp]
theorem putWord_write_get (d : Device) (w : U32) :
    putWord (writeWord d getAdrs w) = putWord d :=
  readWord_writeWord_of_far _ _ _ (by decide) (by decide)

@[simp]
theorem putWord_write_put (d : Device) (w : U32) :
    putWord (writeWord d putAdrs w) = w :=
  readWord_writeWord _ _ _

@[simp]
theorem putWord_write_magic (d : Device) (w : U32) :
    putWord (writeWord d magicAdrs w) = putWord d :=
  readWord_writeWord_of_far _ _ _ (by decide) (by decide)

/-- A header write leaves the ring's cells alone. -/
theorem dataByte_write_header (d : Device) {devAddr : U32} (w : U32)
    (hheader : (devAddr - gISVDbgPrnAdrs).toNat + 4 ≤ 0x20) {i : ℕ}
    (hi : i < ringSize) :
    dataByte (writeWord d devAddr w) i = dataByte d i := by
  have hi' : i < 0xFFE0 := hi
  apply writeWord_apply_of_far
  unfold dataAdrs
  unfold gISVDbgPrnAdrs at *
  bv_omega

theorem window_write_header (d : Device) {devAddr : U32} (w : U32)
    (hheader : (devAddr - gISVDbgPrnAdrs).toNat + 4 ≤ 0x20) (get len : ℕ) :
    window ringSize (dataByte (writeWord d devAddr w)) get len =
      window ringSize (dataByte d) get len := by
  apply window_congr
  intro i _
  exact dataByte_write_header d w hheader (mod_ringSize_lt _)

/-! ## Character writes -/

section Character

variable (d : Device) (byte : Byte) {start : ℕ} (hstart : start < ringSize)

/-- The device with one cell of the ring replaced. -/
def setData (d : Device) (start : ℕ) (byte : Byte) : Device :=
  Function.update d (dataAdrs + BitVec.ofNat 32 start) byte

include hstart

theorem setData_header {devAddr : U32}
    (hheader : (devAddr - gISVDbgPrnAdrs).toNat + 4 ≤ 0x20) :
    readWord (setData d start byte) devAddr = readWord d devAddr := by
  have hstart' : start < 0xFFE0 := hstart
  apply readWord_congr
  intro lane hlane
  apply Function.update_of_ne
  unfold dataAdrs
  unfold gISVDbgPrnAdrs at *
  bv_omega

@[simp]
theorem magicWord_setData : magicWord (setData d start byte) = magicWord d :=
  setData_header d byte hstart (by decide)

@[simp]
theorem getWord_setData : getWord (setData d start byte) = getWord d :=
  setData_header d byte hstart (by decide)

@[simp]
theorem putWord_setData : putWord (setData d start byte) = putWord d :=
  setData_header d byte hstart (by decide)

theorem dataByte_setData {i : ℕ} (hi : i < ringSize) :
    dataByte (setData d start byte) i =
      Function.update (dataByte d) start byte i := by
  unfold dataByte setData
  rw [Function.update_apply, Function.update_apply]
  congr 1
  apply propext
  constructor
  · intro h
    have hi' : i < 0xFFE0 := hi
    have hstart' : start < 0xFFE0 := hstart
    bv_omega
  · rintro rfl
    rfl

theorem window_setData (get len : ℕ) :
    window ringSize (dataByte (setData d start byte)) get len =
      window ringSize (Function.update (dataByte d) start byte) get len := by
  apply window_congr
  intro i _
  exact dataByte_setData d byte hstart (mod_ringSize_lt _)

end Character

end N64San.IsViewer
