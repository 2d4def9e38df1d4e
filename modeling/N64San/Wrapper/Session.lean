import N64San.Wrapper.Cells

/-!
# Sessions: the device, its host, and their history

A `Session` is the device together with what has happened to it: the
transactions of the wrapper, the bytes the host has consumed and the bytes the
wrapper has accepted.  The history never influences the device.  This file also
gives the host's moves and what they preserve.
-/

namespace N64San.IsViewer

open BigEndian CircularBuffer Transaction

/-- The device and its history.  `chunk` and `written` belong to the callback
in progress: the text it was given, and whether it has written the device.
`accepted` is what the callbacks have taken on, not what they have copied: the
whole text of a chunk joins it at the callback's first write.  `accepted` and
`consumed` start anew when the device has been initialised. -/
structure Session where
  device : Device
  trace : List (Request × U32)
  consumed : List Byte
  chunk : List Byte
  written : Bool
  accepted : List Byte
  fills : ℕ

namespace Session

/-- A device at power-on. -/
def powerOn (device : Device) : Session :=
  { device, trace := [], consumed := [], chunk := [], written := false
    accepted := [], fills := 0 }

/-- All bytes that have passed through the ring or are still in it. -/
def total (s : Session) : List Byte :=
  s.consumed ++ unread s.device

/-- A write of `put` that leaves no cell free: the unread bytes and the bytes
of the chunk fill the ring exactly. -/
def fillsRing (s : Session) (devAddr : U32) : Prop :=
  devAddr = putAdrs ∧ pending s.device + s.chunk.length = ringSize

instance (s : Session) (devAddr : U32) : Decidable (s.fillsRing devAddr) :=
  inferInstanceAs (Decidable (_ ∧ _))

/-- History of one request.  A callback's chunk is accepted as a whole at its
first device write, before any of it can be read.  The magic word is the last one
that `isPrintfInit` writes. -/
def observe (s : Session) : Request → Session
  | .pfn chunk => { s with chunk := chunk.text, written := false }
  | .osCartRomInit => s
  | .osEPiReadIo _ => s
  | .osEPiWriteIo _ devAddr _ =>
      if devAddr = magicAdrs then
        { s with consumed := [], accepted := [], fills := 0 }
      else
        { s with
          accepted := if s.written then s.accepted else s.accepted ++ s.chunk
          written := true
          fills := if s.fillsRing devAddr then s.fills + 1 else s.fills }

def exec (request : Request) (s : Session) : U32 × Session :=
  let (reply, device) := IsViewer.exec request s.device
  (reply, { s.observe request with device, trace := s.trace ++ [(request, reply)] })

theorem exec_read (devAddr : U32) (s : Session) :
    exec (.osEPiReadIo devAddr) s = (readWord s.device devAddr,
      { s with trace := s.trace ++ [(.osEPiReadIo devAddr, readWord s.device devAddr)] }) :=
  rfl

theorem exec_write (purpose : Purpose) {devAddr : U32} (hne : devAddr ≠ magicAdrs)
    (data : U32) (s : Session) :
    exec (.osEPiWriteIo purpose devAddr data) s = (0,
      { s with
        device := writeWord s.device devAddr data
        trace := s.trace ++ [(.osEPiWriteIo purpose devAddr data, 0)]
        accepted := if s.written then s.accepted else s.accepted ++ s.chunk
        written := true
        fills := if s.fillsRing devAddr then s.fills + 1 else s.fills }) := by
  simp only [exec, observe, IsViewer.exec, if_neg hne]

/-- The history starts anew with the magic word. -/
theorem exec_write_magic (purpose : Purpose) (data : U32) (s : Session) :
    exec (.osEPiWriteIo purpose magicAdrs data) s = (0,
      { s with
        device := writeWord s.device magicAdrs data
        trace := s.trace ++ [(.osEPiWriteIo purpose magicAdrs data, 0)]
        consumed := [], accepted := [], fills := 0 }) := by
  simp only [exec, observe, IsViewer.exec, if_pos]

/-- The history does not influence the device. -/
theorem run_device {A : Type} (program : Pi A) (s : Session) :
    (program.run exec s).1 = (program.run IsViewer.exec s.device).1 ∧
      (program.run exec s).2.device = (program.run IsViewer.exec s.device).2 := by
  induction program generalizing s with
  | ret value => exact ⟨rfl, rfl⟩
  | request request next ih => exact ih _ _

end Session

/-! ## The host -/

/-- The host has read `n` bytes: `get` moves forward by `n` cells. -/
def hostAdvance (d : Device) (n : ℕ) : Device :=
  writeWord d getAdrs (BitVec.ofNat 32 ((getIndex d + n) % ringSize))

/-- A host step moves `get` forward inside the unread window. -/
def HostReads (s t : Session) : Prop :=
  ∃ n ≤ pending s.device,
    t = { s with
      device := hostAdvance s.device n
      consumed := s.consumed ++ (unread s.device).take n }

/-- A host that does as it likes, `put` and the magic word apart. -/
def HostMeddles (s t : Session) : Prop :=
  ∃ device, putWord device = putWord s.device ∧
    magicWord device = magicWord s.device ∧ t = { s with device }

/-- Setting `get` to any value is such a move. -/
theorem hostMeddles_write_get (s : Session) (get : U32) :
    HostMeddles s { s with device := writeWord s.device getAdrs get } :=
  ⟨_, putWord_write_get _ _, magicWord_write_get _ _, rfl⟩

/-- The wrapper beside a host that reads the ring.  The formatter's chunks are
assumed to end below `2 ^ 31`. -/
def viewerSetting : Setting Request U32 Session where
  exec := Session.exec
  env := HostReads
  permits request s :=
    ∀ chunk, request = .pfn chunk →
      putIndex s.device + chunk.str.length ≤ 2 ^ 31 - 1

/-- The wrapper beside a host that only leaves `put` and the magic word alone;
the formatter's chunks have any `count`. -/
def adversarySetting : Setting Request U32 Session where
  exec := Session.exec
  env := HostMeddles
  permits _ _ := True

/-- The wrapper at power-on: nothing is initialised, the device holds
anything. -/
def PoweredOn (c : (S32 × Bool) × Session) : Prop :=
  c.1 = (0, false) ∧ ∃ device, c.2 = Session.powerOn device

section HostAdvance

variable (d : Device) (n : ℕ)

@[simp]
theorem magicWord_hostAdvance : magicWord (hostAdvance d n) = magicWord d :=
  magicWord_write_get _ _

@[simp]
theorem putWord_hostAdvance : putWord (hostAdvance d n) = putWord d :=
  putWord_write_get _ _

@[simp]
theorem putIndex_hostAdvance : putIndex (hostAdvance d n) = putIndex d := by
  rw [putIndex, putIndex, putWord_hostAdvance]

@[simp]
theorem getIndex_hostAdvance :
    getIndex (hostAdvance d n) = (getIndex d + n) % ringSize := by
  have hlt : (getIndex d + n) % ringSize < 2 ^ 32 :=
    (mod_ringSize_lt _).trans (by decide)
  rw [getIndex, hostAdvance, getWord_write_get, BitVec.toNat_ofNat,
    Nat.mod_eq_of_lt hlt]

theorem getIndex_hostAdvance_lt : getIndex (hostAdvance d n) < ringSize := by
  rw [getIndex_hostAdvance]
  exact mod_ringSize_lt _

theorem window_hostAdvance (get len : ℕ) :
    window ringSize (dataByte (hostAdvance d n)) get len =
      window ringSize (dataByte d) get len :=
  window_write_header d _ (by decide) get len

/-- The host's write of `get` is far from every word of the ring. -/
theorem readWord_charAdrs_hostAdvance (start : S32) :
    readWord (hostAdvance d n) (charAdrs start) = readWord d (charAdrs start) := by
  have hheader : (getAdrs - gISVDbgPrnAdrs).toNat + 4 ≤ 0x20 := by decide
  obtain ⟨hbelow, habove⟩ := charAdrs_far start hheader
  exact readWord_writeWord_of_far d getAdrs _ habove hbelow

variable {d n}
variable (hget : getIndex d < ringSize) (hput : putIndex d < ringSize)
  (hn : n ≤ pending d)

include hget hput hn

theorem pending_hostAdvance : pending (hostAdvance d n) = pending d - n := by
  rw [pending, getIndex_hostAdvance, putIndex_hostAdvance]
  exact distance_advance_get hget hput hn

/-- What the host has read leaves the window at its front. -/
theorem unread_hostAdvance : unread (hostAdvance d n) = (unread d).drop n := by
  calc
    unread (hostAdvance d n) =
        window ringSize (dataByte d) ((getIndex d + n) % ringSize) (pending d - n) := by
      rw [unread, pending_hostAdvance hget hput hn, getIndex_hostAdvance, window_hostAdvance]
    _ = (unread d).drop n := (window_drop _ hn).symm

theorem consumed_append_unread_hostAdvance (consumed : List Byte) :
    consumed ++ (unread d).take n ++ unread (hostAdvance d n) =
      consumed ++ unread d := by
  rw [unread_hostAdvance hget hput hn, List.append_assoc, List.take_append_drop]

end HostAdvance

end N64San.IsViewer
