import N64San.Wrapper.Session

/-!
# One callback beside a reading host

`is_proutSyncPrintf` under interference: between any two of its transactions
the host may consume unread bytes.  The call polls the header, copies into free
cells only, and writes `put` last; so the unread window stays intact until the
whole chunk becomes visible at once.
-/

namespace N64San.IsViewer

open BigEndian CircularBuffer Transaction

abbrev Event := Request × U32

def Request.isWrite : Request → Bool
  | .osEPiWriteIo _ _ _ => true
  | _ => false

/-- The write of `put`. -/
def Request.isPublish : Request → Bool
  | .osEPiWriteIo _ devAddr _ => devAddr = putAdrs
  | _ => false

/-- The call read a wrong magic word, or indices between which the chunk does
not fit. -/
def Dropped (chunk : Chunk) (events : List Event) : Prop :=
  (∃ data, (.osEPiReadIo magicAdrs, data) ∈ events ∧ data ≠ is64) ∨
    ∃ pos start, (.osEPiReadIo getAdrs, pos) ∈ events ∧
      (.osEPiReadIo putAdrs, start) ∈ events ∧
      ringSize < distance ringSize pos.toNat start.toNat + chunk.str.length

/-! ## What the host preserves -/

structure HostFrame (s t : Session) : Prop where
  trace : t.trace = s.trace
  text : t.chunk = s.chunk
  written : t.written = s.written
  accepted : t.accepted = s.accepted
  fills : t.fills = s.fills
  magic : magicWord t.device = magicWord s.device
  put : putWord t.device = putWord s.device
  get_lt : getIndex t.device < ringSize
  consumed : s.consumed <+: t.consumed
  total : t.total = s.total
  pending_le : pending t.device ≤ pending s.device
  window : ∀ get len, window ringSize (dataByte t.device) get len =
    window ringSize (dataByte s.device) get len
  word : ∀ start, readWord t.device (charAdrs start) = readWord s.device (charAdrs start)

theorem HostFrame.putIndex_eq {s t : Session} (h : HostFrame s t) :
    putIndex t.device = putIndex s.device := by
  rw [putIndex, h.put, putIndex]

theorem HostReads.frame {s t : Session} (h : HostReads s t)
    (hget : getIndex s.device < ringSize) (hput : putIndex s.device < ringSize) :
    HostFrame s t := by
  obtain ⟨n, hn, rfl⟩ := h
  exact {
    trace := rfl
    text := rfl
    written := rfl
    accepted := rfl
    fills := rfl
    magic := magicWord_hostAdvance _ _
    put := putWord_hostAdvance _ _
    get_lt := getIndex_hostAdvance_lt _ _
    consumed := List.prefix_append _ _
    total := consumed_append_unread_hostAdvance hget hput hn _
    pending_le := by
      rw [pending_hostAdvance hget hput hn]
      exact Nat.sub_le _ _
    window := window_hostAdvance _ _
    word := readWord_charAdrs_hostAdvance _ _ }

/-! ## Before the write of `put` -/

/-- The call that started in `s₀` has not written `put` yet.  Its chunk counts
as accepted from its first write on. -/
structure Carried (s₀ s : Session) : Prop where
  magic : magicWord s.device = magicWord s₀.device
  put : putWord s.device = putWord s₀.device
  get_lt : getIndex s.device < ringSize
  pending_le : pending s.device ≤ pending s₀.device
  consumed : s₀.consumed <+: s.consumed
  total : s.total = s₀.total
  text : s.chunk = s₀.chunk
  fills : s.fills = s₀.fills
  accepted : s.accepted =
    if s.written then s₀.accepted ++ s₀.chunk else s₀.accepted

/-- The call has only polled the header; `events` are its transactions. -/
structure Polling (s₀ : Session) (events : List Event) (s : Session) : Prop
    extends Carried s₀ s where
  written : s.written = false
  trace : s.trace = s₀.trace ++ events

/-- The call has copied `copied` into the cells behind `put` and is to copy
`rest`. -/
structure Copying (s₀ : Session) (chunk : Chunk) (copied rest : List Byte)
    (s : Session) : Prop extends Carried s₀ s where
  cells : window ringSize (dataByte s.device) (putIndex s₀.device) copied.length = copied
  room : pending s.device + (copied.length + rest.length) ≤ ringSize
  events : ∃ events, s.trace = s₀.trace ++ events ∧ ¬ Dropped chunk events ∧
    ∀ event ∈ events, event.1.isPublish = false

theorem Carried.putIndex_eq {s₀ s : Session} (h : Carried s₀ s) :
    putIndex s.device = putIndex s₀.device := by
  rw [putIndex, h.put, putIndex]

section Stability

variable {s₀ s t : Session} (hput : putIndex s₀.device < ringSize)

include hput

/-- The unread bytes end where the call found `put`. -/
theorem Carried.walk (h : Carried s₀ s) :
    (getIndex s.device + pending s.device) % ringSize = putIndex s₀.device := by
  rw [pending, h.putIndex_eq]
  exact add_distance_mod h.get_lt hput

theorem Carried.frame (h : Carried s₀ s) (hst : HostReads s t) : HostFrame s t :=
  hst.frame h.get_lt (h.putIndex_eq.trans_lt hput)

theorem Carried.host (h : Carried s₀ s) (hst : HostReads s t) : Carried s₀ t := by
  have hframe := h.frame hput hst
  exact {
    magic := hframe.magic.trans h.magic
    put := hframe.put.trans h.put
    get_lt := hframe.get_lt
    pending_le := hframe.pending_le.trans h.pending_le
    consumed := h.consumed.trans hframe.consumed
    total := hframe.total.trans h.total
    text := hframe.text.trans h.text
    fills := hframe.fills.trans h.fills
    accepted := by rw [hframe.accepted, hframe.written, h.accepted] }

theorem Polling.stable (events : List Event) :
    Stable viewerSetting (Polling s₀ events) := by
  intro s t hst h
  have hframe := h.toCarried.frame hput hst
  exact {
    h.toCarried.host hput hst with
    written := hframe.written.trans h.written
    trace := hframe.trace.trans h.trace }

theorem Copying.stable (chunk : Chunk) (copied rest : List Byte) :
    Stable viewerSetting (Copying s₀ chunk copied rest) := by
  intro s t hst h
  have hframe := h.toCarried.frame hput hst
  exact {
    h.toCarried.host hput hst with
    cells := (hframe.window _ _).trans h.cells
    room := (Nat.add_le_add_right hframe.pending_le _).trans h.room
    events := by
      rw [hframe.trace]
      exact h.events }

/-- The word a character is about to be merged into does not change. -/
theorem Copying.stable_word (chunk : Chunk) (copied rest : List Byte)
    (start : S32) (word : U32) :
    Stable viewerSetting fun s =>
      Copying s₀ chunk copied rest s ∧ readWord s.device (charAdrs start) = word := by
  rintro s t hst ⟨h, hword⟩
  have hframe := h.toCarried.frame hput hst
  exact ⟨Copying.stable hput chunk copied rest s t hst h,
    (hframe.word start).trans hword⟩

end Stability

/-! ## After the call -/

/-- There is a reason to drop the chunk: no IS-Viewer, or too few free cells. -/
def DropReason (s₀ : Session) (chunk : Chunk) : Prop :=
  magicWord s₀.device ≠ is64 ∨ ringSize < pending s₀.device + chunk.str.length

/-- What a call has done to the ring: nothing, for a reason; appended its text;
or filled the last free cell, after which the window denotes the empty one and
only what the host has read is left. -/
inductive Outcome (s₀ s : Session) (chunk : Chunk) : Prop
  | kept (put : putIndex s.device = putIndex s₀.device)
      (total : s.total = s₀.total) (accepted : s.accepted = s₀.accepted)
      (fills : s.fills = s₀.fills) (reason : DropReason s₀ chunk)
  | appended
      (put : putIndex s.device = (putIndex s₀.device + chunk.text.length) % ringSize)
      (total : s.total = s₀.total ++ chunk.text)
      (accepted : s.accepted = s₀.accepted ++ chunk.text) (fills : s.fills = s₀.fills)
  | overrun
      (put : putIndex s.device = (putIndex s₀.device + chunk.text.length) % ringSize)
      (left : s.total <+: s₀.total)
      (total : s.total.length + ringSize = s₀.total.length + chunk.text.length)
      (accepted : s.accepted = s₀.accepted ++ chunk.text)
      (fills : s.fills = s₀.fills + 1)

structure Returned (s₀ : Session) (chunk : Chunk) (s : Session) : Prop where
  magic : magicWord s.device = magicWord s₀.device
  get_lt : getIndex s.device < ringSize
  put_lt : putIndex s.device < ringSize
  consumed : s₀.consumed <+: s.consumed
  outcome : Outcome s₀ s chunk

/-- What an observer of the ring can say at any point of the call. -/
def Unseen (s₀ : Session) (chunk : Chunk) (s : Session) : Prop :=
  ∃ events, s.trace = s₀.trace ++ events ∧
    ((∀ event ∈ events, event.1.isPublish = false) → s.total = s₀.total) ∧
    (Dropped chunk events → ∀ event ∈ events, event.1.isWrite = false)

theorem Outcome.host {s₀ s t : Session} {chunk : Chunk}
    (h : Outcome s₀ s chunk) (hframe : HostFrame s t) : Outcome s₀ t chunk := by
  have hput := hframe.putIndex_eq
  cases h with
  | kept put total accepted fills reason =>
      exact .kept (hput.trans put) (hframe.total.trans total)
        (hframe.accepted.trans accepted) (hframe.fills.trans fills) reason
  | appended put total accepted fills =>
      exact .appended (hput.trans put) (hframe.total.trans total)
        (hframe.accepted.trans accepted) (hframe.fills.trans fills)
  | overrun put left total accepted fills =>
      exact .overrun (hput.trans put) (by rwa [hframe.total]) (by rw [hframe.total, total])
        (hframe.accepted.trans accepted) (hframe.fills.trans fills)

/-- The postcondition of a call, with its events, is stable. -/
theorem returned_stable (s₀ : Session) (chunk : Chunk) :
    Stable viewerSetting fun s => Returned s₀ chunk s ∧ Unseen s₀ chunk s := by
  rintro s t hst ⟨h, hunseen⟩
  have hframe : HostFrame s t := hst.frame h.get_lt h.put_lt
  refine ⟨?_, ?_⟩
  · exact {
      magic := hframe.magic.trans h.magic
      get_lt := hframe.get_lt
      put_lt := hframe.putIndex_eq.trans_lt h.put_lt
      consumed := h.consumed.trans hframe.consumed
      outcome := h.outcome.host hframe }
  · rw [Unseen, hframe.trace, hframe.total]
    exact hunseen

/-! ## One transaction at a time -/

theorem Polling.unseen {s₀ s : Session} {events : List Event} (chunk : Chunk)
    (h : Polling s₀ events s) (hreads : ∀ event ∈ events, event.1.isWrite = false) :
    Unseen s₀ chunk s :=
  ⟨events, h.trace, fun _ => h.total, fun _ => hreads⟩

theorem Copying.unseen {s₀ s : Session} {chunk : Chunk} {copied rest : List Byte}
    (h : Copying s₀ chunk copied rest s) : Unseen s₀ chunk s := by
  obtain ⟨events, htrace, hdropped, _⟩ := h.events
  exact ⟨events, htrace, fun _ => h.total, fun hdrop => absurd hdrop hdropped⟩

/-- A poll of the header only makes the trace longer. -/
theorem Polling.read {s₀ s : Session} {events : List Event} (devAddr : U32)
    (h : Polling s₀ events s) :
    Polling s₀ (events ++ [(.osEPiReadIo devAddr, readWord s.device devAddr)])
      (Session.exec (.osEPiReadIo devAddr) s).2 := by
  rw [Session.exec_read]
  exact {
    magic := h.magic
    put := h.put
    get_lt := h.get_lt
    pending_le := h.pending_le
    consumed := h.consumed
    total := h.total
    text := h.text
    fills := h.fills
    accepted := h.accepted
    written := h.written
    trace := by rw [h.trace, List.append_assoc] }

/-- A call that returns while it has only polled has kept everything. -/
theorem Polling.returned {s₀ s : Session} {events : List Event} {chunk : Chunk}
    (hput : putIndex s₀.device < ringSize) (hreason : DropReason s₀ chunk)
    (h : Polling s₀ events s) : Returned s₀ chunk s := by
  have hputIndex := h.toCarried.putIndex_eq
  exact {
    magic := h.magic
    get_lt := h.get_lt
    put_lt := hputIndex.trans_lt hput
    consumed := h.consumed
    outcome := .kept hputIndex h.total (by simp [h.accepted, h.written]) h.fills hreason }

theorem header_ne_charAdrs (start : S32) :
    charAdrs start ≠ magicAdrs ∧ charAdrs start ≠ getAdrs ∧
      charAdrs start ≠ putAdrs := by
  have hne : ∀ devAddr : U32, (devAddr - gISVDbgPrnAdrs).toNat + 4 ≤ 0x20 →
      charAdrs start ≠ devAddr := by
    rintro _ hheader rfl
    have hfar := (charAdrs_far start hheader).1
    rw [BitVec.sub_self, BitVec.toNat_zero] at hfar
    omega
  exact ⟨hne magicAdrs (by decide), hne getAdrs (by decide), hne putAdrs (by decide)⟩

/-- Transactions other than header polls do not decide whether a chunk is
dropped. -/
theorem Dropped.of_concat {chunk : Chunk} {events : List Event} {event : Event}
    (hmagic : event.1 ≠ .osEPiReadIo magicAdrs)
    (hget : event.1 ≠ .osEPiReadIo getAdrs) (hput : event.1 ≠ .osEPiReadIo putAdrs)
    (h : Dropped chunk (events ++ [event])) : Dropped chunk events := by
  have hold : ∀ {devAddr data : U32}, event.1 ≠ .osEPiReadIo devAddr →
      (.osEPiReadIo devAddr, data) ∈ events ++ [event] →
      (.osEPiReadIo devAddr, data) ∈ events := by
    intro devAddr data hne hmem
    rcases List.mem_append.mp hmem with hmem | hmem
    · exact hmem
    · rw [List.mem_singleton] at hmem
      exact absurd (by rw [← hmem]) hne
  rcases h with ⟨data, hmem, hne⟩ | ⟨pos, start, hpos, hstart, hroom⟩
  · exact Or.inl ⟨data, hold hmagic hmem, hne⟩
  · exact Or.inr ⟨pos, start, hold hget hpos, hold hput hstart, hroom⟩

/-- Reading a word of the ring. -/
theorem Copying.read {s₀ s : Session} {chunk : Chunk} {copied rest : List Byte}
    (start : S32) (h : Copying s₀ chunk copied rest s) :
    Copying s₀ chunk copied rest
      (Session.exec (.osEPiReadIo (charAdrs start)) s).2 := by
  obtain ⟨events, htrace, hdropped, hquiet⟩ := h.events
  obtain ⟨hmagic, hget, hput⟩ := header_ne_charAdrs start
  rw [Session.exec_read]
  refine {
    magic := h.magic
    put := h.put
    get_lt := h.get_lt
    pending_le := h.pending_le
    consumed := h.consumed
    total := h.total
    text := h.text
    fills := h.fills
    accepted := h.accepted
    cells := h.cells
    room := h.room
    events := ⟨events ++ [_], by rw [htrace, List.append_assoc], ?_, ?_⟩ }
  · exact fun hdrop => hdropped
      (hdrop.of_concat (by simpa using hmagic) (by simpa using hget) (by simpa using hput))
  · intro event hevent
    rcases List.mem_append.mp hevent with hevent | hevent
    · exact hquiet event hevent
    · rw [List.mem_singleton] at hevent
      rw [hevent]
      rfl

/-- The free cell behind the copied bytes, seen from `get`. -/
theorem Copying.cell_eq {s₀ s : Session} {chunk : Chunk} {copied rest : List Byte}
    (hput : putIndex s₀.device < ringSize) (h : Copying s₀ chunk copied rest s)
    (k : ℕ) :
    (getIndex s.device + (pending s.device + k)) % ringSize =
      (putIndex s₀.device + k) % ringSize := by
  calc
    (getIndex s.device + (pending s.device + k)) % ringSize =
        ((getIndex s.device + pending s.device) % ringSize + k) % ringSize := by
      rw [Nat.mod_add_mod, Nat.add_assoc]
    _ = (putIndex s₀.device + k) % ringSize := by rw [h.toCarried.walk hput]

/-- A character written `copied.length` cells behind `put` stays clear of the
unread window. -/
theorem Copying.unread_setData {s₀ s : Session} {chunk : Chunk}
    {copied rest : List Byte} {c : Byte} {start : ℕ}
    (hput : putIndex s₀.device < ringSize)
    (hstart : start = (putIndex s₀.device + copied.length) % ringSize)
    (h : Copying s₀ chunk copied (c :: rest) s) :
    pending (setData s.device start c) = pending s.device ∧
      unread (setData s.device start c) = unread s.device := by
  have hlt : start < ringSize := hstart ▸ mod_ringSize_lt _
  have hroom : pending s.device + copied.length < ringSize := by
    have hroom := h.room
    rw [List.length_cons] at hroom
    omega
  have hpending : pending (setData s.device start c) = pending s.device := by
    rw [pending, getIndex, putIndex, getWord_setData _ _ hlt, putWord_setData _ _ hlt]
    rfl
  refine ⟨hpending, ?_⟩
  rw [unread, hpending, window_setData _ _ hlt, getIndex, getWord_setData _ _ hlt,
    hstart, ← h.cell_eq hput copied.length]
  exact window_update_of_free _ _ (Nat.le_add_right _ _) hroom

/-- The character is appended to the copied cells. -/
theorem Copying.cells_setData {s₀ s : Session} {chunk : Chunk}
    {copied rest : List Byte} {c : Byte} {start : ℕ}
    (hstart : start = (putIndex s₀.device + copied.length) % ringSize)
    (h : Copying s₀ chunk copied (c :: rest) s) :
    window ringSize (dataByte (setData s.device start c)) (putIndex s₀.device)
      (copied ++ [c]).length = copied ++ [c] := by
  have hlt : start < ringSize := hstart ▸ mod_ringSize_lt _
  have hlength : copied.length < ringSize := by
    have hroom := h.room
    rw [List.length_cons] at hroom
    omega
  rw [List.length_append, List.length_singleton, window_setData _ _ hlt, hstart,
    window_update_succ _ _ hlength, h.cells]

/-- A character write replaces one cell outside the unread window and nothing
else. -/
def WritesFreeCell : Request → Session → Prop
  | .osEPiWriteIo .character devAddr data, s => ∃ cell < ringSize, ∃ byte,
      (∀ i < pending s.device, cell ≠ (getIndex s.device + i) % ringSize) ∧
        writeWord s.device devAddr data = setData s.device cell byte
  | _, _ => True

theorem Copying.writesFreeCell {s₀ s : Session} {chunk : Chunk}
    {copied rest : List Byte} {c : Byte} {start : S32}
    (hput : putIndex s₀.device < ringSize)
    (hstart : start.toNat = (putIndex s₀.device + copied.length) % ringSize)
    (h : Copying s₀ chunk copied (c :: rest) s) :
    WritesFreeCell (.osEPiWriteIo .character (charAdrs start)
      (charWord start c (readWord s.device (charAdrs start)))) s := by
  have hlt : start.toNat < ringSize := hstart ▸ mod_ringSize_lt _
  have hroom : pending s.device + copied.length < ringSize := by
    have hroom := h.room
    rw [List.length_cons] at hroom
    omega
  refine ⟨start.toNat, hlt, c, fun i hi => ?_, write_charWord s.device hlt c⟩
  rw [hstart, ← h.cell_eq hput copied.length]
  exact (add_mod_ne (by omega) hroom).symm

/-- Writing the next character. -/
theorem Copying.write {s₀ s : Session} {chunk : Chunk} {copied rest : List Byte}
    {c : Byte} {start : S32} (hput : putIndex s₀.device < ringSize)
    (hstart : start.toNat = (putIndex s₀.device + copied.length) % ringSize)
    (h : Copying s₀ chunk copied (c :: rest) s) :
    Copying s₀ chunk (copied ++ [c]) rest
      (Session.exec (.osEPiWriteIo .character (charAdrs start)
        (charWord start c (readWord s.device (charAdrs start)))) s).2 := by
  obtain ⟨events, htrace, hdropped, hquiet⟩ := h.events
  obtain ⟨hmagic, _, hputAdrs⟩ := header_ne_charAdrs start
  have hlt : start.toNat < ringSize := hstart ▸ mod_ringSize_lt _
  have hfills : ¬ s.fillsRing (charAdrs start) := fun hfill => hputAdrs hfill.1
  obtain ⟨hpending, hunread⟩ := h.unread_setData hput hstart
  rw [Session.exec_write _ hmagic, write_charWord s.device hlt c, if_neg hfills]
  refine {
    magic := (magicWord_setData _ _ hlt).trans h.magic
    put := (putWord_setData _ _ hlt).trans h.put
    get_lt := by
      rw [getIndex, getWord_setData _ _ hlt]
      exact h.get_lt
    pending_le := hpending.le.trans h.pending_le
    consumed := h.consumed
    total := by
      rw [Session.total, hunread]
      exact h.total
    text := h.text
    fills := h.fills
    accepted := ?_
    cells := h.cells_setData hstart
    room := ?_
    events := ⟨events ++ [_], by rw [htrace, List.append_assoc], ?_, ?_⟩ }
  · rw [if_pos rfl, h.accepted, h.text]
    split_ifs <;> rfl
  · have hroom := h.room
    rw [List.length_cons] at hroom
    rw [hpending, List.length_append, List.length_singleton]
    omega
  · exact fun hdrop => hdropped (hdrop.of_concat (by simp) (by simp) (by simp))
  · intro event hevent
    rcases List.mem_append.mp hevent with hevent | hevent
    · exact hquiet event hevent
    · rw [List.mem_singleton] at hevent
      rw [hevent]
      exact decide_eq_false hputAdrs

/-- Writing `put` makes the copied bytes visible at once, unless they fill the
ring. -/
theorem Copying.publish {s₀ s : Session} {chunk : Chunk} {start : S32}
    (hput : putIndex s₀.device < ringSize) (htext : s₀.chunk = chunk.text)
    (hstart : start.toNat = (putIndex s₀.device + chunk.text.length) % ringSize)
    (h : Copying s₀ chunk chunk.text [] s) :
    Returned s₀ chunk (Session.exec (.osEPiWriteIo .header putAdrs start) s).2 := by
  have hne : putAdrs ≠ magicAdrs := by decide
  have hlt : start.toNat < ringSize := hstart ▸ mod_ringSize_lt _
  have hnewPut : putIndex (writeWord s.device putAdrs start) = start.toNat := by
    rw [putIndex, putWord_write_put]
  have hnewGet : getIndex (writeWord s.device putAdrs start) = getIndex s.device := by
    rw [getIndex, getWord_write_put, getIndex]
  have haccepted : (if s.written then s.accepted else s.accepted ++ s.chunk) =
      s₀.accepted ++ chunk.text := by
    rw [h.accepted, h.text, htext]
    split_ifs <;> rfl
  have hnewPending : pending (writeWord s.device putAdrs start) =
      (pending s.device + chunk.text.length) % ringSize := by
    rw [pending, hnewPut, hnewGet, hstart, distance_advance_put h.get_lt hput,
      pending, h.toCarried.putIndex_eq]
  rw [Session.exec_write _ hne]
  refine {
    magic := (magicWord_write_put _ _).trans h.magic
    get_lt := by
      rw [hnewGet]
      exact h.get_lt
    put_lt := by rwa [hnewPut]
    consumed := h.consumed
    outcome := ?_ }
  have hroom := h.room
  rw [List.length_nil, Nat.add_zero] at hroom
  by_cases hfull : pending s.device + chunk.text.length = ringSize
  · have hfills : s.fillsRing putAdrs := ⟨rfl, by rw [h.text, htext, hfull]⟩
    have hempty : unread (writeWord s.device putAdrs start) = [] := by
      apply List.eq_nil_of_length_eq_zero
      rw [length_unread, hnewPending, hfull, Nat.mod_self]
    refine .overrun (hnewPut.trans hstart) ?_ ?_ haccepted ?_
    · rw [Session.total, hempty, List.append_nil, ← h.total]
      exact List.prefix_append _ _
    · have hlength := congrArg List.length h.total
      simp only [Session.total, List.length_append, length_unread] at hlength ⊢
      rw [hnewPending, hfull, Nat.mod_self]
      omega
    · rw [if_pos hfills, h.fills]
  · have hfills : ¬ s.fillsRing putAdrs := fun hfill => hfull (by
      rw [← htext, ← h.text]
      exact hfill.2)
    refine .appended (hnewPut.trans hstart) ?_ haccepted ?_
    · have hwindow : unread (writeWord s.device putAdrs start) =
          unread s.device ++ chunk.text := by
        calc
          unread (writeWord s.device putAdrs start) =
              window ringSize (dataByte s.device) (getIndex s.device)
                (pending s.device + chunk.text.length) := by
            rw [unread, hnewPending, hnewGet, window_write_header _ _ (by decide),
              Nat.mod_eq_of_lt (by omega)]
          _ = unread s.device ++ window ringSize (dataByte s.device) (putIndex s₀.device)
                chunk.text.length := by
            rw [window_add, h.toCarried.walk hput, unread]
          _ = unread s.device ++ chunk.text := by rw [h.cells]
      rw [Session.total, hwindow, ← List.append_assoc]
      exact congrArg (· ++ chunk.text) h.total
    · rw [if_neg hfills, h.fills]

/-- Once `put` is written there is nothing left to promise about the window,
and the call has not been dropped. -/
theorem Copying.publish_unseen {s₀ s : Session} {chunk : Chunk}
    {copied rest : List Byte} (start : S32) (h : Copying s₀ chunk copied rest s) :
    Unseen s₀ chunk (Session.exec (.osEPiWriteIo .header putAdrs start) s).2 := by
  obtain ⟨events, htrace, hdropped, _⟩ := h.events
  have hne : putAdrs ≠ magicAdrs := by decide
  rw [Session.exec_write _ hne]
  refine ⟨events ++ [_], by rw [htrace, List.append_assoc], ?_, ?_⟩
  · intro hquiet
    have hpublish := hquiet (.osEPiWriteIo .header putAdrs start, 0) (by simp)
    simp [Request.isPublish] at hpublish
  · exact fun hdrop => absurd
      (hdrop.of_concat (by simp) (by simp) (by simp)) hdropped

end N64San.IsViewer
