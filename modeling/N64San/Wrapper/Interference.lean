import N64San.Wrapper.Callback
import N64San.Wrapper.Calls
import N64San.Wrapper.Sequential

/-!
# The callback is atomic for a reading host

The transactions of `Callback` put together along the program: first the copy
loop, by induction on the bytes that are left, then the header polls in front
of it.
-/

namespace N64San.IsViewer

open BigEndian CircularBuffer Transaction Relation

section Call

variable {s₀ : Session} {chunk : Chunk} (hput : putIndex s₀.device < ringSize)
  (htext : s₀.chunk = chunk.text)

/-- What a call promises: at every point the window is as unread as before,
every character goes into a free cell, and at its end the text has been
appended, dropped, or has filled the ring. -/
abbrev CallSafe (s₀ : Session) (chunk : Chunk) : Pi U32 → Session → Prop :=
  Safe viewerSetting WritesFreeCell (Unseen s₀ chunk) fun _ s =>
    Returned s₀ chunk s

include hput

/-- A return after polls that were no writes. -/
theorem callSafe_ret_of_polling {events : List Event} {s : Session}
    (hreason : DropReason s₀ chunk) (h : Polling s₀ events s)
    (hreads : ∀ event ∈ events, event.1.isWrite = false)
    (value : U32) : CallSafe s₀ chunk (.ret value) s :=
  Safe.ret (Polling.stable hput events) h (fun _ ht => ht.unseen chunk hreads)
    (fun _ ht => ht.returned hput hreason)

include htext

/-- The copy loop and the write of `put`, by induction on the bytes left. -/
theorem publish_safe (str copied : List Byte) {start : S32} {s : Session}
    (hsplit : chunk.text = copied ++ str.filter (· ≠ 0))
    (hstart : start.toNat = (putIndex s₀.device + copied.length) % ringSize)
    (h : Copying s₀ chunk copied (str.filter (· ≠ 0)) s) :
    CallSafe s₀ chunk (publish str start) s := by
  induction str generalizing copied start s with
  | nil =>
      rw [List.filter_nil, List.append_nil] at hsplit
      rw [List.filter_nil, ← hsplit] at h
      rw [← hsplit] at hstart
      refine Safe.request (Copying.stable hput chunk chunk.text []) h
        (fun _ ht => ht.unseen) (fun _ _ => trivial) fun t ht _ => ?_
      exact Safe.ret (returned_stable s₀ chunk)
        ⟨ht.publish hput htext hstart, ht.publish_unseen start⟩
        (fun _ hdone => hdone.2) (fun _ hdone => hdone.1)
  | cons c str ih =>
      by_cases hc : c = 0
      · subst hc
        rw [filter_cons_zero] at hsplit h
        rw [publish, copyLoop_zero]
        exact ih copied hsplit hstart h
      · rw [filter_cons_of_ne hc] at hsplit h
        rw [publish, copyLoop_cons hc]
        refine Safe.request (Copying.stable hput chunk copied _) h
          (fun _ ht => ht.unseen) (fun _ _ => trivial) fun t ht _ => ?_
        refine Safe.request (Copying.stable_word hput chunk copied _ start
          (readWord t.device (charAdrs start))) ⟨ht.read start, rfl⟩
          (fun _ hu => hu.1.unseen) (fun u hu => ?_) fun u hu _ => ?_
        · have hfree := hu.1.writesFreeCell hput hstart
          rw [hu.2] at hfree
          exact hfree
        have hwrite := hu.1.write hput hstart
        rw [hu.2] at hwrite
        have hlt : start.toNat < ringSize := hstart ▸ mod_ringSize_lt _
        refine ih (copied ++ [c]) (by rw [hsplit, List.append_assoc]; rfl) ?_ hwrite
        rw [toNat_advance hlt, hstart, Nat.mod_add_mod, List.length_append,
          List.length_singleton, Nat.add_assoc]

omit htext in
/-- The window has not grown since `get` was polled. -/
theorem Polling.stable_behind (events : List Event) (len : ℕ) :
    Stable viewerSetting fun s => Polling s₀ events s ∧ pending s.device ≤ len := by
  rintro s t hst ⟨h, hlen⟩
  have hframe := h.toCarried.frame hput hst
  exact ⟨Polling.stable hput events s t hst h, hframe.pending_le.trans hlen⟩

/-- The header polls of a call that goes on to copy. -/
def pollEvents (pos start : S32) : List Event :=
  [(.osEPiReadIo magicAdrs, is64), (.osEPiReadIo getAdrs, pos),
    (.osEPiReadIo putAdrs, start)]

omit hput htext in
theorem not_dropped_pollEvents {pos start : S32}
    (hroom : distance ringSize pos.toNat start.toNat + chunk.str.length ≤ ringSize) :
    ¬ Dropped chunk (pollEvents pos start) := by
  have hmg : magicAdrs ≠ getAdrs := by decide
  have hmp : magicAdrs ≠ putAdrs := by decide
  have hgp : getAdrs ≠ putAdrs := by decide
  rintro (⟨data, hmem, hne⟩ | ⟨pos', start', hpos, hstart, hdrop⟩)
  · simp [pollEvents, hmg, hmp] at hmem
    exact hne hmem
  · simp [pollEvents, hmg.symm, hgp] at hpos
    simp [pollEvents, hmp.symm, hgp.symm] at hstart
    rw [hpos, hstart] at hdrop
    omega

/-- The call once it has polled the three header words. -/
theorem afterPut_safe {pos : S32} {s : Session} (hpos : pos.toNat < ringSize)
    (hend : putIndex s₀.device + chunk.str.length ≤ 2 ^ 31 - 1)
    (h : Polling s₀ (pollEvents pos (putWord s₀.device)) s)
    (hbehind : pending s.device ≤ distance ringSize pos.toNat (putIndex s₀.device))
    (hpending : distance ringSize pos.toNat (putIndex s₀.device) ≤ pending s₀.device) :
    CallSafe s₀ chunk
      (if noRoom pos (putWord s₀.device) chunk.count then .ret 1
        else publish chunk.str (putWord s₀.device)) s := by
  have hlast : (putWord s₀.device).toNat + chunk.count.toNat ≤ 2 ^ 31 - 1 := by
    rwa [Chunk.toNat_count]
  have hcheck := noRoom_iff hpos hput hlast
  rw [Chunk.toNat_count] at hcheck
  split_ifs with hnoRoom
  · have hfull := hcheck.mp hnoRoom
    exact callSafe_ret_of_polling hput
      (Or.inr (hfull.trans_le (Nat.add_le_add_right hpending _))) h
      (by simp [pollEvents, Request.isWrite]) 1
  · have hroom := not_lt.mp (mt hcheck.mpr hnoRoom)
    refine publish_safe hput htext chunk.str [] rfl ?_ ?_
    · exact (Nat.mod_eq_of_lt hput).symm
    · exact {
        h.toCarried with
        cells := rfl
        room := by
          have hlength := chunk.length_text_le
          rw [List.length_nil, Nat.zero_add]
          exact (Nat.add_le_add hbehind hlength).trans hroom
        events := ⟨_, h.trace, not_dropped_pollEvents hroom,
          by simp [pollEvents, Request.isPublish]⟩ }

/-- The whole call: poll the magic word, `get` and `put`, and copy if there is
room.  A stale `get` only makes the space check stricter. -/
theorem isProutSyncPrintf_safe (hget : getIndex s₀.device < ringSize)
    (hwritten : s₀.written = false)
    (hend : putIndex s₀.device + chunk.str.length ≤ 2 ^ 31 - 1) :
    CallSafe s₀ chunk (isProutSyncPrintf chunk) s₀ := by
  have hbegin : Polling s₀ [] s₀ := {
    magic := rfl
    put := rfl
    get_lt := hget
    pending_le := le_rfl
    consumed := List.prefix_rfl
    total := rfl
    text := rfl
    fills := rfl
    accepted := by simp [hwritten]
    written := hwritten
    trace := (List.append_nil _).symm }
  refine Safe.request (Polling.stable hput []) hbegin
    (fun _ ht => ht.unseen chunk (by simp)) (fun _ _ => trivial) fun t ht _ => ?_
  have hpolled := ht.read magicAdrs
  by_cases hmagic : readWord t.device magicAdrs = is64
  · change CallSafe s₀ chunk (afterMagic chunk (readWord t.device magicAdrs)) _
    rw [afterMagic_of_eq chunk hmagic]
    rw [hmagic] at hpolled
    refine Safe.request (Polling.stable hput _) hpolled
      (fun _ hu => hu.unseen chunk (by simp [Request.isWrite])) (fun _ _ => trivial)
      fun u hu _ => ?_
    have hpos : (getWord u.device).toNat < ringSize := hu.get_lt
    have hlen : pending u.device =
        distance ringSize (getWord u.device).toNat (putIndex s₀.device) := by
      rw [pending, getIndex, hu.toCarried.putIndex_eq]
    refine Safe.request (Polling.stable_behind hput _ _) ⟨hu.read getAdrs, hlen.le⟩
      (fun _ hv => hv.1.unseen chunk (by simp [Request.isWrite])) (fun _ _ => trivial)
      fun v hv _ => ?_
    have hstart : readWord v.device putAdrs = putWord s₀.device := hv.1.put
    have hlast := hv.1.read putAdrs
    rw [hstart] at hlast
    have hsafe := afterPut_safe hput htext hpos hend hlast hv.2
      (hlen ▸ hu.pending_le)
    rw [← hstart] at hsafe
    exact hsafe
  · change CallSafe s₀ chunk (afterMagic chunk (readWord t.device magicAdrs)) _
    have hreason : DropReason s₀ chunk :=
      Or.inl fun his => hmagic (ht.magic.trans his)
    rw [afterMagic_of_ne chunk hmagic]
    exact callSafe_ret_of_polling hput hreason hpolled (by simp [Request.isWrite]) 1

end Call

/-- A device on which a callback is about to start. -/
def Session.entering (d : Device) (chunk : Chunk) : Session :=
  { Session.powerOn d with chunk := chunk.text }

/-- At every point of a call before its write of `put`, the host finds exactly
the bytes it had not yet read when the call started; a dropped call writes
nothing; and no character is ever written into a cell that is still unread,
although the call goes by the `get` it read at its start. -/
theorem half_written_chunk_is_invisible (chunk : Chunk) (d : Device)
    (hget : getIndex d < ringSize) (hput : putIndex d < ringSize)
    (hend : putIndex d + chunk.str.length ≤ 2 ^ 31 - 1) {program : Pi U32}
    {s : Session}
    (hsteps : ReflTransGen (Step viewerSetting)
      (isProutSyncPrintf chunk, Session.entering d chunk) (program, s)) :
    ((∀ event ∈ s.trace, event.1.isPublish = false) →
        s.consumed ++ unread s.device = unread d) ∧
      (Dropped chunk s.trace → ∀ event ∈ s.trace, event.1.isWrite = false) ∧
      (∀ request next, program = .request request next → WritesFreeCell request s) := by
  have hstart : CallSafe (Session.entering d chunk) chunk (isProutSyncPrintf chunk)
      (Session.entering d chunk) :=
    isProutSyncPrintf_safe hput rfl hget rfl hend
  have hsafe := hstart.steps hsteps
  obtain ⟨events, htrace, hunread, hdropped⟩ := hsafe.holds
  have hevents : s.trace = events := htrace
  rw [← hevents] at hunread hdropped
  refine ⟨hunread, hdropped, ?_⟩
  rintro request next rfl
  cases request with
  | pfn chunk => trivial
  | osCartRomInit => exact hsafe.requested (by rintro _ ⟨⟩)
  | osEPiReadIo devAddr => exact hsafe.requested (by rintro _ ⟨⟩)
  | osEPiWriteIo purpose devAddr data => exact hsafe.requested (by rintro _ ⟨⟩)

/-- The call has polled the header of the wrapped ring and written its first
character. -/
def halfWritten : Pi U32 × Session :=
  runFor viewerSetting 5
    (isProutSyncPrintf chunkWithNul, Session.entering wrappedRing chunkWithNul)

/-- Then the host has read two of the three unread bytes. -/
def halfRead : Session :=
  { halfWritten.2 with
    device := hostAdvance halfWritten.2.device 2
    consumed := halfWritten.2.consumed ++ (unread halfWritten.2.device).take 2 }

/-- Then the call has read the word of its second character. -/
def beforeSecond : Pi U32 × Session :=
  runFor viewerSetting 1 (halfWritten.1, halfRead)

theorem viewer_permits {request : Request} (h : request.Quiet) (s : Session) :
    viewerSetting.permits request s :=
  fun chunk hchunk => absurd hchunk (h chunk)

theorem half_written_chunk_is_invisible_beforeSecond :
    beforeSecond.2.consumed ++ unread beforeSecond.2.device =
        [ascii 'x', ascii 'y', ascii 'z'] ∧
      WritesFreeCell (.osEPiWriteIo .character (charAdrs 2)
        (charWord 2 (ascii 'b') (readWord beforeSecond.2.device (charAdrs 2))))
        beforeSecond.2 := by
  have hpermits : ∀ (request : Request) (s : Session), request.Quiet →
      viewerSetting.permits request s := fun _ s h => viewer_permits h s
  obtain ⟨hfirst, hrest⟩ := steps_runFor hpermits 5
    (c := (isProutSyncPrintf chunkWithNul, Session.entering wrappedRing chunkWithNul))
    (isProutSyncPrintf_quiet chunkWithNul)
  have hread : Step viewerSetting halfWritten (halfWritten.1, halfRead) :=
    .env ⟨2, by decide, rfl⟩
  have hsecond := (steps_runFor hpermits 1 (c := (halfWritten.1, halfRead)) hrest).1
  obtain ⟨hunread, -, hfree⟩ := half_written_chunk_is_invisible chunkWithNul wrappedRing
    (by decide) (by decide) (by decide) ((hfirst.tail hread).trans hsecond)
  exact ⟨hunread (by decide), hfree _ _ rfl⟩

end N64San.IsViewer
