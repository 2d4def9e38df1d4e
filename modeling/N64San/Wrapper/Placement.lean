import N64San.Wrapper.Sequential

/-!
# What a call writes, and where

The writes of an undisturbed call of `is_proutSyncPrintf`.  Either there are
none, or the call writes one cell of the ring after the other and then `put`.
The space check decides between the two: it drops a chunk exactly when its bytes
do not fit the cells that hold no unread byte.
-/

namespace N64San.IsViewer

open BigEndian CircularBuffer Transaction

/-- The address that a request writes. -/
def Request.target : Request → Option U32
  | .osEPiWriteIo _ devAddr _ => some devAddr
  | _ => none

/-- The addresses of the writes that a program makes, in order. -/
def writes {A : Type} (program : Program Request U32 A) (d : Device) : List U32 :=
  (program.trace exec d).filterMap fun event => event.1.target

/-- The call returns without a write. -/
def Drops (chunk : Chunk) (d : Device) : Prop :=
  writes (isProutSyncPrintf chunk) d = []

instance (chunk : Chunk) (d : Device) : Decidable (Drops chunk d) :=
  inferInstanceAs (Decidable (_ = _))

/-- The address of a cell of the ring. -/
def cellAdrs (i : ℕ) : U32 :=
  dataAdrs + BitVec.ofNat 32 i

/-- The addresses of `len` cells that start at cell `start`. -/
def cellRange (start len : ℕ) : Set U32 :=
  {x | ∃ i < len, x = cellAdrs ((start + i) % ringSize)}

theorem cellAdrs_ne {i j : ℕ} (hi : i < ringSize) (hj : j < ringSize) (hne : i ≠ j) :
    cellAdrs i ≠ cellAdrs j := by
  have hi' : i < 0xFFE0 := hi
  have hj' : j < 0xFFE0 := hj
  unfold cellAdrs
  bv_omega

/-- The cells behind the first one are those that start at the next one. -/
theorem cellRange_succ (start len : ℕ) :
    cellRange start (len + 1) =
      insert (cellAdrs (start % ringSize)) (cellRange ((start + 1) % ringSize) len) := by
  ext x
  constructor
  · rintro ⟨i, hi, rfl⟩
    cases i with
    | zero => exact Or.inl rfl
    | succ i =>
        refine Or.inr ⟨i, Nat.lt_of_succ_lt_succ hi, ?_⟩
        rw [Nat.mod_add_mod, Nat.add_right_comm, Nat.add_assoc]
  · rintro (rfl | ⟨i, hi, rfl⟩)
    · exact ⟨0, Nat.succ_pos len, rfl⟩
    · refine ⟨i + 1, Nat.succ_lt_succ hi, ?_⟩
      rw [Nat.mod_add_mod, Nat.add_right_comm, Nat.add_assoc]

/-- Cells further than the range are outside it. -/
theorem cellAdrs_notMem_cellRange {start i j len : ℕ} (hij : i < j)
    (hlen : j + len ≤ ringSize) :
    cellAdrs ((start + i) % ringSize) ∉ cellRange ((start + j) % ringSize) len := by
  rintro ⟨k, hk, hcell⟩
  rw [Nat.mod_add_mod, Nat.add_assoc] at hcell
  exact cellAdrs_ne (mod_ringSize_lt _) (mod_ringSize_lt _)
    (add_mod_ne (show i < j + k by omega) (by omega)) hcell

/-! ## The copy loop -/

theorem copyLoop_trace_cons {c : Byte} (hc : c ≠ 0) (str : List Byte) (d : Device)
    {start : S32} (hstart : start.toNat < ringSize) :
    (copyLoop (c :: str) start).trace exec d =
      (.osEPiReadIo (charAdrs start), d) ::
        (.osEPiWriteIo .character (charAdrs start)
            (charWord start c (readWord d (charAdrs start))),
          setData d start.toNat c) ::
        (copyLoop str (advance start)).trace exec (setData d start.toNat c) := by
  rw [copyLoop_cons hc, ← write_charWord d hstart c]
  rfl

/-- The loop writes the words of consecutive cells, one for each character. -/
theorem copyLoop_writes (str : List Byte) (d : Device) {start : S32}
    (hstart : start.toNat < ringSize) :
    writes (copyLoop str start) d =
      (List.range (str.filter (· ≠ 0)).length).map fun i =>
        charAdrs (BitVec.ofNat 32 ((start.toNat + i) % ringSize)) := by
  induction str generalizing d start with
  | nil => rfl
  | cons c str ih =>
      by_cases hc : c = 0
      · rw [hc, copyLoop_zero, filter_cons_zero]
        exact ih d hstart
      · have hcell : charAdrs (BitVec.ofNat 32 ((start.toNat + 0) % ringSize)) =
            charAdrs start := by
          rw [Nat.add_zero, Nat.mod_eq_of_lt hstart, BitVec.ofNat_toNat, BitVec.setWidth_eq]
        have hrest := ih (setData d start.toNat c) (toNat_advance_lt hstart)
        rw [filter_cons_of_ne hc, List.length_cons, List.range_succ_eq_map, List.map_cons,
          List.map_map, hcell, writes, copyLoop_trace_cons hc str d hstart]
        refine congrArg (List.cons (charAdrs start)) (hrest.trans ?_)
        apply List.map_congr_left
        intro i _
        rw [Function.comp_apply, toNat_advance hstart, Nat.mod_add_mod, Nat.add_right_comm,
          Nat.add_assoc]

/-- At no point of the loop has a byte changed that is not in a cell of a
character. -/
theorem copyLoop_frame (str : List Byte) (d : Device) {start : S32}
    (hstart : start.toNat < ringSize) :
    ∀ event ∈ (copyLoop str start).trace exec d,
      Set.EqOn event.2 d (cellRange start.toNat (str.filter (· ≠ 0)).length)ᶜ := by
  induction str generalizing d start with
  | nil => exact fun event hevent => absurd hevent List.not_mem_nil
  | cons c str ih =>
      by_cases hc : c = 0
      · rw [hc, copyLoop_zero, filter_cons_zero]
        exact ih d hstart
      · rw [copyLoop_trace_cons hc str d hstart, filter_cons_of_ne hc, List.length_cons,
          cellRange_succ, Nat.mod_eq_of_lt hstart, ← toNat_advance hstart]
        have hwrite : Set.EqOn (setData d start.toNat c) d {cellAdrs start.toNat}ᶜ :=
          fun x hx => Function.update_of_ne hx _ _
        rw [Set.insert_eq, Set.compl_union]
        intro event hevent
        rcases List.mem_cons.mp hevent with rfl | hevent
        · exact Set.eqOn_refl _ _
        · rcases List.mem_cons.mp hevent with rfl | hevent
          · exact hwrite.mono Set.inter_subset_left
          · have hrest := ih (setData d start.toNat c) (toNat_advance_lt hstart) event hevent
            exact (hrest.mono Set.inter_subset_right).trans
              (hwrite.mono Set.inter_subset_left)

/-- The text lies in the cells from `start` on, and no other byte has changed
since `d`. -/
structure Placed (text : List Byte) (start : ℕ) (d t : Device) : Prop where
  cells : ∀ i (hi : i < text.length), dataByte t ((start + i) % ringSize) = text[i]
  frame : Set.EqOn t d (cellRange start text.length)ᶜ

theorem Placed.cons {text : List Byte} {start : ℕ} {c : Byte} {d t : Device}
    (h : Placed text ((start + 1) % ringSize) (setData d start c) t)
    (hstart : start < ringSize) (hlength : text.length < ringSize) :
    Placed (c :: text) start d t where
  cells i hi := by
    cases i with
    | zero =>
        have hfirst : cellAdrs start ∉ cellRange ((start + 1) % ringSize) text.length := by
          have hbefore := @cellAdrs_notMem_cellRange start 0 1 text.length (by decide)
            (by omega)
          rwa [Nat.add_zero start, Nat.mod_eq_of_lt hstart] at hbefore
        rw [Nat.add_zero, Nat.mod_eq_of_lt hstart]
        exact (h.frame hfirst).trans (Function.update_self _ _ _)
    | succ i =>
        have hcell := h.cells i (Nat.lt_of_succ_lt_succ hi)
        rwa [Nat.mod_add_mod, Nat.add_right_comm, Nat.add_assoc] at hcell
  frame x hx := by
    rw [List.length_cons, cellRange_succ, Nat.mod_eq_of_lt hstart, Set.insert_eq,
      Set.compl_union] at hx
    exact (h.frame hx.2).trans (Function.update_of_ne hx.1 _ _)

theorem fill_placed (str : List Byte) (d : Device) {start : S32}
    (hstart : start.toNat < ringSize)
    (hlength : (str.filter (· ≠ 0)).length ≤ ringSize) :
    Placed (str.filter (· ≠ 0)) start.toNat d (fill d str start) := by
  induction str generalizing d start with
  | nil => exact ⟨fun i hi => absurd hi (Nat.not_lt_zero i), Set.eqOn_refl _ _⟩
  | cons c str ih =>
      by_cases hc : c = 0
      · rw [hc, filter_cons_zero] at hlength ⊢
        rw [fill_zero]
        exact ih d hstart hlength
      · rw [filter_cons_of_ne hc] at hlength ⊢
        rw [fill_cons d hc]
        have hrest := ih (setData d start.toNat c) (toNat_advance_lt hstart)
          (Nat.le_of_succ_le hlength)
        rw [toNat_advance hstart] at hrest
        exact hrest.cons hstart hlength

/-! ## The whole call -/

theorem publish_trace (str : List Byte) (d : Device) {start : S32}
    (hstart : start.toNat < ringSize) :
    (publish str start).trace exec d = (copyLoop str start).trace exec d ++
      [(.osEPiWriteIo .header putAdrs (lastCell str start), published d str start)] := by
  rw [publish, Program.trace_bind, copyLoop_run str d hstart]
  rfl

section Call

variable (chunk : Chunk) (d : Device)

/-- A call with the magic word in place polls the header and then gives up, or
publishes. -/
theorem isProutSyncPrintf_trace (hmagic : magicWord d = is64) :
    (isProutSyncPrintf chunk).trace exec d =
      (.osEPiReadIo magicAdrs, d) :: (.osEPiReadIo getAdrs, d) :: (.osEPiReadIo putAdrs, d) ::
        if noRoom (getWord d) (putWord d) chunk.count then []
        else (publish chunk.str (putWord d)).trace exec d := by
  have hpolled : (if noRoom (getWord d) (putWord d) chunk.count then .ret 1
      else publish chunk.str (putWord d) : Pi U32).trace exec d =
      if noRoom (getWord d) (putWord d) chunk.count then []
      else (publish chunk.str (putWord d)).trace exec d := by
    split_ifs <;> rfl
  calc
    (isProutSyncPrintf chunk).trace exec d =
        (.osEPiReadIo magicAdrs, d) :: (afterMagic chunk (magicWord d)).trace exec d := rfl
    _ = _ := by
      rw [afterMagic_of_eq chunk hmagic, ← hpolled]
      rfl

/-- Without the magic word a call gives up at once. -/
theorem isProutSyncPrintf_trace_of_ne (hmagic : magicWord d ≠ is64) :
    (isProutSyncPrintf chunk).trace exec d = [(.osEPiReadIo magicAdrs, d)] := by
  calc
    (isProutSyncPrintf chunk).trace exec d =
        (.osEPiReadIo magicAdrs, d) :: (afterMagic chunk (magicWord d)).trace exec d := rfl
    _ = _ := by rw [afterMagic_of_ne chunk hmagic, Program.trace]

variable (hput : putIndex d < ringSize)

include hput

theorem writes_isProutSyncPrintf (hmagic : magicWord d = is64) :
    writes (isProutSyncPrintf chunk) d =
      if noRoom (getWord d) (putWord d) chunk.count then []
      else writes (copyLoop chunk.str (putWord d)) d ++ [putAdrs] := by
  rw [writes, isProutSyncPrintf_trace chunk d hmagic]
  split_ifs
  · rfl
  · rw [publish_trace chunk.str d hput, writes]
    simp [Request.target]

theorem drops_iff :
    Drops chunk d ↔ magicWord d ≠ is64 ∨ noRoom (getWord d) (putWord d) chunk.count = true := by
  by_cases hmagic : magicWord d = is64
  · rw [Drops, writes_isProutSyncPrintf chunk d hput hmagic]
    split_ifs with hroom
    · exact iff_of_true rfl (Or.inr hroom)
    · refine iff_of_false (by simp) ?_
      rintro (hne | hroom')
      · exact hne hmagic
      · exact hroom hroom'
  · rw [Drops, writes, isProutSyncPrintf_trace_of_ne chunk d hmagic]
    exact iff_of_true rfl (Or.inl hmagic)

theorem accepted_iff :
    ¬ Drops chunk d ↔ magicWord d = is64 ∧
      noRoom (getWord d) (putWord d) chunk.count = false := by
  rw [drops_iff chunk d hput, not_or, not_not, Bool.not_eq_true]

end Call

/-! ## The space check -/

section SpaceCheck

variable {chunk : Chunk} {d : Device}

/-- What stays out of the free cells keeps the unread window. -/
theorem window_eq_unread {t : Device} {len : ℕ} (hget : getIndex d < ringSize)
    (hput : putIndex d < ringSize) (hlen : pending d + len ≤ ringSize)
    (h : Set.EqOn t d (cellRange (putIndex d) len)ᶜ) :
    window ringSize (dataByte t) (getIndex d) (pending d) = unread d := by
  apply window_congr
  intro i hi
  have hcell : cellAdrs ((getIndex d + i) % ringSize) ∉ cellRange (putIndex d) len := by
    have hfree := @cellAdrs_notMem_cellRange (getIndex d) i (pending d) len hi hlen
    rwa [pending, add_distance_mod hget hput] at hfree
  exact h hcell

/-- The write of `put` changes no cell. -/
theorem dataByte_published (str : List Byte) (start : S32) {i : ℕ} (hi : i < ringSize) :
    dataByte (published d str start) i = dataByte (fill d str start) i :=
  dataByte_write_header _ _ (by decide) hi

/-- At no point does a call that fits change an unread byte. -/
theorem isProutSyncPrintf_keeps_unread (hget : getIndex d < ringSize)
    (hput : putIndex d < ringSize) (hmagic : magicWord d = is64)
    (hfits : pending d + chunk.str.length ≤ ringSize) :
    ∀ event ∈ (isProutSyncPrintf chunk).trace exec d,
      window ringSize (dataByte event.2) (getIndex d) (pending d) = unread d := by
  have hlength : pending d + chunk.text.length ≤ ringSize := by
    have hle := chunk.length_text_le
    omega
  intro event hevent
  rw [isProutSyncPrintf_trace chunk d hmagic, noRoom_eq_false chunk d hget hput hfits,
    if_neg Bool.false_ne_true, publish_trace chunk.str d hput] at hevent
  simp only [List.mem_cons, List.mem_append, List.not_mem_nil, or_false] at hevent
  rcases hevent with rfl | rfl | rfl | hcopy | rfl
  · rfl
  · rfl
  · rfl
  · exact window_eq_unread hget hput hlength (copyLoop_frame chunk.str d hput event hcopy)
  · have hfill := (fill_placed chunk.str d hput (by
      change chunk.text.length ≤ ringSize
      omega)).frame
    calc
      window ringSize (dataByte (published d chunk.str (putWord d))) (getIndex d) (pending d) =
          window ringSize (dataByte (fill d chunk.str (putWord d))) (getIndex d)
            (pending d) := by
        apply window_congr
        intro i _
        exact dataByte_published chunk.str (putWord d) (mod_ringSize_lt _)
      _ = unread d := window_eq_unread hget hput hlength hfill

/-- The space check is exact.  A call drops its chunk if and only if the bytes
of the chunk do not fit the cells that hold no unread byte; any other call
leaves the window as it found it, at every point and when it returns. -/
theorem space_check_is_exact (hmagic : magicWord d = is64) (hget : getIndex d < ringSize)
    (hput : putIndex d < ringSize)
    (hend : putIndex d + chunk.str.length ≤ 2 ^ 31 - 1) :
    (Drops chunk d ↔ ringSize < pending d + chunk.str.length) ∧
      (¬ Drops chunk d →
        (∀ event ∈ (isProutSyncPrintf chunk).trace exec d,
          window ringSize (dataByte event.2) (getIndex d) (pending d) = unread d) ∧
        window ringSize (dataByte (afterCall chunk d)) (getIndex d) (pending d) =
          unread d) := by
  have hend' : (putWord d).toNat + chunk.count.toNat ≤ 2 ^ 31 - 1 := by
    rw [chunk.toNat_count]
    exact hend
  have hdrops : Drops chunk d ↔ ringSize < pending d + chunk.str.length := by
    rw [drops_iff chunk d hput, noRoom_iff hget hput hend', chunk.toNat_count]
    exact or_iff_right (not_not_intro hmagic)
  refine ⟨hdrops, fun haccepted => ?_⟩
  rw [hdrops, not_lt] at haccepted
  have hevents := isProutSyncPrintf_keeps_unread hget hput hmagic haccepted
  obtain ⟨request, hlast⟩ := Program.run_mem_trace exec (isProutSyncPrintf chunk) d
    (List.cons_ne_nil _ _)
  exact ⟨hevents, hevents _ hlast⟩

/-- A ring with two free cells, in front of `get`. -/
def nearlyFullRing : Device :=
  writeWord (writeWord emptyRing getAdrs 5) putAdrs 3

/-- Three bytes do not fit them; two do, and leave what is unread. -/
theorem space_check_is_exact_nearlyFull :
    Drops ⟨[0x61, 0xE9, 0x62], by decide⟩ nearlyFullRing ∧
      ¬ Drops ⟨[0x61, 0xE9], by decide⟩ nearlyFullRing ∧
      window ringSize (dataByte (afterCall ⟨[0x61, 0xE9], by decide⟩ nearlyFullRing)) 5
        0xFFDE = unread nearlyFullRing := by
  have hthree := @space_check_is_exact ⟨[0x61, 0xE9, 0x62], by decide⟩ nearlyFullRing
    (by decide) (by decide) (by decide) (by decide)
  have htwo := @space_check_is_exact ⟨[0x61, 0xE9], by decide⟩ nearlyFullRing
    (by decide) (by decide) (by decide) (by decide)
  have hfits : ¬ Drops ⟨[0x61, 0xE9], by decide⟩ nearlyFullRing := by
    rw [htwo.1]
    decide
  refine ⟨?_, hfits, (htwo.2 hfits).2⟩
  rw [hthree.1]
  decide

end SpaceCheck

/-! ## What calls append -/

/-- `t` is `d` with the text behind its unread bytes. -/
structure Appends (text : List Byte) (d t : Device) : Prop where
  magic : magicWord t = magicWord d
  get : getIndex t = getIndex d
  put : putIndex t = (putIndex d + text.length) % ringSize
  unread : unread t = unread d ++ text

theorem Appends.pending {text : List Byte} {d t : Device} (h : Appends text d t) :
    pending t = pending d + text.length := by
  rw [← length_unread, h.unread, List.length_append, length_unread]

theorem Appends.put_lt {text : List Byte} {d t : Device} (h : Appends text d t) :
    putIndex t < ringSize := by
  rw [h.put]
  exact mod_ringSize_lt _

theorem Appends.trans {first second : List Byte} {d t u : Device} (h : Appends first d t)
    (h' : Appends second t u) : Appends (first ++ second) d u where
  magic := h'.magic.trans h.magic
  get := h'.get.trans h.get
  put := by rw [h'.put, h.put, Nat.mod_add_mod, List.length_append, Nat.add_assoc]
  unread := by rw [h'.unread, h.unread, List.append_assoc]

section Appends

variable {d : Device} (hmagic : magicWord d = is64) (hget : getIndex d < ringSize)
  (hput : putIndex d < ringSize)

include hmagic hget hput

/-- A chunk that leaves a cell free is appended. -/
theorem afterCall_appends {chunk : Chunk} (hfits : pending d + chunk.str.length < ringSize) :
    Appends chunk.text d (afterCall chunk d) := by
  have hle := chunk.length_text_le
  have hroom : pending d + chunk.text.length < ringSize := by omega
  rw [afterCall, isProutSyncPrintf_run chunk d hmagic hget hput hfits.le]
  obtain ⟨hmagicWord, hgetWord, hputWord⟩ := published_header chunk.str d hput
  have hplaced : Placed chunk.text (putIndex d) d (fill d chunk.str (putWord d)) :=
    fill_placed chunk.str d hput (by
      change chunk.text.length ≤ ringSize
      omega)
  have hgetIndex : getIndex (published d chunk.str (putWord d)) = getIndex d := by
    rw [getIndex, hgetWord, getIndex]
  have hputIndex : putIndex (published d chunk.str (putWord d)) =
      (putIndex d + chunk.text.length) % ringSize := by
    rw [putIndex, hputWord]
    exact toNat_lastCell chunk.str hput
  have hpending : pending (published d chunk.str (putWord d)) =
      pending d + chunk.text.length := by
    rw [pending, hgetIndex, hputIndex, distance_advance_put hget hput]
    exact Nat.mod_eq_of_lt hroom
  have hwindow : ∀ get len,
      window ringSize (dataByte (published d chunk.str (putWord d))) get len =
        window ringSize (dataByte (fill d chunk.str (putWord d))) get len := by
    intro get len
    apply window_congr
    intro i _
    exact dataByte_published chunk.str (putWord d) (mod_ringSize_lt _)
  have htext : window ringSize (dataByte (fill d chunk.str (putWord d))) (putIndex d)
      chunk.text.length = chunk.text := by
    apply List.ext_getElem
    · exact length_window _ _ _
    · intro i _ hi
      rw [← hplaced.cells i hi]
      simp [window]
  refine ⟨hmagicWord, hgetIndex, hputIndex, ?_⟩
  rw [unread, hpending, hgetIndex, hwindow, window_add,
    window_eq_unread hget hput hroom.le hplaced.frame, pending, add_distance_mod hget hput,
    htext]

end Appends

/-! ## Where the bytes go -/

/-- The four addresses of `put`. -/
def putRange : Set U32 :=
  {x | ∃ lane < 4, x = putAdrs + BitVec.ofNat 32 lane}

/-- The write of `put` changes four bytes at most. -/
theorem published_frame (d : Device) (str : List Byte) (start : S32) :
    Set.EqOn (published d str start) (fill d str start) putRangeᶜ := by
  intro x hx
  apply writeWord_apply_of_far
  by_contra hnear
  refine hx ⟨(x - putAdrs).toNat, not_le.mp hnear, ?_⟩
  rw [BitVec.ofNat_toNat, BitVec.setWidth_eq, BitVec.add_comm, BitVec.sub_add_cancel]

/-- An accepted chunk is copied byte by byte.  Its characters lie in consecutive
cells from `put` on, each written once and in order; then `put` is written, and
stands behind the last character.  Every other byte of the device is what it
was. -/
theorem copy_places_each_byte {chunk : Chunk} {d : Device} (hput : putIndex d < ringSize)
    (haccepted : ¬ Drops chunk d) (hlength : chunk.text.length ≤ ringSize) :
    (∀ i (hi : i < chunk.text.length),
        dataByte (afterCall chunk d) ((putIndex d + i) % ringSize) = chunk.text[i]) ∧
      Set.EqOn (afterCall chunk d) d
        (cellRange (putIndex d) chunk.text.length ∪ putRange)ᶜ ∧
      putIndex (afterCall chunk d) = (putIndex d + chunk.text.length) % ringSize ∧
      writes (isProutSyncPrintf chunk) d =
        ((List.range chunk.text.length).map fun i =>
          charAdrs (BitVec.ofNat 32 ((putIndex d + i) % ringSize))) ++ [putAdrs] := by
  obtain ⟨hmagic, hroom⟩ := (accepted_iff chunk d hput).mp haccepted
  have hafter : afterCall chunk d = published d chunk.str (putWord d) :=
    congrArg Prod.snd (isProutSyncPrintf_run_of_room chunk d hmagic hput hroom)
  have hplaced : Placed chunk.text (putIndex d) d (fill d chunk.str (putWord d)) :=
    fill_placed chunk.str d hput hlength
  refine ⟨fun i hi => ?_, ?_, ?_, ?_⟩
  · rw [hafter, dataByte_published chunk.str (putWord d) (mod_ringSize_lt _)]
    exact hplaced.cells i hi
  · rw [hafter, Set.compl_union]
    exact ((published_frame d chunk.str (putWord d)).mono Set.inter_subset_right).trans
      (hplaced.frame.mono Set.inter_subset_left)
  · rw [hafter, putIndex, (published_header chunk.str d hput).2.2]
    exact toNat_lastCell chunk.str hput
  · rw [writes_isProutSyncPrintf chunk d hput hmagic, hroom, if_neg Bool.false_ne_true,
      copyLoop_writes chunk.str d hput]
    rfl

/-- An empty ring whose indices stand at the last cell. -/
def lastCellRing : Device :=
  writeWord (writeWord emptyRing getAdrs 0xFFDF) putAdrs 0xFFDF

/-- Two bytes with a NUL between them, the first one in the last cell of the
ring and the second one in its first cell. -/
theorem copy_places_each_byte_wrapped :
    dataByte (afterCall ⟨[0xE9, 0, 0xFF], by decide⟩ lastCellRing) 0xFFDF = 0xE9 ∧
      dataByte (afterCall ⟨[0xE9, 0, 0xFF], by decide⟩ lastCellRing) 0 = 0xFF ∧
      putIndex (afterCall ⟨[0xE9, 0, 0xFF], by decide⟩ lastCellRing) = 1 := by
  obtain ⟨hcells, -, hput, -⟩ :=
    @copy_places_each_byte ⟨[0xE9, 0, 0xFF], by decide⟩ lastCellRing (by decide)
      (by decide) (by decide)
  exact ⟨hcells 0 (by decide), hcells 1 (by decide), hput⟩

end N64San.IsViewer
