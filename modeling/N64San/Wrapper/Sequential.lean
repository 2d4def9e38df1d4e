import N64San.Wrapper.Cells

/-!
# A callback that nobody disturbs

What one call of `is_proutSyncPrintf` makes of the device when neither the host
nor another thread acts meanwhile, as a function of the device it finds.
-/

namespace N64San.IsViewer

open BigEndian CircularBuffer Transaction

/-- The device after one undisturbed call. -/
def afterCall (chunk : Chunk) (d : Device) : Device :=
  ((isProutSyncPrintf chunk).run exec d).2

/-- `start` when the copy loop is done. -/
def lastCell : List Byte → S32 → S32
  | [], start => start
  | c :: str, start => if c ≠ 0 then lastCell str (advance start) else lastCell str start

/-- The device when the copy loop is done. -/
def fill (d : Device) : List Byte → S32 → Device
  | [], _ => d
  | c :: str, start =>
      if c ≠ 0 then fill (setData d start.toNat c) str (advance start)
      else fill d str start

@[simp]
theorem lastCell_zero (str : List Byte) (start : S32) :
    lastCell (0 :: str) start = lastCell str start := by
  rw [lastCell, if_neg (by simp)]

theorem lastCell_cons {c : Byte} (hc : c ≠ 0) (str : List Byte) (start : S32) :
    lastCell (c :: str) start = lastCell str (advance start) := by
  rw [lastCell, if_pos hc]

@[simp]
theorem fill_zero (d : Device) (str : List Byte) (start : S32) :
    fill d (0 :: str) start = fill d str start := by
  rw [fill, if_neg (by simp)]

theorem fill_cons (d : Device) {c : Byte} (hc : c ≠ 0) (str : List Byte) (start : S32) :
    fill d (c :: str) start = fill (setData d start.toNat c) str (advance start) := by
  rw [fill, if_pos hc]

theorem toNat_lastCell (str : List Byte) {start : S32} (hstart : start.toNat < ringSize) :
    (lastCell str start).toNat = (start.toNat + (str.filter (· ≠ 0)).length) % ringSize := by
  induction str generalizing start with
  | nil => exact (Nat.mod_eq_of_lt hstart).symm
  | cons c str ih =>
      by_cases hc : c = 0
      · rw [hc, lastCell_zero, filter_cons_zero]
        exact ih hstart
      · rw [lastCell_cons hc, filter_cons_of_ne hc, List.length_cons]
        calc
          (lastCell str (advance start)).toNat =
              ((advance start).toNat + (str.filter (· ≠ 0)).length) % ringSize :=
            ih (toNat_advance_lt hstart)
          _ = (start.toNat + 1 + (str.filter (· ≠ 0)).length) % ringSize := by
            rw [toNat_advance hstart, Nat.mod_add_mod]
          _ = (start.toNat + ((str.filter (· ≠ 0)).length + 1)) % ringSize := by
            rw [Nat.add_assoc, Nat.add_comm 1]

/-- The loop leaves the header alone. -/
theorem fill_header (str : List Byte) (d : Device) {start : S32}
    (hstart : start.toNat < ringSize) :
    magicWord (fill d str start) = magicWord d ∧ getWord (fill d str start) = getWord d ∧
      putWord (fill d str start) = putWord d := by
  induction str generalizing d start with
  | nil => exact ⟨rfl, rfl, rfl⟩
  | cons c str ih =>
      by_cases hc : c = 0
      · rw [hc, fill_zero]
        exact ih d hstart
      · rw [fill_cons d hc]
        obtain ⟨hmagic, hget, hput⟩ := ih (setData d start.toNat c) (toNat_advance_lt hstart)
        exact ⟨hmagic.trans (magicWord_setData d c hstart),
          hget.trans (getWord_setData d c hstart), hput.trans (putWord_setData d c hstart)⟩

theorem copyLoop_run (str : List Byte) (d : Device) {start : S32}
    (hstart : start.toNat < ringSize) :
    (copyLoop str start).run exec d = (lastCell str start, fill d str start) := by
  induction str generalizing d start with
  | nil => rfl
  | cons c str ih =>
      by_cases hc : c = 0
      · rw [hc, copyLoop_zero, lastCell_zero, fill_zero]
        exact ih d hstart
      · rw [copyLoop_cons hc, lastCell_cons hc, fill_cons d hc,
          ← ih (setData d start.toNat c) (toNat_advance_lt hstart),
          ← write_charWord d hstart c]
        rfl

/-- The device after a call that has found room at `start`. -/
def published (d : Device) (str : List Byte) (start : S32) : Device :=
  writeWord (fill d str start) putAdrs (lastCell str start)

theorem publish_run (str : List Byte) (d : Device) {start : S32}
    (hstart : start.toNat < ringSize) :
    (publish str start).run exec d = (1, published d str start) := by
  rw [publish, Program.run_bind, copyLoop_run str d hstart]
  rfl

/-- The header after such a call. -/
theorem published_header (str : List Byte) (d : Device) {start : S32}
    (hstart : start.toNat < ringSize) :
    magicWord (published d str start) = magicWord d ∧
      getWord (published d str start) = getWord d ∧
      putWord (published d str start) = lastCell str start := by
  obtain ⟨hmagic, hget, _⟩ := fill_header str d hstart
  rw [published, magicWord_write_put, getWord_write_put, putWord_write_put]
  exact ⟨hmagic, hget, rfl⟩

/-- A call that finds room publishes its chunk. -/
theorem isProutSyncPrintf_run_of_room (chunk : Chunk) (d : Device)
    (hmagic : magicWord d = is64) (hput : putIndex d < ringSize)
    (hroom : noRoom (getWord d) (putWord d) chunk.count = false) :
    (isProutSyncPrintf chunk).run exec d = (1, published d chunk.str (putWord d)) := by
  calc
    (isProutSyncPrintf chunk).run exec d =
        (afterMagic chunk (magicWord d)).run exec d := rfl
    _ = (if noRoom (getWord d) (putWord d) chunk.count then .ret 1
          else publish chunk.str (putWord d) : Pi U32).run exec d := by
      rw [afterMagic_of_eq chunk hmagic]
      rfl
    _ = (1, published d chunk.str (putWord d)) := by
      rw [hroom]
      exact publish_run chunk.str d hput

section Fits

variable (chunk : Chunk) (d : Device) (hmagic : magicWord d = is64)
  (hget : getIndex d < ringSize) (hput : putIndex d < ringSize)

include hget hput

/-- A chunk that fits the ring passes the space check. -/
theorem noRoom_eq_false (hfits : pending d + chunk.str.length ≤ ringSize) :
    noRoom (getWord d) (putWord d) chunk.count = false := by
  have hput' : (putWord d).toNat < 0xFFE0 := hput
  have hlength : chunk.str.length ≤ 0xFFE0 := by
    have hfits' : pending d + chunk.str.length ≤ 0xFFE0 := hfits
    omega
  have hend : (putWord d).toNat + chunk.count.toNat ≤ 2 ^ 31 - 1 := by
    rw [chunk.toNat_count]
    omega
  rw [Bool.eq_false_iff, ne_eq, noRoom_iff hget hput hend, chunk.toNat_count]
  exact Nat.not_lt.mpr hfits

include hmagic

theorem isProutSyncPrintf_run (hfits : pending d + chunk.str.length ≤ ringSize) :
    (isProutSyncPrintf chunk).run exec d = (1, published d chunk.str (putWord d)) :=
  isProutSyncPrintf_run_of_room chunk d hmagic hput
    (noRoom_eq_false chunk d hget hput hfits)

end Fits

/-! ## Initialisation -/

/-- An initialised device is an empty ring, whatever it was before. -/
theorem isPrintfInit_run_empty (d : Device) :
    let t := (isPrintfInit.run exec d).2
    magicWord t = is64 ∧ getIndex t = 0 ∧ putIndex t = 0 ∧ unread t = [] := by
  have hdevice : (isPrintfInit.run exec d).2 =
      writeWord (writeWord (writeWord d putAdrs 0) getAdrs 0) magicAdrs is64 := rfl
  intro t
  have hget : getIndex t = 0 := by
    change getIndex (isPrintfInit.run exec d).2 = 0
    rw [hdevice, getIndex, getWord_write_magic, getWord_write_get]
    rfl
  have hput : putIndex t = 0 := by
    change putIndex (isPrintfInit.run exec d).2 = 0
    rw [hdevice, putIndex, putWord_write_magic, putWord_write_get, putWord_write_put]
    rfl
  refine ⟨magicWord_write_magic _ _, hget, hput, ?_⟩
  rw [unread, pending, hget, hput, distance_self, window_zero]

/-! ## Samples -/

/-- The message of a single character. -/
def letter (c : Char) : Chunk := ⟨[ascii c], by simp⟩

/-- A message with a NUL in it. -/
def chunkWithNul : Chunk := ⟨[ascii 'a', 0, ascii 'b'], by decide⟩

/-- The ring right after `isPrintfInit`. -/
def emptyRing : Device := (isPrintfInit.run exec fun _ => 0).2

/-- A ring whose three unread bytes lie around its end. -/
def wrappedRing : Device :=
  setData (setData (setData (writeWord (writeWord emptyRing getAdrs 0xFFDE) putAdrs 1)
    0xFFDE (ascii 'x')) 0xFFDF (ascii 'y')) 0 (ascii 'z')

end N64San.IsViewer
