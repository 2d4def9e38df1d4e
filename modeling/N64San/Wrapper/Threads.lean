import N64San.Core.Interleaving
import N64San.Wrapper.Placement

/-!
# Two threads in the callback at once

The wrapper takes no lock.  Two callbacks whose transactions interleave leave
the ring as if one had run after the other exactly when one of them publishes
its `put` before the other one reads it.  Otherwise both copy to the same
cells, and the `put` written last forgets one of the two messages.
-/

namespace N64San.IsViewer

open BigEndian CircularBuffer Transaction Program

/-- Two devices with the same `put` and the same unread bytes. -/
def SameRing (s t : Device) : Prop :=
  putWord s = putWord t ∧ unread s = unread t

/-- `t` is what two calls make of `d` in some order. -/
def Serialised (chunkA chunkB : Chunk) (d t : Device) : Prop :=
  SameRing t (afterCall chunkB (afterCall chunkA d)) ∨
    SameRing t (afterCall chunkA (afterCall chunkB d))

/-- A complete interleaving of two calls. -/
def Interleaved (chunkA chunkB : Chunk) (d : Device) (events : List (Side × Request))
    (t : Device) : Prop :=
  ∃ retA retB, Interleaving exec
    (isProutSyncPrintf chunkA, isProutSyncPrintf chunkB, d) events
    (.ret retA, .ret retB, t)

/-- One party writes `put` before the other one reads it. -/
def Precedes (events : List (Side × Request)) (side : Side) : Prop :=
  ∃ before start after,
    events = before ++ (side, .osEPiWriteIo .header putAdrs start) :: after ∧
      (side.other, .osEPiReadIo putAdrs) ∉ before

theorem Precedes.cons {events : List (Side × Request)} {side : Side}
    (h : Precedes events side) {event : Side × Request}
    (hne : event ≠ (side.other, .osEPiReadIo putAdrs)) :
    Precedes (event :: events) side := by
  obtain ⟨before, start, after, rfl, hbefore⟩ := h
  exact ⟨event :: before, start, after, rfl, by simp [hne.symm, hbefore]⟩

theorem Precedes.swap {events : List (Side × Request)} {side : Side}
    (h : Precedes events side) : Precedes (swapSides events) side.other := by
  obtain ⟨before, start, after, rfl, hbefore⟩ := h
  refine ⟨swapSides before, start, swapSides after, by simp [swapSides], ?_⟩
  intro hmem
  obtain ⟨⟨party, request⟩, hevent, heq⟩ := List.mem_map.mp hmem
  obtain ⟨hparty, hrequest⟩ : party.other = side.other.other ∧
      request = .osEPiReadIo putAdrs := Prod.mk.inj heq
  have hother : party = side.other := by
    rw [← party.other_other, hparty, Side.other_other]
  rw [hother, hrequest] at hevent
  exact hbefore hevent

/-! ## What the requests of a call touch -/

/-- The request writes a character of the ring, or nothing. -/
def Request.Copies : Request → Prop
  | .osEPiWriteIo _ devAddr _ => ∃ start, devAddr = charAdrs start
  | _ => True

/-- The request leaves `magic` and `get` alone. -/
def Request.KeepsGet (request : Request) : Prop :=
  request.Copies ∨ ∃ start, request = .osEPiWriteIo .header putAdrs start

def Request.readsPut (request : Request) : Prop :=
  request = .osEPiReadIo putAdrs

def Request.PollsGet (request : Request) : Prop :=
  request = .osEPiReadIo magicAdrs ∨ request = .osEPiReadIo getAdrs

/-- The three header words a call reads. -/
def header (d : Device) : U32 × U32 × U32 :=
  (magicWord d, getWord d, putWord d)

theorem Request.Copies.header {request : Request} (h : request.Copies) (d : Device) :
    header (exec request d).2 = header d := by
  cases request with
  | osEPiWriteIo purpose devAddr data =>
      obtain ⟨start, rfl⟩ := h
      have hword : ∀ word : U32, (word - gISVDbgPrnAdrs).toNat + 4 ≤ 0x20 →
          readWord (writeWord d (charAdrs start) data) word = readWord d word :=
        fun word => readWord_header_write_char d start data
      have hmagic : magicWord (writeWord d (charAdrs start) data) = magicWord d :=
        hword magicAdrs (by decide)
      have hget : getWord (writeWord d (charAdrs start) data) = getWord d :=
        hword getAdrs (by decide)
      have hput : putWord (writeWord d (charAdrs start) data) = putWord d :=
        hword putAdrs (by decide)
      change IsViewer.header (writeWord d (charAdrs start) data) = IsViewer.header d
      rw [IsViewer.header, hmagic, hget, hput, IsViewer.header]
  | _ => rfl

theorem Request.KeepsGet.header {request : Request} (h : request.KeepsGet) (d : Device) :
    magicWord (exec request d).2 = magicWord d ∧ getWord (exec request d).2 = getWord d := by
  rcases h with hcopies | ⟨start, rfl⟩
  · have hheader := hcopies.header d
    rw [IsViewer.header, IsViewer.header, Prod.mk.injEq, Prod.mk.injEq] at hheader
    exact ⟨hheader.1, hheader.2.1⟩
  · have hmagic := magicWord_write_put d start
    have hget := getWord_write_put d start
    exact ⟨hmagic, hget⟩

theorem isProutSyncPrintf_keepsGet (chunk : Chunk) :
    (isProutSyncPrintf chunk).Every Request.KeepsGet :=
  isProutSyncPrintf_every ⟨Or.inl trivial, Or.inl trivial, Or.inl trivial⟩
    (fun _ => Or.inl trivial) (fun start _ => Or.inl ⟨start, rfl⟩)
    (fun start => Or.inr ⟨start, rfl⟩) chunk

theorem publish_endsWith (str : List Byte) (start : S32) :
    (publish str start).EndsWith (.osEPiWriteIo .header putAdrs (lastCell str start))
      Request.Copies := by
  induction str generalizing start with
  | nil => exact Or.inr ⟨rfl, fun _ => ⟨1, rfl⟩⟩
  | cons c str ih =>
      by_cases hc : c = 0
      · rw [hc, lastCell_zero, publish, copyLoop_zero]
        exact ih start
      · rw [publish, copyLoop_cons hc, lastCell_cons hc]
        exact Or.inl ⟨trivial, fun data =>
          Or.inl ⟨⟨start, rfl⟩, fun _ => ih (advance start)⟩⟩

/-- A call polls `magic` and `get` before it reads `put`. -/
theorem isProutSyncPrintf_until (chunk : Chunk) :
    (isProutSyncPrintf chunk).Until Request.readsPut Request.PollsGet := by
  refine Or.inr ⟨Or.inl rfl, fun data => ?_⟩
  change (afterMagic chunk data).Until _ _
  rw [afterMagic]
  split_ifs
  · trivial
  · exact Or.inr ⟨Or.inr rfl, fun pos => Or.inl rfl⟩

/-- A write of `put`. -/
def Request.Publishes (request : Request) : Prop :=
  ∃ start, request = .osEPiWriteIo .header putAdrs start

theorem publish_stopsAfter (str : List Byte) (start : S32) :
    (publish str start).StopsAfter Request.Publishes := by
  induction str generalizing start with
  | nil => exact ⟨fun _ _ => ⟨1, rfl⟩, fun _ => trivial⟩
  | cons c str ih =>
      by_cases hc : c = 0
      · rw [publish, hc, copyLoop_zero]
        exact ih start
      · rw [publish, copyLoop_cons hc]
        exact ⟨by rintro ⟨_, ⟨⟩⟩, fun data =>
          ⟨by rintro ⟨_, ⟨⟩⟩, fun _ => ih (advance start)⟩⟩

/-- A call returns right after it has written `put`. -/
theorem isProutSyncPrintf_stopsAfter (chunk : Chunk) :
    (isProutSyncPrintf chunk).StopsAfter Request.Publishes := by
  refine ⟨by rintro ⟨_, ⟨⟩⟩, fun data => ?_⟩
  change (afterMagic chunk data).StopsAfter _
  rw [afterMagic]
  split_ifs
  · trivial
  · refine ⟨by rintro ⟨_, ⟨⟩⟩, fun pos => ⟨by rintro ⟨_, ⟨⟩⟩, fun start => ?_⟩⟩
    beta_reduce
    split_ifs
    · trivial
    · exact publish_stopsAfter chunk.str start

/-! ## One call before the other -/

/-- If the left call publishes before the right one reads `put`, the left call
might as well have run first. -/
theorem serial_of_left_precedes {chunkA chunkB : Chunk} {d t : Device}
    {events : List (Side × Request)} (h : Interleaved chunkA chunkB d events t)
    (hprecedes : Precedes events .left) :
    t = afterCall chunkB (afterCall chunkA d) := by
  obtain ⟨retA, retB, hinterleaving⟩ := h
  obtain ⟨before, start, after, rfl, hbefore⟩ := hprecedes
  refine hinterleaving.left_first (Q := Request.PollsGet) ?_ ?_
    (isProutSyncPrintf_keepsGet chunkA) (isProutSyncPrintf_stopsAfter chunkA) ⟨start, rfl⟩
    (isProutSyncPrintf_until chunkB) ?_
  · rintro request s (rfl | rfl) <;> rfl
  · rintro op request s hop (rfl | rfl)
    · exact (hop.header s).1
    · exact (hop.header s).2
  · rintro op hop rfl
    exact hbefore hop

theorem Interleaved.swap {chunkA chunkB : Chunk} {d t : Device}
    {events : List (Side × Request)} (h : Interleaved chunkA chunkB d events t) :
    Interleaved chunkB chunkA d (swapSides events) t := by
  obtain ⟨retA, retB, hinterleaving⟩ := h
  exact ⟨retB, retA, hinterleaving.swap⟩

theorem serialised_of_precedes {chunkA chunkB : Chunk} {d t : Device}
    {events : List (Side × Request)} (h : Interleaved chunkA chunkB d events t)
    {side : Side} (hprecedes : Precedes events side) : Serialised chunkA chunkB d t := by
  cases side with
  | left =>
      rw [serial_of_left_precedes h hprecedes]
      exact Or.inl ⟨rfl, rfl⟩
  | right =>
      rw [serial_of_left_precedes h.swap hprecedes.swap]
      exact Or.inr ⟨rfl, rfl⟩

/-! ## Neither call before the other -/

/-- A call that has not read `put` yet. -/
inductive Polls (chunk : Chunk) (pos : S32) : Pi U32 → Prop
  | magic : Polls chunk pos (isProutSyncPrintf chunk)
  | get : Polls chunk pos (.request (.osEPiReadIo getAdrs) (afterGet chunk))
  | put : Polls chunk pos (afterGet chunk pos)

/-- A call that is bound to publish `last`. -/
abbrev Copies (last : S32) (program : Pi U32) : Prop :=
  program.EndsWith (.osEPiWriteIo .header putAdrs last) Request.Copies

/-- One party of a race before anything is published: it has not read `put`,
nor will the other party publish before it does; or it is copying to the cells
behind `start`. -/
def Racing (chunk : Chunk) (pos start : S32) (side : Side)
    (events : List (Side × Request)) (program : Pi U32) : Prop :=
  (Polls chunk pos program ∧ ¬ Precedes events side.other) ∨
    Copies (lastCell chunk.str start) program

section Racing

variable {chunk : Chunk} {pos start : S32} {side : Side}
variable {events : List (Side × Request)} {program : Pi U32}

theorem Racing.not_ret {value : U32} : ¬ Racing chunk pos start side events (.ret value) := by
  rintro (⟨hpolls, _⟩ | hcopies)
  · cases hpolls
  · exact hcopies

/-- A request of the other party. -/
theorem Racing.other {request : Request}
    (h : Racing chunk pos start side ((side.other, request) :: events) program) :
    Racing chunk pos start side events program := by
  rcases h with ⟨hpolls, hprecedes⟩ | hcopies
  · refine Or.inl ⟨hpolls, fun hlater => hprecedes (hlater.cons ?_)⟩
    rw [Side.other_other]
    exact fun heq => side.other_ne (congrArg Prod.fst heq)
  · exact Or.inr hcopies

/-- When the other party publishes, this one is copying. -/
theorem Racing.copies {last : S32}
    (h : Racing chunk pos start side
      ((side.other, .osEPiWriteIo .header putAdrs last) :: events) program) :
    Copies (lastCell chunk.str start) program := by
  rcases h with ⟨_, hprecedes⟩ | hcopies
  · exact absurd ⟨[], last, events, rfl, by simp⟩ hprecedes
  · exact hcopies

/-- A request of this party leaves the header alone and it races on, or it
publishes and returns. -/
theorem Racing.own {request : Request} {next : U32 → Pi U32} {s : Device}
    (hs : header s = (is64, pos, start)) (hroom : noRoom pos start chunk.count = false)
    (h : Racing chunk pos start side ((side, request) :: events) (.request request next)) :
    (header (exec request s).2 = (is64, pos, start) ∧
        Racing chunk pos start side events (next (exec request s).1)) ∨
      (request = .osEPiWriteIo .header putAdrs (lastCell chunk.str start) ∧
        ∃ value, next (exec request s).1 = .ret value) := by
  obtain ⟨hmagic, hget, hput⟩ : magicWord s = is64 ∧ getWord s = pos ∧ putWord s = start := by
    rw [header, Prod.mk.injEq, Prod.mk.injEq] at hs
    exact hs
  have hlater : ∀ devAddr, devAddr ≠ putAdrs →
      ¬ Precedes ((side, .osEPiReadIo devAddr) :: events) side.other →
        ¬ Precedes events side.other := by
    intro devAddr hne hprecedes hlater
    refine hprecedes (hlater.cons fun heq => hne ?_)
    exact Request.osEPiReadIo.inj (congrArg Prod.snd heq)
  rcases h with ⟨hpolls, hprecedes⟩ | hcopies
  · left
    generalize hprogram : Program.request request next = program at hpolls
    cases hpolls with
    | magic =>
        rw [isProutSyncPrintf_eq] at hprogram
        cases hprogram
        refine ⟨hs, Or.inl ⟨?_, hlater magicAdrs (by decide) hprecedes⟩⟩
        change Polls chunk pos (afterMagic chunk (magicWord s))
        rw [afterMagic_of_eq chunk hmagic]
        exact .get
    | get =>
        cases hprogram
        refine ⟨hs, Or.inl ⟨?_, hlater getAdrs (by decide) hprecedes⟩⟩
        change Polls chunk pos (afterGet chunk (getWord s))
        rw [hget]
        exact .put
    | put =>
        cases hprogram
        refine ⟨hs, Or.inr ?_⟩
        change Copies _ (if noRoom pos (putWord s) chunk.count then .ret 1
          else publish chunk.str (putWord s))
        rw [hput, hroom]
        exact publish_endsWith chunk.str start
  · rcases hcopies with ⟨hrequest, hnext⟩ | ⟨rfl, hret⟩
    · exact Or.inl ⟨(hrequest.header s).trans hs, Or.inr (hnext _)⟩
    · exact Or.inr ⟨rfl, hret _⟩

end Racing

/-- The copying party that is left decides `put`. -/
theorem Copies.putWord_eq {last : S32} {program : Pi U32} (h : Copies last program)
    {s t : Device} {events : List (Side × Request)} {value retA retB : U32}
    (hrest : Interleaving exec ((.ret value : Pi U32), program, s) events
      (.ret retA, .ret retB, t)) : putWord t = last := by
  rw [hrest.of_left_returned]
  exact h.run_eq (fun u => putWord_write_put u last) s

/-- After a race, `put` knows of one message only. -/
theorem putWord_of_race {chunkA chunkB : Chunk} {pos start : S32}
    (hroomA : noRoom pos start chunkA.count = false)
    (hroomB : noRoom pos start chunkB.count = false) {p q : Pi U32} {s t : Device}
    {events : List (Side × Request)} {retA retB : U32}
    (h : Interleaving exec (p, q, s) events (.ret retA, .ret retB, t))
    (hs : header s = (is64, pos, start))
    (hp : Racing chunkA pos start .left events p)
    (hq : Racing chunkB pos start .right events q) :
    putWord t = lastCell chunkA.str start ∨ putWord t = lastCell chunkB.str start := by
  induction events generalizing p q s with
  | nil =>
      cases h
      exact absurd hp Racing.not_ret
  | cons event events ih =>
      cases h with
      | left hrest =>
          rcases hp.own hs hroomA with ⟨hheader, hnext⟩ | ⟨rfl, value, hvalue⟩
          · exact ih hrest hheader hnext (hq.other)
          · rw [hvalue] at hrest
            exact Or.inr (hq.copies.putWord_eq hrest)
      | right hrest =>
          rcases hq.own hs hroomB with ⟨hheader, hnext⟩ | ⟨rfl, value, hvalue⟩
          · exact ih hrest hheader (hp.other) hnext
          · rw [hvalue] at hrest
            exact Or.inl (hp.copies.putWord_eq hrest.swap)

/-! ## Serialisation -/

section Order

variable {d : Device} (hmagic : magicWord d = is64) (hget : getIndex d < ringSize)
  (hput : putIndex d < ringSize)

include hmagic hget hput

/-- One call after the other, when their messages leave a cell free. -/
theorem afterCall_afterCall_appends {first second : Chunk}
    (hfit : pending d + first.str.length + second.str.length < ringSize) :
    Appends (first.text ++ second.text) d (afterCall second (afterCall first d)) := by
  have hle := first.length_text_le
  have hfirst : Appends first.text d (afterCall first d) :=
    afterCall_appends hmagic hget hput (by omega)
  refine hfirst.trans (afterCall_appends (hfirst.magic.trans hmagic)
    (hfirst.get.trans_lt hget) hfirst.put_lt ?_)
  rw [hfirst.pending]
  omega

/-- What is unread after two calls in some order: both messages, unmixed. -/
theorem Serialised.unread {chunkA chunkB : Chunk} {t : Device}
    (hfit : pending d + chunkA.str.length + chunkB.str.length < ringSize)
    (h : Serialised chunkA chunkB d t) :
    unread t = unread d ++ chunkA.text ++ chunkB.text ∨
      unread t = unread d ++ chunkB.text ++ chunkA.text := by
  rcases h with ⟨_, hunread⟩ | ⟨_, hunread⟩
  · left
    rw [hunread, (afterCall_afterCall_appends hmagic hget hput hfit).unread,
      List.append_assoc]
  · right
    rw [Nat.add_right_comm] at hfit
    rw [hunread, (afterCall_afterCall_appends hmagic hget hput hfit).unread,
      List.append_assoc]

end Order

/-- For two messages that leave a cell of the ring free together, two interleaved
calls leave `put` and the unread bytes of some sequential order if and only if
one of them publishes before the other one reads `put`; and then neither message
has lost a byte or been mixed into the other one. -/
theorem concurrent_prints_serialise_iff {chunkA chunkB : Chunk} {d t : Device}
    {events : List (Side × Request)} (hmagic : magicWord d = is64)
    (hget : getIndex d < ringSize) (hput : putIndex d < ringSize)
    (hA : chunkA.text ≠ []) (hB : chunkB.text ≠ [])
    (hfit : pending d + chunkA.str.length + chunkB.str.length < ringSize)
    (h : Interleaved chunkA chunkB d events t) :
    (Serialised chunkA chunkB d t ↔ ∃ side, Precedes events side) ∧
      (Serialised chunkA chunkB d t →
        unread t = unread d ++ chunkA.text ++ chunkB.text ∨
          unread t = unread d ++ chunkB.text ++ chunkA.text) := by
  refine ⟨⟨?_, ?_⟩, Serialised.unread hmagic hget hput hfit⟩
  · intro hserialised
    by_contra hnone
    have hnever : ∀ side, ¬ Precedes events side := fun side hside => hnone ⟨side, hside⟩
    have hfit' : pending d + chunkB.str.length + chunkA.str.length < ringSize := by omega
    have hroomA : noRoom (getWord d) (putWord d) chunkA.count = false :=
      noRoom_eq_false chunkA d hget hput (by omega)
    have hroomB : noRoom (getWord d) (putWord d) chunkB.count = false :=
      noRoom_eq_false chunkB d hget hput (by omega)
    have hheader : header d = (is64, getWord d, putWord d) := by rw [header, hmagic]
    obtain ⟨retA, retB, hinterleaving⟩ := h
    have hrace := putWord_of_race hroomA hroomB hinterleaving hheader
      (Or.inl ⟨.magic, hnever _⟩) (Or.inl ⟨.magic, hnever _⟩)
    have hsum : (putWord t).toNat =
        (putIndex d + (chunkA.text.length + chunkB.text.length)) % ringSize := by
      rcases hserialised with ⟨hputWord, _⟩ | ⟨hputWord, _⟩
      · have hput' := (afterCall_afterCall_appends hmagic hget hput hfit).put
        rwa [putIndex, ← hputWord, List.length_append] at hput'
      · have hput' := (afterCall_afterCall_appends hmagic hget hput hfit').put
        rwa [putIndex, ← hputWord, List.length_append, Nat.add_comm chunkB.text.length]
          at hput'
    have hlengthA : 0 < chunkA.text.length := List.length_pos_of_ne_nil hA
    have hlengthB : 0 < chunkB.text.length := List.length_pos_of_ne_nil hB
    have hleA := chunkA.length_text_le
    have hleB := chunkB.length_text_le
    have hlt : chunkA.text.length + chunkB.text.length < ringSize := by omega
    -- Each message is shorter than the ring, so forgetting it moves `put`.
    rcases hrace with hlast | hlast
    · rw [hlast, toNat_lastCell chunkA.str hput] at hsum
      exact add_mod_ne (Nat.lt_add_of_pos_right hlengthB) hlt hsum
    · rw [hlast, toNat_lastCell chunkB.str hput] at hsum
      exact add_mod_ne (Nat.lt_add_of_pos_left hlengthA) hlt hsum
  · rintro ⟨side, hprecedes⟩
    exact serialised_of_precedes h hprecedes

/-- The right call polls beside the left one, but reads `put` only when that one
has returned. -/
def overlapping : List Side :=
  [.left, .right, .left, .right] ++ .replicate 6 .left ++ .replicate 4 .right

/-- Both threads print under that schedule. -/
def printOverlapping : List (Side × Request) × (Pi U32 × Pi U32 × Device) :=
  runSchedule exec overlapping
    (isProutSyncPrintf chunkWithNul, isProutSyncPrintf (letter 'c'), wrappedRing)

theorem concurrent_prints_serialise_overlapping :
    Serialised chunkWithNul (letter 'c') wrappedRing printOverlapping.2.2.2 ∧
      (unread printOverlapping.2.2.2 = unread wrappedRing ++ chunkWithNul.text ++ [ascii 'c'] ∨
        unread printOverlapping.2.2.2 = unread wrappedRing ++ [ascii 'c'] ++ chunkWithNul.text) := by
  have hinterleaved : Interleaved chunkWithNul (letter 'c') wrappedRing printOverlapping.1
      printOverlapping.2.2.2 := ⟨1, 1, runSchedule_interleaving exec overlapping _⟩
  obtain ⟨hiff, hunread⟩ := concurrent_prints_serialise_iff (by decide) (by decide)
    (by decide) (by decide) (by decide) (by decide) hinterleaved
  have hserialised := hiff.mpr
    ⟨.left, printOverlapping.1.take 9, 3, printOverlapping.1.drop 10, rfl, by decide⟩
  exact ⟨hserialised, hunread hserialised⟩

/-- Both threads print one letter under the given schedule. -/
def printLetters (schedule : List Side) :
    List (Side × Request) × (Pi U32 × Pi U32 × Device) :=
  runSchedule exec schedule
    (isProutSyncPrintf (letter 'a'), isProutSyncPrintf (letter 'b'), emptyRing)

/-- Both threads poll, then the left one prints, then the right one. -/
def pollTogether : List Side :=
  .replicate 3 .left ++ .replicate 3 .right ++ .replicate 3 .left ++ .replicate 3 .right

/-- Two letters printed at once on an empty ring: one of them is lost. -/
theorem message_lost_in_race : ∃ events t,
    Interleaved (letter 'a') (letter 'b') emptyRing events t ∧
      ¬ Serialised (letter 'a') (letter 'b') emptyRing t := by
  refine ⟨(printLetters pollTogether).1, (printLetters pollTogether).2.2.2,
    ⟨1, 1, runSchedule_interleaving exec pollTogether _⟩, ?_⟩
  have hput : putWord (printLetters pollTogether).2.2.2 = 1 := by decide
  rintro (⟨h, _⟩ | ⟨h, _⟩)
  · rw [hput] at h
    exact absurd h (by decide)
  · rw [hput] at h
    exact absurd h (by decide)

end N64San.IsViewer
