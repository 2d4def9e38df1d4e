import N64San.Wrapper.IsViewer

/-!
# Printing through the IS-Viewer

The Majora's Mask build of `n64_io.c`: initialisation, the callback
`is_proutSyncPrintf` that the game's formatter feeds with text, and the four
print functions of the wrapper.  Every C function is a `Pi` program that makes
the source's transactions in the source's order.
-/

namespace N64San.IsViewer

open BigEndian CircularBuffer Transaction

def ascii (c : Char) : Byte :=
  BitVec.ofNat 8 c.toNat

/-- `ASCII_TO_U32`. -/
def asciiToU32 (a b c d : Byte) : U32 :=
  (a.setWidth 32 <<< 24) ||| (b.setWidth 32 <<< 16) |||
    (c.setWidth 32 <<< 8) ||| (d.setWidth 32 <<< 0)

/-- The word that says an IS-Viewer has been set up. -/
def is64 : U32 :=
  asciiToU32 (ascii 'I') (ascii 'S') (ascii '6') (ascii '4')

def isPrintfInit : Pi Unit := do
  let _ ← osCartRomInit
  let _ ← osEPiWriteIo .header putAdrs 0
  let _ ← osEPiWriteIo .header getAdrs 0
  let _ ← osEPiWriteIo .header magicAdrs is64
  return ()

/-- The space check of `is_proutSyncPrintf`: `true` where the source returns
early.  `start + count` is computed in `u32` and compared as an `s32`. -/
def noRoom (pos start : S32) (count : U32) : Bool :=
  let last : S32 := start + count
  if 0xFFE0 ≤ last.toInt then
    let last : S32 := last - 0xFFE0
    pos.toInt < last.toInt || start.toInt < pos.toInt
  else
    start.toInt < pos.toInt && pos.toInt < last.toInt

/-- The word of the ring that holds cell `start`. -/
def charAdrs (start : S32) : U32 :=
  dataAdrs + (start &&& 0xFFFFFFC)

/-- `data` with the byte of cell `start` replaced by `c`. -/
def charWord (start : S32) (c : Byte) (data : U32) : U32 :=
  let shift : S32 := (3 - (start &&& 3)) * 8
  (c.setWidth 32 <<< shift) ||| (data &&& ~~~(0xFF#32 <<< shift))

/-- `start++` and the wrap behind it. -/
def advance (start : S32) : S32 :=
  let start := start + 1
  if 0xFFE0 ≤ start.toInt then start - 0xFFE0 else start

/-- The `while (count)` loop over the bytes at `str`; it returns `start`. -/
def copyLoop : List Byte → S32 → Pi S32
  | [], start => return start
  | c :: str, start => do
      if c ≠ 0 then
        let data ← osEPiReadIo (charAdrs start)
        let _ ← osEPiWriteIo .character (charAdrs start) (charWord start c data)
        copyLoop str (advance start)
      else
        copyLoop str start

def isProutSyncPrintf (chunk : Chunk) : Pi U32 := do
  let data ← osEPiReadIo magicAdrs
  if data ≠ is64 then
    return 1
  let pos ← osEPiReadIo getAdrs
  let start ← osEPiReadIo putAdrs
  if noRoom pos start chunk.count then
    return 1
  let start ← copyLoop chunk.str start
  let _ ← osEPiWriteIo .header putAdrs start
  return 1

@[simp]
theorem copyLoop_nil (start : S32) : copyLoop [] start = .ret start := rfl

@[simp]
theorem copyLoop_zero (str : List Byte) (start : S32) :
    copyLoop (0 :: str) start = copyLoop str start := by
  rw [copyLoop, if_neg (by simp)]

/-- A character costs one read and one write of the word that holds its cell. -/
theorem copyLoop_cons {c : Byte} (hc : c ≠ 0) (str : List Byte) (start : S32) :
    copyLoop (c :: str) start =
      .request (.osEPiReadIo (charAdrs start)) fun data =>
        .request (.osEPiWriteIo .character (charAdrs start) (charWord start c data))
          fun _ => copyLoop str (advance start) := by
  rw [copyLoop, if_pos hc]
  rfl

/-- What is left of a call once it knows `start` and has found room. -/
def publish (str : List Byte) (start : S32) : Pi U32 :=
  copyLoop str start >>= fun start =>
    .request (.osEPiWriteIo .header putAdrs start) fun _ => .ret 1

/-- What is left of a call once it has polled `get`. -/
def afterGet (chunk : Chunk) (pos : S32) : Pi U32 :=
  .request (.osEPiReadIo putAdrs) fun start =>
    if noRoom pos start chunk.count then .ret 1 else publish chunk.str start

/-- What is left of a call once it has polled the magic word. -/
def afterMagic (chunk : Chunk) (data : U32) : Pi U32 :=
  if data ≠ is64 then .ret 1
  else .request (.osEPiReadIo getAdrs) (afterGet chunk)

theorem afterMagic_of_eq (chunk : Chunk) {data : U32} (hdata : data = is64) :
    afterMagic chunk data = .request (.osEPiReadIo getAdrs) (afterGet chunk) :=
  if_neg (not_not_intro hdata)

theorem afterMagic_of_ne (chunk : Chunk) {data : U32} (hdata : data ≠ is64) :
    afterMagic chunk data = .ret 1 :=
  if_pos hdata

theorem isProutSyncPrintf_eq (chunk : Chunk) :
    isProutSyncPrintf chunk = .request (.osEPiReadIo magicAdrs) (afterMagic chunk) :=
  rfl

/-- The requests a call can make, whatever it reads. -/
theorem isProutSyncPrintf_every {P : Request → Prop}
    (hpoll : P (.osEPiReadIo magicAdrs) ∧ P (.osEPiReadIo getAdrs) ∧
      P (.osEPiReadIo putAdrs))
    (hread : ∀ start, P (.osEPiReadIo (charAdrs start)))
    (hwrite : ∀ start data, P (.osEPiWriteIo .character (charAdrs start) data))
    (hpublish : ∀ start, P (.osEPiWriteIo .header putAdrs start)) (chunk : Chunk) :
    (isProutSyncPrintf chunk).Every P := by
  have hcopy : ∀ str start, (copyLoop str start).Every P := by
    intro str
    induction str with
    | nil => exact fun _ => trivial
    | cons c str ih =>
        intro start
        by_cases hc : c = 0
        · rw [hc, copyLoop_zero]
          exact ih start
        · rw [copyLoop_cons hc]
          exact ⟨hread start, fun data => ⟨hwrite start _, fun _ => ih (advance start)⟩⟩
  have hpublishing : ∀ str start, (publish str start).Every P := fun str start =>
    (hcopy str start).bind fun last => ⟨hpublish last, fun _ => trivial⟩
  refine ⟨hpoll.1, fun data => ?_⟩
  change (afterMagic chunk data).Every P
  rw [afterMagic]
  split_ifs
  · trivial
  · refine ⟨hpoll.2.1, fun pos => ⟨hpoll.2.2, fun start => ?_⟩⟩
    beta_reduce
    split_ifs
    · trivial
    · exact hpublishing chunk.str start

/-! ## The print functions -/

/-- What the game's formatter makes of a format and its arguments: the chunks
it hands to its callback, and the value it returns. -/
structure Text where
  chunks : List Chunk
  ret : S32

def handOver (pfn : Chunk → Pi U32) : List Chunk → Pi Unit
  | [] => return ()
  | chunk :: chunks => do
      let _ ← (.perform (.pfn chunk) : Pi U32)
      let _ ← pfn chunk
      handOver pfn chunks

/-- The game's `_Printf`. -/
def gamePrintf (pfn : Chunk → Pi U32) (text : Text) : Pi S32 := do
  handOver pfn text.chunks
  return text.ret

/-- `INITIALIZE()`: the static `isInitialized` before and after it. -/
def initializeOnce (isInitialized : Bool) : Pi Bool := do
  if !isInitialized then
    isPrintfInit
  return true

/-- The static `isInitialized` is passed along with the returned value. -/
def n64WrapperVprintf (text : Text) (isInitialized : Bool) : Pi (S32 × Bool) := do
  let isInitialized ← initializeOnce isInitialized
  let ret ← gamePrintf isProutSyncPrintf text
  return (ret, isInitialized)

def n64WrapperPrintf (text : Text) (isInitialized : Bool) : Pi (S32 × Bool) := do
  let isInitialized ← initializeOnce isInitialized
  n64WrapperVprintf text isInitialized

/-- The game's `vsprintf` formats into memory and leaves the device alone; of
it only the returned value matters here. -/
def n64WrapperVsprintf (ret : S32) (isInitialized : Bool) : Pi (S32 × Bool) := do
  let isInitialized ← initializeOnce isInitialized
  return (ret, isInitialized)

def n64WrapperSprintf (ret : S32) (isInitialized : Bool) : Pi (S32 × Bool) := do
  let isInitialized ← initializeOnce isInitialized
  n64WrapperVsprintf ret isInitialized

/-- One call of a print function of the wrapper. -/
inductive Call
  | vprintf (text : Text)
  | printf (text : Text)
  | vsprintf (ret : S32)
  | sprintf (ret : S32)

/-- The call's program; the server's memory between calls is the value last
returned together with `isInitialized`. -/
def Call.body : Call → S32 × Bool → Pi (S32 × Bool)
  | .vprintf text, memory => n64WrapperVprintf text memory.2
  | .printf text, memory => n64WrapperPrintf text memory.2
  | .vsprintf ret, memory => n64WrapperVsprintf ret memory.2
  | .sprintf ret, memory => n64WrapperSprintf ret memory.2

/-- The chunks that a call hands to `is_proutSyncPrintf`. -/
def Call.chunks : Call → List Chunk
  | .vprintf text => text.chunks
  | .printf text => text.chunks
  | .vsprintf _ => []
  | .sprintf _ => []

def Call.ret : Call → S32
  | .vprintf text => text.ret
  | .printf text => text.ret
  | .vsprintf ret => ret
  | .sprintf ret => ret

/-- All four functions initialise if nobody has, then hand over their chunks:
`Printf` and `Sprintf` test `isInitialized` twice, to the same effect. -/
theorem Call.body_eq (call : Call) (memory : S32 × Bool) :
    call.body memory =
      initializeOnce memory.2 >>= fun _ =>
        handOver isProutSyncPrintf call.chunks >>= fun _ =>
          .ret (call.ret, true) := by
  obtain ⟨_, isInitialized⟩ := memory
  cases call <;> cases isInitialized <;>
    simp [Call.body, Call.chunks, Call.ret, n64WrapperPrintf, n64WrapperVprintf,
      n64WrapperSprintf, n64WrapperVsprintf, gamePrintf, handOver, initializeOnce]

theorem handOver_run_cons {State : Type} (exec : Request → State → U32 × State)
    (pfn : Chunk → Pi U32) (chunk : Chunk) (chunks : List Chunk) (s : State) :
    (handOver pfn (chunk :: chunks)).run exec s =
      (handOver pfn chunks).run exec ((pfn chunk).run exec (exec (.pfn chunk) s).2).2 :=
  Program.run_bind exec (pfn chunk) (fun _ => handOver pfn chunks) (exec (.pfn chunk) s).2

theorem Call.body_run {State : Type} (exec : Request → State → U32 × State) (call : Call)
    (memory : S32 × Bool) (s : State) :
    (call.body memory).run exec s = ((call.ret, true),
      ((handOver isProutSyncPrintf call.chunks).run exec
        ((initializeOnce memory.2).run exec s).2).2) := by
  rw [Call.body_eq, Program.run_bind, Program.run_bind]
  rfl

end N64San.IsViewer
