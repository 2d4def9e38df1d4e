import N64San.Core.Parallel
import N64San.Wrapper.Confinement

/-!
# Any number of printing threads

The print functions share two statics, `isInitialized` and `sISVHandle`, and
take no lock.  Here every transaction, every access to `isInitialized` and the
store to `sISVHandle` is a step of its own, and other threads and the host act
between these steps; a load of `sISVHandle` is part of the transaction that goes
through it.  A thread that is alone does what the functions do that pass the
static along; beside others it relies on a few facts that nobody takes back.
-/

namespace N64San.IsViewer

open BigEndian Transaction

/-- One access to what the threads share: a transaction, or a load or store of
a static. -/
inductive Access
  | bus (request : Request)
  | loadIsInitialized
  | storeIsInitialized
  | storeISVHandle

abbrev Thread := Program Access U32

namespace Thread

/-- The transactions go through `sISVHandle`, which `isPrintfInit` stores. -/
def transact : Request → Thread U32
  | .osCartRomInit => do
      let handle ← .perform (.bus .osCartRomInit)
      let _ ← .perform .storeISVHandle
      return handle
  | request => .perform (.bus request)

/-- `INITIALIZE()`. -/
def initializeOnce : Thread Unit := do
  let isInitialized ← .perform .loadIsInitialized
  if isInitialized = 0 then
    isPrintfInit.translate transact
    let _ ← .perform .storeIsInitialized

def n64WrapperVprintf (text : Text) : Thread S32 := do
  initializeOnce
  (gamePrintf isProutSyncPrintf text).translate transact

def n64WrapperPrintf (text : Text) : Thread S32 := do
  initializeOnce
  n64WrapperVprintf text

def n64WrapperVsprintf (ret : S32) : Thread S32 := do
  initializeOnce
  return ret

def n64WrapperSprintf (ret : S32) : Thread S32 := do
  initializeOnce
  n64WrapperVsprintf ret

end Thread

def Call.thread : Call → Thread S32
  | .vprintf text => .n64WrapperVprintf text
  | .printf text => .n64WrapperPrintf text
  | .vsprintf ret => .n64WrapperVsprintf ret
  | .sprintf ret => .n64WrapperSprintf ret

/-- What the threads share, and what each of them has done.  `sISVHandle` is
NULL or the one handle that `osCartRomInit` returns. -/
structure Shared (ι : Type) where
  device : Device
  isInitialized : Bool
  isvHandle : Bool
  history : ι → List Access

namespace Shared

variable {ι : Type} [DecidableEq ι]

/-- The effect of an access, whoever makes it. -/
def apply : Access → Shared ι → U32 × Shared ι
  | .bus request, s =>
      let (reply, device) := IsViewer.exec request s.device
      (reply, { s with device })
  | .loadIsInitialized, s => (if s.isInitialized then 1 else 0, s)
  | .storeIsInitialized, s => (0, { s with isInitialized := true })
  | .storeISVHandle, s => (0, { s with isvHandle := true })

/-- An access of thread `i`. -/
def exec (i : ι) (access : Access) (s : Shared ι) : U32 × Shared ι :=
  let (reply, t) := s.apply access
  (reply, { t with history := Function.update s.history i (s.history i ++ [access]) })

/-- Everything a thread needs before it may use the ring. -/
structure Ready (s : Shared ι) : Prop where
  handle : s.isvHandle = true
  magic : magicWord s.device = is64
  put_lt : putIndex s.device < ringSize

/-- `isInitialized` does not promise too much. -/
def Sound (s : Shared ι) : Prop :=
  s.isInitialized = true → s.Ready

end Shared

section Bridge

variable {ι : Type} [DecidableEq ι] (i : ι)

end Bridge

/-! ## What the threads rely on -/

/-- The request goes through `sISVHandle`. -/
def Request.UsesHandle : Request → Prop
  | .osEPiReadIo _ => True
  | .osEPiWriteIo _ _ _ => True
  | _ => False

/-- An access that does no harm: a transaction inside the window through a
handle that is set; a store to `isInitialized` when everything is ready. -/
def Access.Admissible {ι : Type} : Access → Shared ι → Prop
  | .bus request, s => request.Confined ∧ (request.UsesHandle → s.isvHandle = true)
  | .storeIsInitialized, s => s.Ready
  | _, _ => True

section Relies

variable {ι : Type}

/-- What thread `i` relies on: the others neither act in its name nor take back
what has been set up. -/
structure Relies (i : ι) (s t : Shared ι) : Prop where
  history : t.history i = s.history i
  initialized : s.isInitialized = true → t.isInitialized = true
  handle : s.isvHandle = true → t.isvHandle = true
  magic : magicWord s.device = is64 → magicWord t.device = is64
  put : putIndex s.device < ringSize → putIndex t.device < ringSize
  sound : s.Sound → t.Sound

/-- The host does as it likes, `put` and the magic word apart. -/
def HostInterferes (s t : Shared ι) : Prop :=
  ∃ device, putWord device = putWord s.device ∧
    magicWord device = magicWord s.device ∧ t = { s with device }

theorem HostInterferes.relies {s t : Shared ι} (h : HostInterferes s t) (i : ι) :
    Relies i s t := by
  obtain ⟨device, hput, hmagic, rfl⟩ := h
  exact {
    history := rfl
    initialized := fun h => h
    handle := fun h => h
    magic := hmagic.trans
    put := fun h => by
      rw [putIndex, hput]
      exact h
    sound := fun hsound hflag => by
      obtain ⟨hhandle, hmagic', hput'⟩ := hsound hflag
      exact ⟨hhandle, hmagic.trans hmagic', by
        rw [putIndex, hput]
        exact hput'⟩ }

/-- The access keeps the magic word and keeps `put` inside the ring. -/
structure Access.KeepsHeader (access : Access) (s : Shared ι) : Prop where
  magic : magicWord s.device = is64 → magicWord (s.apply access).2.device = is64
  put : putIndex s.device < ringSize → putIndex (s.apply access).2.device < ringSize

/-- No access resets a static. -/
theorem Shared.apply_statics (access : Access) (s : Shared ι) :
    (s.isInitialized = true → (s.apply access).2.isInitialized = true) ∧
      (s.isvHandle = true → (s.apply access).2.isvHandle = true) := by
  cases access with
  | storeIsInitialized => exact ⟨fun _ => rfl, fun h => h⟩
  | storeISVHandle => exact ⟨fun h => h, fun _ => rfl⟩
  | _ => exact ⟨fun h => h, fun h => h⟩

theorem Access.KeepsHeader.ready {access : Access} {s : Shared ι}
    (h : access.KeepsHeader s) (hs : s.Ready) : (s.apply access).2.Ready where
  handle := (s.apply_statics access).2 hs.handle
  magic := h.magic hs.magic
  put_lt := h.put hs.put_lt

/-- Only a store sets `isInitialized`. -/
theorem Shared.isInitialized_of_apply {access : Access} {s : Shared ι}
    (h : (s.apply access).2.isInitialized = true) :
    s.isInitialized = true ∨ access = .storeIsInitialized := by
  cases access with
  | storeIsInitialized => exact Or.inr rfl
  | _ => exact Or.inl h

variable [DecidableEq ι]

/-- An access of one thread, as every other thread sees it. -/
structure Guarantees (i : ι) (access : Access) (s : Shared ι) : Prop where
  admissible : access.Admissible s
  others : ∀ j, j ≠ i → Relies j s (Shared.exec i access s).2

/-- The shared state as thread `i` sees it.  No access is refused: how long
`osEPiReadIo` and `osEPiWriteIo` take to come back is not looked at. -/
def threadSetting (i : ι) : Setting Access U32 (Shared ι) where
  exec := Shared.exec i
  env := Relies i
  permits _ _ := True

theorem Shared.Sound.exec {access : Access} {s : Shared ι} (hs : s.Sound)
    (hadmissible : access.Admissible s) (hkeeps : access.KeepsHeader s) (i : ι) :
    (Shared.exec i access s).2.Sound := by
  intro hflag
  have hready : (s.apply access).2.Ready := by
    rcases Shared.isInitialized_of_apply hflag with hold | rfl
    · exact hkeeps.ready (hs hold)
    · exact hkeeps.ready hadmissible
  exact ⟨hready.handle, hready.magic, hready.put_lt⟩

theorem guarantees_of_keepsHeader {i : ι} {access : Access} {s : Shared ι}
    (hadmissible : access.Admissible s) (hkeeps : access.KeepsHeader s) :
    Guarantees i access s where
  admissible := hadmissible
  others _ hj := {
    history := Function.update_of_ne hj _ _
    initialized := (s.apply_statics access).1
    handle := (s.apply_statics access).2
    magic := hkeeps.magic
    put := hkeeps.put
    sound := fun hs => hs.exec hadmissible hkeeps i }

end Relies

/-! ## One access at a time -/

section Kinds

variable {ι : Type} (s : Shared ι)

theorem keepsHeader_of_device {access : Access}
    (hdevice : (s.apply access).2.device = s.device) : access.KeepsHeader s where
  magic h := by rwa [hdevice]
  put h := by rwa [hdevice]

theorem keepsHeader_character {start : S32} (data : U32) :
    (Access.bus (.osEPiWriteIo .character (charAdrs start) data)).KeepsHeader s where
  magic h := (readWord_header_write_char s.device start data (by decide)).trans h
  put h := by
    have hput : putWord (writeWord s.device (charAdrs start) data) = putWord s.device :=
      readWord_header_write_char s.device start data (by decide)
    change (putWord (writeWord s.device (charAdrs start) data)).toNat < _
    rw [hput]
    exact h

theorem keepsHeader_put {start : S32} (hstart : start.toNat < ringSize) :
    (Access.bus (.osEPiWriteIo .header putAdrs start)).KeepsHeader s where
  magic h := (magicWord_write_put s.device start).trans h
  put _ := by
    change (putWord (writeWord s.device putAdrs start)).toNat < _
    rw [putWord_write_put]
    exact hstart

theorem keepsHeader_get (get : U32) :
    (Access.bus (.osEPiWriteIo .header getAdrs get)).KeepsHeader s where
  magic h := (magicWord_write_get s.device get).trans h
  put h := by
    change (putWord (writeWord s.device getAdrs get)).toNat < _
    rw [putWord_write_get]
    exact h

theorem keepsHeader_magic :
    (Access.bus (.osEPiWriteIo .header magicAdrs is64)).KeepsHeader s where
  magic _ := magicWord_write_magic s.device is64
  put h := by
    change (putWord (writeWord s.device magicAdrs is64)).toNat < _
    rw [putWord_write_magic]
    exact h

end Kinds

end N64San.IsViewer
