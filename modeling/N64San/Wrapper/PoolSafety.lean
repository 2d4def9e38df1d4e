import N64San.Wrapper.Callback
import N64San.Wrapper.Pool
import N64San.Wrapper.Sequential

/-!
# Threads keep the window

Messages of concurrent threads may be lost, but the window is not: beside any
number of other threads and a meddling host, no thread uses the handle before
it is set, leaves the ring, or initialises the device twice.
-/

namespace N64San.IsViewer

open BigEndian Transaction Relation

/-! ## What one thread does over its whole life -/

/-- The access belongs to `isPrintfInit` or ends `INITIALIZE()`. -/
def Access.Initialises : Access → Prop
  | .bus .osCartRomInit => True
  | .bus (.osEPiWriteIo _ devAddr _) => devAddr = getAdrs ∨ devAddr = magicAdrs
  | .storeISVHandle => True
  | .storeIsInitialized => True
  | _ => False

/-- The accesses of an `INITIALIZE()` that finds `isInitialized` false. -/
def initAccesses : List Access :=
  [.loadIsInitialized, .bus .osCartRomInit, .storeISVHandle,
    .bus (.osEPiWriteIo .header putAdrs 0), .bus (.osEPiWriteIo .header getAdrs 0),
    .bus (.osEPiWriteIo .header magicAdrs is64), .storeIsInitialized]

/-- One initialisation at most, complete, and before everything else. -/
def InitialisesFirst (history : List Access) : Prop :=
  ∃ rest, (history = rest ∨ history = initAccesses ++ rest) ∧
    ∀ access ∈ rest, ¬ access.Initialises

theorem InitialisesFirst.concat {history : List Access} (h : InitialisesFirst history)
    {access : Access} (haccess : ¬ access.Initialises) :
    InitialisesFirst (history ++ [access]) := by
  obtain ⟨rest, hhistory, hrest⟩ := h
  refine ⟨rest ++ [access], ?_, ?_⟩
  · rcases hhistory with rfl | rfl
    · exact Or.inl rfl
    · exact Or.inr (List.append_assoc _ _ _)
  · intro other hother
    rcases List.mem_append.mp hother with hold | hnew
    · exact hrest other hold
    · rw [List.mem_singleton.mp hnew]
      exact haccess

section Threads

variable {ι : Type} {i : ι} {s : Shared ι}

/-- What holds of thread `i` at every point. -/
structure Coherent (i : ι) (s : Shared ι) : Prop where
  sound : s.Sound
  history : s.history i <+: initAccesses ∨ InitialisesFirst (s.history i)

/-- Thread `i` has passed an `INITIALIZE()`. -/
structure Printing (i : ι) (s : Shared ι) : Prop where
  sound : s.Sound
  initialized : s.isInitialized = true
  history : InitialisesFirst (s.history i)

/-- Thread `i` is between calls: it has not made one yet, or it has passed an
`INITIALIZE()`. -/
structure Idle (i : ι) (s : Shared ι) : Prop where
  sound : s.Sound
  history : s.history i = [] ∨ s.isInitialized = true ∧ InitialisesFirst (s.history i)

/-- Thread `i` has found `isInitialized` false and has made the first `n` of
the initialising accesses. -/
structure Initialisation (i : ι) (n : ℕ) (s : Shared ι) : Prop where
  sound : s.Sound
  history : s.history i = initAccesses.take n
  handle : 3 ≤ n → s.isvHandle = true
  put : 4 ≤ n → putIndex s.device < ringSize
  magic : 6 ≤ n → magicWord s.device = is64

theorem Printing.coherent (h : Printing i s) : Coherent i s :=
  ⟨h.sound, Or.inr h.history⟩

theorem Printing.ready (h : Printing i s) : s.Ready :=
  h.sound h.initialized

theorem Printing.idle (h : Printing i s) : Idle i s :=
  ⟨h.sound, Or.inr ⟨h.initialized, h.history⟩⟩

theorem Idle.coherent (h : Idle i s) : Coherent i s where
  sound := h.sound
  history := by
    rcases h.history with hnil | ⟨_, hfirst⟩
    · rw [hnil]
      exact Or.inl List.nil_prefix
    · exact Or.inr hfirst

theorem Initialisation.coherent {n : ℕ} (h : Initialisation i n s) : Coherent i s where
  sound := h.sound
  history := by
    rw [h.history]
    exact Or.inl (List.take_prefix n initAccesses)

theorem Initialisation.printing (h : Initialisation i 7 s)
    (hinitialized : s.isInitialized = true) : Printing i s where
  sound := h.sound
  initialized := hinitialized
  history := ⟨[], Or.inr (by rw [h.history]; rfl), by simp⟩

variable [DecidableEq ι]

theorem Printing.stable (i : ι) : Stable (threadSetting i) (Printing i) := by
  intro s t hst h
  exact {
    sound := hst.sound h.sound
    initialized := hst.initialized h.initialized
    history := by
      rw [hst.history]
      exact h.history }

theorem Idle.stable (i : ι) : Stable (threadSetting i) (Idle i) := by
  intro s t hst h
  refine ⟨hst.sound h.sound, ?_⟩
  rw [hst.history]
  exact h.history.imp_right (And.imp_left hst.initialized)

theorem Initialisation.stable (i : ι) (n : ℕ) :
    Stable (threadSetting i) (Initialisation i n) := by
  intro s t hst h
  exact {
    sound := hst.sound h.sound
    history := hst.history.trans h.history
    handle := fun hn => hst.handle (h.handle hn)
    put := fun hn => hst.put (h.put hn)
    magic := fun hn => hst.magic (h.magic hn) }

theorem Shared.history_exec (i : ι) (access : Access) (s : Shared ι) :
    (Shared.exec i access s).2.history i = s.history i ++ [access] :=
  Function.update_self i _ s.history

/-- A thread that keeps its guarantees and stays coherent. -/
abbrev ThreadSafe {A : Type} (i : ι) (post : A → Shared ι → Prop) :
    Thread A → Shared ι → Prop :=
  Safe (threadSetting i) (Guarantees i) (Coherent i) post

/-- The next access of a printing thread. -/
theorem Printing.exec {access : Access} (h : Printing i s) (hadmissible : access.Admissible s)
    (hkeeps : access.KeepsHeader s) (hinitialises : ¬ access.Initialises) :
    Printing i (Shared.exec i access s).2 where
  sound := h.sound.exec hadmissible hkeeps i
  initialized := (s.apply_statics access).1 h.initialized
  history := by
    rw [Shared.history_exec]
    exact h.history.concat hinitialises

/-- The next initialising access. -/
theorem Initialisation.exec {n : ℕ} {access : Access} (h : Initialisation i n s)
    (hnext : initAccesses[n]? = some access) (hadmissible : access.Admissible s)
    (hkeeps : access.KeepsHeader s)
    (hhandle : 3 ≤ n + 1 → (s.apply access).2.isvHandle = true)
    (hput : 4 ≤ n + 1 → putIndex (s.apply access).2.device < ringSize)
    (hmagic : 6 ≤ n + 1 → magicWord (s.apply access).2.device = is64) :
    Initialisation i (n + 1) (Shared.exec i access s).2 where
  sound := h.sound.exec hadmissible hkeeps i
  history := by
    rw [Shared.history_exec, h.history, List.take_add_one, hnext]
    rfl
  handle := hhandle
  put := hput
  magic := hmagic

variable {A : Type} {post : A → Shared ι → Prop}

/-- The rule for a request of a printing thread. -/
theorem Printing.request {access : Access} {next : U32 → Thread A} (h : Printing i s)
    (hinitialises : ¬ access.Initialises)
    (hadmissible : ∀ t : Shared ι, t.Ready → access.Admissible t)
    (hkeeps : ∀ t : Shared ι, access.KeepsHeader t)
    (hnext : ∀ t, Printing i t → Printing i (Shared.exec i access t).2 →
      ThreadSafe i post (next (Shared.exec i access t).1) (Shared.exec i access t).2) :
    ThreadSafe i post (.request access next) s :=
  Safe.request (Printing.stable i) h (fun _ ht => ht.coherent)
    (fun t ht => guarantees_of_keepsHeader (hadmissible t ht.ready) (hkeeps t))
    fun t ht _ => hnext t ht
      (ht.exec (hadmissible t ht.ready) (hkeeps t) hinitialises)

theorem printing_ret (value : A) (h : Printing i s) :
    ThreadSafe i (fun _ t => Printing i t) (.ret value) s :=
  Safe.ret (Printing.stable i) h (fun _ ht => ht.coherent) (fun _ ht => ht)

/-- A word of the window may be read through a handle that is set. -/
theorem Printing.read {devAddr : U32} {next : U32 → Thread A} (h : Printing i s)
    (hconfined : InISVDbg devAddr)
    (hnext : ∀ t, Printing i t →
      Printing i (Shared.exec i (.bus (.osEPiReadIo devAddr)) t).2 →
      ThreadSafe i post (next (readWord t.device devAddr))
        (Shared.exec i (.bus (.osEPiReadIo devAddr)) t).2) :
    ThreadSafe i post (.request (.bus (.osEPiReadIo devAddr)) next) s :=
  h.request (fun hinit => hinit) (fun _ ht => ⟨hconfined, fun _ => ht.handle⟩)
    (fun t => keepsHeader_of_device t rfl) hnext

/-! ## The callback as a thread -/

theorem copyLoop_threadSafe (str : List Byte) {start : S32} (hstart : start.toNat < ringSize)
    (h : Printing i s) :
    ThreadSafe i (fun last t => last.toNat < ringSize ∧ Printing i t)
      ((copyLoop str start).translate Thread.transact) s := by
  induction str generalizing start s with
  | nil =>
      exact Safe.ret (Printing.stable i) h (fun _ ht => ht.coherent)
        (fun _ ht => ⟨hstart, ht⟩)
  | cons c str ih =>
      by_cases hc : c = 0
      · rw [hc, copyLoop_zero]
        exact ih hstart h
      · rw [copyLoop_cons hc]
        have hadrs := inISVDbg_charAdrs hstart
        obtain ⟨hmagic, hget, _⟩ := header_ne_charAdrs start
        refine h.read hadrs.1 fun t _ ht => ?_
        refine ht.request ?_ (fun _ hu => ⟨hadrs, fun _ => hu.handle⟩)
          (fun u => keepsHeader_character u _) fun u _ hu => ?_
        · exact not_or.mpr ⟨hget, hmagic⟩
        · exact ih (toNat_advance_lt hstart) hu

theorem publish_threadSafe (str : List Byte) {start : S32}
    (hstart : start.toNat < ringSize) (h : Printing i s) :
    ThreadSafe i (fun _ t => Printing i t)
      ((publish str start).translate Thread.transact) s := by
  rw [publish, Program.translate_bind]
  refine Safe.seq (copyLoop_threadSafe str hstart h) fun last t hlast => ?_
  have hput : putAdrs ≠ getAdrs ∧ putAdrs ≠ magicAdrs := by decide
  refine Safe.request (Printing.stable i) hlast.2 (fun _ hu => hu.coherent)
    (fun u hu => guarantees_of_keepsHeader
      ⟨inISVDbg_header.2.2, fun _ => hu.ready.handle⟩ (keepsHeader_put u hlast.1))
    fun u hu _ => ?_
  exact printing_ret 1 (hu.exec ⟨inISVDbg_header.2.2, fun _ => hu.ready.handle⟩
    (keepsHeader_put u hlast.1) (not_or.mpr hput))

theorem isProutSyncPrintf_threadSafe (chunk : Chunk) (h : Printing i s) :
    ThreadSafe i (fun _ t => Printing i t)
      ((isProutSyncPrintf chunk).translate Thread.transact) s := by
  refine h.read inISVDbg_header.1 fun t _ ht => ?_
  change ThreadSafe i _
    ((afterMagic chunk (readWord t.device magicAdrs)).translate Thread.transact) _
  rw [afterMagic]
  split_ifs
  · exact printing_ret 1 ht
  · refine ht.read inISVDbg_header.2.1 fun u _ hu => ?_
    refine hu.read inISVDbg_header.2.2 fun v hstart hv => ?_
    -- `put` is inside the ring whoever wrote it last.
    change ThreadSafe i _ ((if noRoom (readWord u.device getAdrs) (readWord v.device putAdrs)
      chunk.count then .ret 1
      else publish chunk.str (readWord v.device putAdrs) : Pi U32).translate _) _
    split_ifs
    · exact printing_ret 1 hv
    · exact publish_threadSafe chunk.str hstart.ready.put_lt hv

theorem handOver_threadSafe (chunks : List Chunk) (h : Printing i s) :
    ThreadSafe i (fun _ t => Printing i t)
      ((handOver isProutSyncPrintf chunks).translate Thread.transact) s := by
  induction chunks generalizing s with
  | nil => exact printing_ret () h
  | cons chunk chunks ih =>
      refine h.request (fun hinit => hinit) (fun _ _ => ⟨trivial, fun huses => huses.elim⟩)
        (fun t => keepsHeader_of_device t rfl) fun t _ ht => ?_
      change ThreadSafe i _ ((isProutSyncPrintf chunk >>= fun _ =>
        handOver isProutSyncPrintf chunks).translate Thread.transact) _
      rw [Program.translate_bind]
      exact Safe.seq (isProutSyncPrintf_threadSafe chunk ht) fun _ u hu => ih hu

theorem gamePrintf_threadSafe (text : Text) (h : Printing i s) :
    ThreadSafe i (fun _ t => Printing i t)
      ((gamePrintf isProutSyncPrintf text).translate Thread.transact) s := by
  rw [gamePrintf, Program.translate_bind]
  exact Safe.seq (handOver_threadSafe text.chunks h) fun _ t ht => printing_ret text.ret ht

/-! ## Initialisation as a thread -/

/-- The rule for the next initialising access. -/
theorem Initialisation.request {n : ℕ} {access : Access} {next : U32 → Thread A}
    (h : Initialisation i n s) (hlist : initAccesses[n]? = some access)
    (hkeeps : ∀ t : Shared ι, access.KeepsHeader t)
    (hset : ∀ t : Shared ι, Initialisation i n t → access.Admissible t ∧
      (3 ≤ n + 1 → (t.apply access).2.isvHandle = true) ∧
      (4 ≤ n + 1 → putIndex (t.apply access).2.device < ringSize) ∧
      (6 ≤ n + 1 → magicWord (t.apply access).2.device = is64))
    (hnext : ∀ t, Initialisation i (n + 1) (Shared.exec i access t).2 →
      ThreadSafe i post (next (Shared.exec i access t).1) (Shared.exec i access t).2) :
    ThreadSafe i post (.request access next) s :=
  Safe.request (Initialisation.stable i n) h (fun _ ht => ht.coherent)
    (fun t ht => guarantees_of_keepsHeader (hset t ht).1 (hkeeps t))
    fun t ht _ => by
      obtain ⟨hadmissible, hhandle, hput, hmagic⟩ := hset t ht
      exact hnext t (ht.exec hlist hadmissible (hkeeps t) hhandle hput hmagic)

theorem initialisation_ret {n : ℕ} (value : A) (h : Initialisation i n s) :
    ThreadSafe i (fun _ t => Initialisation i n t) (.ret value) s :=
  Safe.ret (Initialisation.stable i n) h (fun _ ht => ht.coherent) (fun _ ht => ht)

/-- A thread that has found `isInitialized` false initialises the device,
whatever the others have initialised meanwhile. -/
theorem isPrintfInit_threadSafe (h : Initialisation i 1 s) :
    ThreadSafe i (fun _ t => Initialisation i 6 t)
      (isPrintfInit.translate Thread.transact) s := by
  obtain ⟨hmagicIn, hgetIn, hputIn⟩ := inISVDbg_header
  refine h.request rfl (fun t => keepsHeader_of_device t rfl) (fun t _ => ?_) fun t ht => ?_
  · exact ⟨⟨trivial, fun huses => huses.elim⟩, by simp, by simp, by simp⟩
  refine ht.request rfl (fun t => keepsHeader_of_device t rfl) (fun t _ => ?_) fun u hu => ?_
  · exact ⟨trivial, fun _ => rfl, by simp, by simp⟩
  refine hu.request rfl (fun t => keepsHeader_put t (by decide)) (fun t ht => ?_)
    fun v hv => ?_
  · refine ⟨⟨hputIn, fun _ => ht.handle le_rfl⟩, fun _ => ht.handle le_rfl, fun _ => ?_,
      by simp⟩
    change (putWord (writeWord t.device putAdrs 0)).toNat < _
    rw [putWord_write_put]
    decide
  refine hv.request rfl (fun t => keepsHeader_get t 0) (fun t ht => ?_) fun w hw => ?_
  · exact ⟨⟨hgetIn, fun _ => ht.handle (by decide)⟩, fun _ => ht.handle (by decide),
      fun _ => (keepsHeader_get t 0).put (ht.put le_rfl), by simp⟩
  refine hw.request rfl keepsHeader_magic (fun t ht => ?_) fun x hx => ?_
  · exact ⟨⟨hmagicIn, fun _ => ht.handle (by decide)⟩, fun _ => ht.handle (by decide),
      fun _ => (keepsHeader_magic t).put (ht.put (by decide)),
      fun _ => magicWord_write_magic t.device is64⟩
  exact initialisation_ret () hx

/-- `INITIALIZE()` beside other threads that may be in it as well. -/
theorem initializeOnce_threadSafe (h : Idle i s) :
    ThreadSafe i (fun _ t => Printing i t) Thread.initializeOnce s := by
  refine Safe.request (Idle.stable i) h (fun _ ht => ht.coherent)
    (fun t _ => guarantees_of_keepsHeader trivial (keepsHeader_of_device t rfl))
    fun t ht _ => ?_
  have hadmissible : Access.loadIsInitialized.Admissible t := trivial
  have hsound : (Shared.exec i .loadIsInitialized t).2.Sound :=
    ht.sound.exec hadmissible (keepsHeader_of_device t rfl) i
  have hhistory : (Shared.exec i .loadIsInitialized t).2.history i =
      t.history i ++ [.loadIsInitialized] := Shared.history_exec i _ t
  cases hflag : t.isInitialized with
  | true =>
      have hreply : (Shared.exec i .loadIsInitialized t).1 = 1 := if_pos hflag
      change ThreadSafe i _ (if (Shared.exec i .loadIsInitialized t).1 = 0 then _ else _) _
      rw [hreply, if_neg (by decide)]
      have hfirst : InitialisesFirst (t.history i) := by
        rcases ht.history with hnil | hold
        · exact ⟨[], Or.inl hnil, by simp⟩
        · exact hold.2
      have hquiet : ¬ Access.loadIsInitialized.Initialises := fun hinit => hinit
      have hfirst' := hfirst.concat hquiet
      rw [← hhistory] at hfirst'
      exact printing_ret () ⟨hsound, hflag, hfirst'⟩
  | false =>
      have hreply : (Shared.exec i .loadIsInitialized t).1 = 0 := if_neg (by simp [hflag])
      change ThreadSafe i _ (if (Shared.exec i .loadIsInitialized t).1 = 0 then _ else _) _
      rw [hreply, if_pos rfl]
      have hbegin : Initialisation i 1 (Shared.exec i .loadIsInitialized t).2 := {
        sound := hsound
        history := by
          rcases ht.history with hnil | hold
          · rw [hhistory, hnil]
            rfl
          · exact absurd hold.1 (by simp [hflag])
        handle := by simp
        put := by simp
        magic := by simp }
      refine Safe.seq (isPrintfInit_threadSafe hbegin) fun _ u hu => ?_
      have hready : ∀ v : Shared ι, Initialisation i 6 v → v.Ready := fun v hv =>
        ⟨hv.handle (by decide), hv.magic le_rfl, hv.put (by decide)⟩
      refine Safe.request (Initialisation.stable i 6) hu (fun _ hv => hv.coherent)
        (fun v hv => guarantees_of_keepsHeader (hready v hv) (keepsHeader_of_device v rfl))
        fun v hv _ => ?_
      have hlast : Initialisation i 7 (Shared.exec i .storeIsInitialized v).2 :=
        hv.exec rfl (hready v hv) (keepsHeader_of_device v rfl)
          (fun _ => (hready v hv).handle) (fun _ => (hready v hv).put_lt)
          (fun _ => (hready v hv).magic)
      exact printing_ret () (hlast.printing rfl)

/-- Every call of a print function, from an idle thread to an idle thread. -/
theorem Call.thread_safe (call : Call) (h : Idle i s) :
    ThreadSafe i (fun _ t => Idle i t) call.thread s := by
  have hret : ∀ (ret : S32) (t : Shared ι), Printing i t →
      ThreadSafe i (fun _ u => Idle i u) (.ret ret) t := fun ret t ht =>
    (printing_ret ret ht).mono (fun _ _ hg => hg) (fun _ hc => hc) fun _ _ _ hu => hu.idle
  have htext : ∀ (text : Text) (t : Shared ι), Printing i t →
      ThreadSafe i (fun _ u => Idle i u)
        ((gamePrintf isProutSyncPrintf text).translate Thread.transact) t := fun text t ht =>
    (gamePrintf_threadSafe text ht).mono (fun _ _ hg => hg) (fun _ hc => hc)
      fun _ _ _ hu => hu.idle
  cases call with
  | vprintf text => exact Safe.seq (initializeOnce_threadSafe h) fun _ => htext text
  | printf text =>
      exact Safe.seq (initializeOnce_threadSafe h) fun _ t ht =>
        Safe.seq (initializeOnce_threadSafe ht.idle) fun _ => htext text
  | vsprintf ret => exact Safe.seq (initializeOnce_threadSafe h) fun _ => hret ret
  | sprintf ret =>
      exact Safe.seq (initializeOnce_threadSafe h) fun _ t ht =>
        Safe.seq (initializeOnce_threadSafe ht.idle) fun _ => hret ret

end Threads

/-! ## The pool -/

section Runs

variable {ι : Type} [DecidableEq ι]

/-- All threads idle, nothing initialised, and anything in the device. -/
def poolPowerOn (device : Device) : Config ι Access U32 (Shared ι) S32 :=
  (fun _ => .ret 0, ⟨device, false, false, fun _ => []⟩)

/-- Steps of threads that call print functions, beside a given host. -/
abbrev PoolSteps (host : Shared ι → Shared ι → Prop) :
    Config ι Access U32 (Shared ι) S32 → Config ι Access U32 (Shared ι) S32 → Prop :=
  ReflTransGen (PoolStep threadSetting host fun _ program =>
    ∃ call : Call, program = call.thread)

/-- The configurations that the threads can reach, in any interleaving with one
another and with the host. -/
abbrev PoolRuns (device : Device) (c : Config ι Access U32 (Shared ι) S32) : Prop :=
  PoolSteps HostInterferes (poolPowerOn device) c

theorem PoolRuns.allSafe {device : Device} {c : Config ι Access U32 (Shared ι) S32}
    (hruns : PoolRuns device c) :
    AllSafe threadSetting Guarantees Coherent (fun i _ s => Idle i s) c := by
  refine AllSafe.steps (fun i _ _ h => h.relies i) (fun i j hj access s h => h.others j hj)
    ?_ ?_ hruns
  · rintro i _ ⟨call, rfl⟩ value s _ hidle
    exact call.thread_safe hidle
  · intro i
    have hidle : Idle i (poolPowerOn (ι := ι) device).2 :=
      ⟨fun hflag => absurd hflag (by simp [poolPowerOn]), Or.inl rfl⟩
    exact Safe.ret (Idle.stable i) hidle (fun _ ht => ht.coherent) (fun _ ht => ht)

/-- Whatever the threads call and however they interleave with one another and
with the host, a transaction that a thread is about to make stays inside the
window, a character write inside the ring, and it goes through a handle that
has been set; once `isInitialized` is set, the magic word stands and `put` is
an index of the ring. -/
theorem threads_keep_window {device : Device} {pool : ι → Thread S32} {s : Shared ι}
    (hruns : PoolRuns device (pool, s)) (i : ι) :
    (∀ request next, pool i = .request (.bus request) next →
        request.Confined ∧ (request.UsesHandle → s.isvHandle = true)) ∧
      (s.isInitialized = true → s.isvHandle = true ∧ magicWord s.device = is64 ∧
        putIndex s.device < ringSize) := by
  have hsafe := hruns.allSafe i
  refine ⟨fun request next hi => ?_, fun hflag => ?_⟩
  · change ThreadSafe i _ (pool i) s at hsafe
    rw [hi] at hsafe
    exact (hsafe.requested trivial).admissible
  · obtain ⟨hhandle, hmagic, hput⟩ := hsafe.holds.sound hflag
    exact ⟨hhandle, hmagic, hput⟩

/-- Two threads that have begun a call each. -/
def begun : Config Bool Access U32 (Shared Bool) S32 :=
  (Function.update (Function.update (fun _ => .ret 0) false (Call.sprintf 0).thread) true
    (Call.printf ⟨[letter 'b'], 1⟩).thread, (poolPowerOn fun _ => 0xFF).2)

/-- The first thread has found `isInitialized` false.  Then the second one has
initialised the device and printed the letter, and now the first one is about to
initialise it again. -/
def racing : Config Bool Access U32 (Shared Bool) S32 :=
  runThreads threadSetting ([false] ++ .replicate 15 true ++ [false, false]) begun

theorem racing_runs : PoolRuns (fun _ => 0xFF) racing := by
  have hfirst : PoolRuns (fun _ => 0xFF) (Function.update (fun _ => .ret 0) false
      (Call.sprintf 0).thread, (poolPowerOn fun _ => 0xFF).2) :=
    .single (.call false rfl ⟨_, rfl⟩)
  have hbegun : PoolRuns (fun _ => 0xFF) begun := hfirst.tail (.call true rfl ⟨_, rfl⟩)
  exact hbegun.trans (runThreads_steps (fun _ _ _ => trivial) _ begun)

theorem threads_keep_window_racing :
    (InISVDbg putAdrs ∧ racing.2.isvHandle = true) ∧
      magicWord racing.2.device = is64 ∧ putIndex racing.2.device < ringSize := by
  obtain ⟨hrequests, hready⟩ := threads_keep_window racing_runs false
  obtain ⟨hconfined, hhandle⟩ := hrequests (.osEPiWriteIo .header putAdrs 0) _ rfl
  exact ⟨⟨hconfined, hhandle trivial⟩, (hready (by decide)).2⟩

/-- Each thread initialises the device at most once, completely, and before it
does anything else. -/
theorem threads_initialise_first {device : Device} {pool : ι → Thread S32} {s : Shared ι}
    (hruns : PoolRuns device (pool, s)) (i : ι) :
    s.history i <+: initAccesses ∨ InitialisesFirst (s.history i) :=
  (hruns.allSafe i).holds.history

theorem threads_initialise_first_racing :
    racing.2.history false <+: initAccesses ∨ InitialisesFirst (racing.2.history false) :=
  threads_initialise_first racing_runs false

end Runs

end N64San.IsViewer
