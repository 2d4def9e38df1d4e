import N64San.Wrapper.Interference

/-!
# The ring as a queue, over whole runs

From power-on, calls of the print functions and reads of the host follow one
another in any way; the host may also read in the middle of a call.  A ledger
relates the ring to the queue it implements: accepted bytes leave in order, as
long as no chunk fills the last free cell.  A chunk that does makes `put` meet
`get`, and the whole ring of bytes is lost.
-/

namespace N64San.IsViewer

open BigEndian CircularBuffer Transaction

/-- The ring of an initialised device against the queue it implements; `fills`
counts the chunks that filled the last free cell. -/
structure Ledger (s : Session) : Prop where
  magic : magicWord s.device = is64
  get_lt : getIndex s.device < ringSize
  put_lt : putIndex s.device < ringSize
  fifo : s.fills = 0 → s.total = s.accepted
  length : s.accepted.length = s.total.length + ringSize * s.fills

theorem Ledger.stable : Stable viewerSetting Ledger := by
  intro s t hst h
  have hframe : HostFrame s t := hst.frame h.get_lt h.put_lt
  exact {
    magic := hframe.magic.trans h.magic
    get_lt := hframe.get_lt
    put_lt := hframe.putIndex_eq.trans_lt h.put_lt
    fifo := by
      rw [hframe.fills, hframe.total, hframe.accepted]
      exact h.fifo
    length := by rw [hframe.accepted, hframe.total, hframe.fills, h.length] }

/-- A call balances the ledger again. -/
theorem Ledger.returned {s₀ s : Session} {chunk : Chunk} (h : Ledger s₀)
    (hreturned : Returned s₀ chunk s) : Ledger s := by
  have hlength := h.length
  refine {
    magic := hreturned.magic.trans h.magic
    get_lt := hreturned.get_lt
    put_lt := hreturned.put_lt
    fifo := ?_
    length := ?_ }
  · intro hfills
    cases hreturned.outcome with
    | kept _ total accepted fills _ =>
        rw [total, accepted]
        exact h.fifo (fills ▸ hfills)
    | appended _ total accepted fills =>
        rw [total, accepted, h.fifo (fills ▸ hfills)]
    | overrun _ _ _ _ fills => omega
  · cases hreturned.outcome with
    | kept _ total accepted fills _ => rw [accepted, total, fills, hlength]
    | appended _ total accepted fills =>
        rw [accepted, total, fills, List.length_append, List.length_append, hlength]
        omega
    | overrun _ _ total accepted fills =>
        rw [accepted, fills, List.length_append, hlength, Nat.mul_succ]
        omega

/-! ## Initialisation -/

/-- Nothing is promised about the steps of a run, only about its end. -/
abbrev Balanced {A : Type} (post : A → Session → Prop) : Pi A → Session → Prop :=
  Safe viewerSetting (fun _ _ => True) (fun _ => True) post

/-- With `put` and `get` both zero there is nothing for the host to read. -/
theorem zeroed_stable : Stable viewerSetting fun s =>
    putIndex s.device = 0 ∧ getIndex s.device = 0 := by
  rintro s t ⟨n, hn, rfl⟩ ⟨hput, hget⟩
  have hzero : n = 0 := by
    rw [pending, hput, hget, distance_self] at hn
    exact Nat.le_zero.mp hn
  refine ⟨(putIndex_hostAdvance _ _).trans hput, ?_⟩
  rw [getIndex_hostAdvance, hget, hzero]
  rfl

theorem putZero_stable : Stable viewerSetting fun s => putIndex s.device = 0 := by
  rintro s t ⟨n, _, rfl⟩ hput
  exact (putIndex_hostAdvance _ _).trans hput

/-- A device that has just been initialised: the ring is empty, and so are the
books. -/
structure Fresh (s : Session) : Prop where
  magic : magicWord s.device = is64
  get_lt : getIndex s.device < ringSize
  put_lt : putIndex s.device < ringSize
  total : s.total = []
  accepted : s.accepted = []
  fills : s.fills = 0

theorem Fresh.stable : Stable viewerSetting Fresh := by
  intro s t hst h
  have hframe : HostFrame s t := hst.frame h.get_lt h.put_lt
  exact {
    magic := hframe.magic.trans h.magic
    get_lt := hframe.get_lt
    put_lt := hframe.putIndex_eq.trans_lt h.put_lt
    total := hframe.total.trans h.total
    accepted := hframe.accepted.trans h.accepted
    fills := hframe.fills.trans h.fills }

theorem Fresh.ledger {s : Session} (h : Fresh s) : Ledger s where
  magic := h.magic
  get_lt := h.get_lt
  put_lt := h.put_lt
  fifo _ := h.total.trans h.accepted.symm
  length := by
    rw [h.accepted, h.total, h.fills]
    rfl

/-- Whatever the device and its history were, `isPrintfInit` begins anew. -/
theorem isPrintfInit_fresh (s : Session) :
    Balanced (fun _ t => Fresh t) isPrintfInit s := by
  have htrue : Stable viewerSetting fun _ => True := fun _ _ _ _ => trivial
  refine Safe.request htrue trivial (fun _ _ => trivial) (fun _ _ => trivial)
    fun t _ _ => ?_
  refine Safe.request htrue trivial (fun _ _ => trivial) (fun _ _ => trivial)
    fun u _ _ => ?_
  refine Safe.request putZero_stable ?_ (fun _ _ => trivial) (fun _ _ => trivial)
    fun v hv _ => ?_
  · change putIndex (writeWord u.device putAdrs 0) = 0
    rw [putIndex, putWord_write_put]
    rfl
  refine Safe.request zeroed_stable ⟨?_, ?_⟩ (fun _ _ => trivial) (fun _ _ => trivial)
    fun w hw _ => ?_
  · change putIndex (writeWord v.device getAdrs 0) = 0
    rw [putIndex, putWord_write_get]
    exact hv
  · change getIndex (writeWord v.device getAdrs 0) = 0
    rw [getIndex, getWord_write_get]
    rfl
  · obtain ⟨hput, hget⟩ := hw
    refine Safe.ret Fresh.stable ?_ (fun _ _ => trivial) (fun _ h => h)
    change Fresh (Session.exec (.osEPiWriteIo .header magicAdrs is64) w).2
    have hputNew : putIndex (writeWord w.device magicAdrs is64) = 0 := by
      rw [putIndex, putWord_write_magic]
      exact hput
    have hgetNew : getIndex (writeWord w.device magicAdrs is64) = 0 := by
      rw [getIndex, getWord_write_magic]
      exact hget
    have hunread : unread (writeWord w.device magicAdrs is64) = [] := by
      rw [unread, pending, hputNew, hgetNew, distance_self, window_zero]
    rw [Session.exec_write_magic]
    exact {
      magic := magicWord_write_magic _ _
      get_lt := by
        rw [hgetNew]
        decide
      put_lt := by
        rw [hputNew]
        decide
      total := hunread
      accepted := rfl
      fills := rfl }

/-! ## Runs -/

/-- Entering a callback leaves the device and its books as they are. -/
theorem Ledger.entering {s : Session} (h : Ledger s) (chunk : Chunk) :
    Ledger (Session.exec (.pfn chunk) s).2 where
  magic := h.magic
  get_lt := h.get_lt
  put_lt := h.put_lt
  fifo := h.fifo
  length := h.length

/-- The callback beside a reading host, from an initialised device. -/
theorem isProutSyncPrintf_returned {s : Session} {chunk : Chunk}
    (hget : getIndex s.device < ringSize) (hput : putIndex s.device < ringSize)
    (hend : putIndex s.device + chunk.str.length ≤ 2 ^ 31 - 1) :
    Balanced (fun _ t => Returned (Session.exec (.pfn chunk) s).2 chunk t)
      (isProutSyncPrintf chunk) (Session.exec (.pfn chunk) s).2 := by
  have hcall : CallSafe (Session.exec (.pfn chunk) s).2 chunk (isProutSyncPrintf chunk)
      (Session.exec (.pfn chunk) s).2 :=
    isProutSyncPrintf_safe hput rfl hget rfl hend
  exact hcall.mono (fun _ _ _ => trivial) (fun _ _ => trivial) (fun _ _ _ h => h)

theorem ledger_invariant :
    CallInvariant viewerSetting (fun _ => True) (fun _ => True) fun _ s => Ledger s where
  before_stable _ _ _ _ := trivial
  after_stable _ := Ledger.stable
  before_inv _ _ := trivial
  after_inv _ _ _ := trivial
  init s _ := (isPrintfInit_fresh s).mono (fun _ _ h => h) (fun _ h => h)
    fun _ _ _ h => h.ledger
  chunk _ chunk _ h hpermits :=
    (isProutSyncPrintf_returned h.get_lt h.put_lt (hpermits chunk rfl)).mono
      (fun _ _ h => h) (fun _ h => h)
      fun _ _ _ hreturned => (h.entering chunk).returned hreturned

/-- The runs of the print functions beside a reading host. -/
abbrev ViewerRuns : List Call → Pi (S32 × Bool) × Session → Prop :=
  Runs viewerSetting Call.body PoweredOn

theorem ViewerRuns.ledger {calls : List Call} {memory : S32 × Bool} {s : Session}
    (hruns : ViewerRuns calls (.ret memory, s)) (hcalls : calls ≠ []) : Ledger s :=
  (ledger_invariant.runs (fun _ => trivial) hruns).returned.of_ne_nil hcalls

/-- After any number of calls, with any reads of the host between and within
them, the ring has behaved as a queue if and only if no chunk has filled the
last free cell. -/
theorem ring_is_fifo_iff {calls : List Call} {memory : S32 × Bool} {s : Session}
    (hruns : ViewerRuns calls (.ret memory, s)) (hcalls : calls ≠ []) :
    s.consumed ++ unread s.device = s.accepted ↔ s.fills = 0 := by
  have hledger : Ledger s := hruns.ledger hcalls
  constructor
  · intro hfifo
    have hlength := hledger.length
    rw [← hfifo] at hlength
    have hmul : ringSize * s.fills = 0 := by
      have htotal : (s.consumed ++ unread s.device).length = s.total.length := rfl
      omega
    exact (Nat.mul_eq_zero.mp hmul).resolve_left (by decide)
  · exact hledger.fifo

/-! ## A run of two calls -/

def chunkAb : Chunk := ⟨[ascii 'a', ascii 'b'], by decide⟩

def chunkCd : Chunk := ⟨[ascii 'c', 0, ascii 'd'], by decide⟩

/-- `ab` has been printed. -/
def afterAb : Session :=
  (((Call.printf ⟨[chunkAb], 2⟩).body (0, false)).run Session.exec
    (Session.powerOn fun _ => 0xFF)).2

/-- Then the host has read one byte. -/
def afterRead : Session :=
  { afterAb with
    device := hostAdvance afterAb.device 1
    consumed := afterAb.consumed ++ (unread afterAb.device).take 1 }

/-- Then `cd` has been printed, with a NUL between the letters. -/
def afterCd : Session :=
  (((Call.vprintf ⟨[chunkCd], 3⟩).body (2, true)).run Session.exec afterRead).2

/-- These are steps of every run in which the two chunks may be handed over and
the host may read. -/
theorem afterCd_runs {env : Session → Session → Prop} {permits : Request → Session → Prop}
    (hpermits : ∀ request s, request.Quiet → permits request s)
    (hAb : permits (.pfn chunkAb)
      ((initializeOnce false).run Session.exec (Session.powerOn fun _ => 0xFF)).2)
    (hread : env afterAb afterRead) (hCd : permits (.pfn chunkCd) afterRead) :
    Runs ⟨Session.exec, env, permits⟩ Call.body PoweredOn
      [.printf ⟨[chunkAb], 2⟩, .vprintf ⟨[chunkCd], 3⟩] (.ret (3, true), afterCd) := by
  have hstart : Runs ⟨Session.exec, env, permits⟩ Call.body PoweredOn []
      (.ret (0, false), Session.powerOn fun _ => 0xFF) := .start ⟨rfl, _, rfl⟩
  have hfirst : Runs ⟨Session.exec, env, permits⟩ Call.body PoweredOn
      [.printf ⟨[chunkAb], 2⟩] (.ret (2, true), afterAb) :=
    single_call_runs hstart hpermits (.printf ⟨[chunkAb], 2⟩) rfl hAb
  exact single_call_runs (hfirst.step (.env hread)) hpermits (.vprintf ⟨[chunkCd], 3⟩) rfl hCd

theorem hostReads_afterRead : HostReads afterAb afterRead :=
  ⟨1, by decide, rfl⟩

theorem viewerRuns_afterCd : ViewerRuns [.printf ⟨[chunkAb], 2⟩, .vprintf ⟨[chunkCd], 3⟩]
    (.ret (3, true), afterCd) := by
  refine afterCd_runs (fun _ s h => viewer_permits h s) ?_ hostReads_afterRead ?_
  · rintro _ ⟨⟩
    decide
  · rintro _ ⟨⟩
    decide

theorem ring_is_fifo_afterCd : afterCd.consumed ++ unread afterCd.device = afterCd.accepted :=
  (ring_is_fifo_iff viewerRuns_afterCd (List.cons_ne_nil _ _)).mpr (by decide)

/-! ## A chunk as long as the ring -/

/-- With nobody reading, a callback consumes nothing. -/
theorem isProutSyncPrintf_consumed (chunk : Chunk) (s : Session) :
    ((isProutSyncPrintf chunk).run Session.exec s).2.consumed = s.consumed := by
  have hevery : (isProutSyncPrintf chunk).Every fun request =>
      ∀ purpose data, request ≠ .osEPiWriteIo purpose magicAdrs data := by
    refine isProutSyncPrintf_every (by simp) (by simp) (fun start data => ?_)
      (fun start => ?_) chunk
    · simp [(header_ne_charAdrs start).1]
    · simp [show putAdrs ≠ magicAdrs by decide]
  refine hevery.run_preserves Session.consumed (fun request t hrequest => ?_) s
  cases request with
  | pfn chunk => rfl
  | osCartRomInit => rfl
  | osEPiReadIo devAddr => rfl
  | osEPiWriteIo purpose devAddr data =>
      have hne : devAddr ≠ magicAdrs := fun h => hrequest purpose data (by rw [h])
      rw [Session.exec_write purpose hne]

/-- The session right after `isPrintfInit`, before the first chunk. -/
def initialised (device : Device) : Session :=
  (isPrintfInit.run Session.exec (Session.powerOn device)).2

theorem initialised_empty (device : Device) :
    magicWord (initialised device).device = is64 ∧
      getIndex (initialised device).device = 0 ∧
        putIndex (initialised device).device = 0 ∧
          unread (initialised device).device = [] := by
  rw [initialised, (Session.run_device isPrintfInit (Session.powerOn device)).2]
  exact isPrintfInit_run_empty device

theorem pending_initialised (device : Device) : pending (initialised device).device = 0 := by
  rw [← length_unread, (initialised_empty device).2.2.2, List.length_nil]

/-- Printed on an empty ring with nobody reading, a chunk of as many characters
as the ring has cells is accepted, and all of it is lost. -/
theorem ring_filling_chunk_is_lost (device : Device) (chunk : Chunk) (ret : S32)
    (hstr : chunk.str.length = ringSize) (htext : chunk.text.length = ringSize) :
    ∃ s, ViewerRuns [.printf ⟨[chunk], ret⟩] (.ret (ret, true), s) ∧
      s.accepted = chunk.text ∧ s.consumed ++ unread s.device = [] := by
  obtain ⟨hmagic, hget, hput, hunread⟩ := initialised_empty device
  let entered : Session := (Session.exec (.pfn chunk) (initialised device)).2
  let s : Session := ((isProutSyncPrintf chunk).run Session.exec entered).2
  have hend : putIndex (initialised device).device + chunk.str.length ≤ 2 ^ 31 - 1 := by
    rw [hput, hstr]
    decide
  have hpermits : viewerSetting.permits (.pfn chunk) (initialised device) := by
    rintro other ⟨⟩
    exact hend
  have hruns : ViewerRuns [.printf ⟨[chunk], ret⟩] (.ret (ret, true), s) := by
    have hstart : ViewerRuns [] (.ret (0, false), Session.powerOn device) :=
      .start ⟨rfl, device, rfl⟩
    have hcalled := single_call_runs hstart (fun _ s h => viewer_permits h s)
      (.printf ⟨[chunk], ret⟩) rfl hpermits
    rw [Call.body_run, Call.chunks, handOver_run_cons] at hcalled
    exact hcalled
  have htotal : entered.total = [] := hunread
  have hreturned : Returned entered chunk s :=
    ((isProutSyncPrintf_returned (hget.trans_lt (by decide)) (hput.trans_lt (by decide))
      hend).steps (steps_run (.of_every (fun _ s h => viewer_permits h s)
        (isProutSyncPrintf_quiet chunk) entered))).returned
  have hconsumed : s.consumed = [] := isProutSyncPrintf_consumed chunk entered
  have hshort : s.total.length < ringSize := by
    rw [Session.total, hconsumed, List.nil_append, length_unread]
    exact distance_lt (by decide) _ _
  refine ⟨s, hruns, ?_⟩
  cases hreturned.outcome with
  | kept _ _ _ _ reason =>
      rcases reason with hwrong | hroom
      · exact absurd hmagic hwrong
      · have hzero : pending entered.device = 0 := pending_initialised device
        rw [hzero, hstr] at hroom
        omega
  | appended _ total _ _ =>
      rw [total, htotal, List.nil_append, htext] at hshort
      exact absurd hshort (lt_irrefl _)
  | overrun _ left _ accepted _ =>
      rw [htotal] at left
      exact ⟨accepted, List.prefix_nil.mp left⟩

/-- `0xFFE0` times the letter `A`, handed over in one piece. -/
def fullChunk : Chunk :=
  ⟨List.replicate 0xFFE0 (ascii 'A'), by rw [List.length_replicate]; decide⟩

def fullText : Text := ⟨[fullChunk], 0⟩

theorem text_fullChunk : fullChunk.text = List.replicate 0xFFE0 (ascii 'A') :=
  List.filter_replicate_of_pos (by decide)

theorem length_str_fullChunk : fullChunk.str.length = ringSize :=
  List.length_replicate

theorem length_text_fullChunk : fullChunk.text.length = ringSize := by
  rw [text_fullChunk]
  exact List.length_replicate

/-- A run on which the ring does not behave as a queue. -/
theorem full_chunk_is_lost : ∃ s,
    ViewerRuns [.printf fullText] (.ret (0, true), s) ∧
      s.consumed ++ unread s.device ≠ s.accepted := by
  obtain ⟨s, hruns, haccepted, hlost⟩ := ring_filling_chunk_is_lost (fun _ => 0)
    fullChunk 0 length_str_fullChunk length_text_fullChunk
  refine ⟨s, hruns, ?_⟩
  rw [hlost, haccepted]
  intro hnil
  have hlength := congrArg List.length hnil
  rw [length_text_fullChunk] at hlength
  exact absurd hlength (by decide)

end N64San.IsViewer
