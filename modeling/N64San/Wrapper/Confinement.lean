import N64San.Wrapper.Calls

/-!
# The writer never leaves the window

Beside a host that sets `get` to anything at any time, and with chunks of any
`count`, the space check means nothing any more.  What keeps the writer inside
the window is the wrap of `start` alone: it holds `start` below `0xFFE0`, and
`put` only ever becomes such a `start`.
-/

namespace N64San.IsViewer

open BigEndian Transaction

/-- An aligned word of the `ISVDbg` window. -/
def InISVDbg (devAddr : U32) : Prop :=
  devAddr.toNat % 4 = 0 ∧ 0xB3FF0000 ≤ devAddr.toNat ∧ devAddr.toNat < 0xB4000000

instance (devAddr : U32) : Decidable (InISVDbg devAddr) :=
  inferInstanceAs (Decidable (_ ∧ _ ∧ _))

/-- The request stays inside the window, and a character write stays out of the
header. -/
def Request.Confined : Request → Prop
  | .osEPiReadIo devAddr => InISVDbg devAddr
  | .osEPiWriteIo .header devAddr _ => InISVDbg devAddr
  | .osEPiWriteIo .character devAddr _ =>
      InISVDbg devAddr ∧ 0x20 ≤ devAddr.toNat - 0xB3FF0000
  | _ => True

/-- The transactions of `isPrintfInit`. -/
def initTrace : List (Request × U32) :=
  [(.osCartRomInit, 0), (.osEPiWriteIo .header putAdrs 0, 0),
    (.osEPiWriteIo .header getAdrs 0, 0), (.osEPiWriteIo .header magicAdrs is64, 0)]

/-- `isPrintfInit` has run to its end, once, before everything else. -/
def InitialisedOnce (s : Session) : Prop :=
  ∃ rest, s.trace = initTrace ++ rest ∧ ∀ event ∈ rest, event.1 ≠ .osCartRomInit

/-- What holds at every point of a run. -/
structure Confined (s : Session) : Prop where
  initialisation : s.trace <+: initTrace ∨ InitialisedOnce s
  requests : ∀ event ∈ s.trace, event.1.Confined

/-- What holds once the wrapper is initialised. -/
structure Running (s : Session) : Prop where
  once : InitialisedOnce s
  requests : ∀ event ∈ s.trace, event.1.Confined
  put_lt : putIndex s.device < ringSize

theorem Running.confined {s : Session} (h : Running s) : Confined s :=
  ⟨Or.inr h.once, h.requests⟩

theorem Running.stable : Stable adversarySetting Running := by
  rintro s t ⟨device, hput, _, rfl⟩ h
  exact {
    once := h.once
    requests := h.requests
    put_lt := by
      rw [putIndex, hput]
      exact h.put_lt }

/-! ## Addresses -/

theorem inISVDbg_charAdrs {start : S32} (hstart : start.toNat < ringSize) :
    InISVDbg (charAdrs start) ∧ 0x20 ≤ (charAdrs start).toNat - 0xB3FF0000 := by
  have hlt : start.toNat < 0xFFE0 := hstart
  rw [InISVDbg, toNat_charAdrs]
  omega

theorem inISVDbg_header :
    InISVDbg magicAdrs ∧ InISVDbg getAdrs ∧ InISVDbg putAdrs := by
  decide

theorem confined_initTrace : ∀ event ∈ initTrace, event.1.Confined := by
  simp [initTrace, Request.Confined, inISVDbg_header]

/-- One more request of an initialised wrapper. -/
theorem Running.exec {request : Request} {s : Session} (h : Running s)
    (hinit : request ≠ .osCartRomInit) (hconfined : request.Confined)
    (hput : putIndex (IsViewer.exec request s.device).2 < ringSize) :
    Running (Session.exec request s).2 := by
  obtain ⟨rest, htrace, hrest⟩ := h.once
  have hnew : (Session.exec request s).2.trace =
      s.trace ++ [(request, (IsViewer.exec request s.device).1)] := rfl
  refine {
    once := ⟨rest ++ [(request, (IsViewer.exec request s.device).1)], ?_, ?_⟩
    requests := ?_
    put_lt := hput }
  · rw [hnew, htrace, List.append_assoc]
  · intro event hevent
    rcases List.mem_append.mp hevent with hevent | hevent
    · exact hrest event hevent
    · rw [List.mem_singleton.mp hevent]
      exact hinit
  · rw [hnew]
    intro event hevent
    rcases List.mem_append.mp hevent with hevent | hevent
    · exact h.requests event hevent
    · rw [List.mem_singleton.mp hevent]
      exact hconfined

theorem Running.read {devAddr : U32} {s : Session} (h : Running s)
    (hconfined : InISVDbg devAddr) :
    Running (Session.exec (.osEPiReadIo devAddr) s).2 :=
  h.exec (by simp) hconfined h.put_lt

/-! ## The callback -/

/-- Every point of the program is confined, and it ends in `post`. -/
abbrev ConfinedTo {A : Type} (post : A → Session → Prop) : Pi A → Session → Prop :=
  Safe adversarySetting (fun _ _ => True) Confined post

theorem confined_ret {A : Type} (value : A) {s : Session} (h : Running s) :
    ConfinedTo (fun _ t => Running t) (.ret value) s :=
  Safe.ret Running.stable h (fun _ ht => ht.confined) (fun _ ht => ht)

/-- The loop writes characters only, and `start` stays below `0xFFE0`. -/
theorem copyLoop_confined (str : List Byte) {start : S32} {s : Session}
    (hstart : start.toNat < ringSize) (h : Running s) :
    ConfinedTo (fun last t => last.toNat < ringSize ∧ Running t)
      (copyLoop str start) s := by
  induction str generalizing start s with
  | nil =>
      exact Safe.ret Running.stable h (fun _ ht => ht.confined)
        (fun _ ht => ⟨hstart, ht⟩)
  | cons c str ih =>
      by_cases hc : c = 0
      · rw [hc, copyLoop_zero]
        exact ih hstart h
      · rw [copyLoop_cons hc]
        have hadrs := inISVDbg_charAdrs hstart
        refine Safe.request Running.stable h (fun _ ht => ht.confined)
          (fun _ _ => trivial) fun t ht _ => ?_
        refine Safe.request Running.stable (ht.read hadrs.1) (fun _ hu => hu.confined)
          (fun _ _ => trivial) fun u hu _ => ?_
        refine ih (toNat_advance_lt hstart) (hu.exec (by simp) hadrs ?_)
        change (readWord (writeWord u.device (charAdrs start) _) putAdrs).toNat < _
        rw [readWord_header_write_char u.device start _ (by decide)]
        exact hu.put_lt

theorem publish_confined (str : List Byte) {start : S32} {s : Session}
    (hstart : start.toNat < ringSize) (h : Running s) :
    ConfinedTo (fun _ t => Running t) (publish str start) s := by
  refine Safe.seq (copyLoop_confined str hstart h) fun last t hlast => ?_
  refine Safe.request Running.stable hlast.2 (fun _ hu => hu.confined)
    (fun _ _ => trivial) fun u hu _ => ?_
  refine confined_ret 1 (hu.exec (by simp) inISVDbg_header.2.2 ?_)
  change (readWord (writeWord u.device putAdrs last) putAdrs).toNat < _
  rw [readWord_writeWord]
  exact hlast.1

theorem isProutSyncPrintf_confined (chunk : Chunk) {s : Session} (h : Running s) :
    ConfinedTo (fun _ t => Running t) (isProutSyncPrintf chunk) s := by
  refine Safe.request Running.stable h (fun _ ht => ht.confined)
    (fun _ _ => trivial) fun t ht _ => ?_
  have hmagic := ht.read inISVDbg_header.1
  change ConfinedTo _ (afterMagic chunk (readWord t.device magicAdrs)) _
  rw [afterMagic]
  split_ifs
  · exact confined_ret 1 hmagic
  · refine Safe.request Running.stable hmagic (fun _ hu => hu.confined)
      (fun _ _ => trivial) fun u hu _ => ?_
    refine Safe.request Running.stable (hu.read inISVDbg_header.2.1)
      (fun _ hv => hv.confined) (fun _ _ => trivial) fun v hv _ => ?_
    have hput := hv.read inISVDbg_header.2.2
    -- `noRoom` decides nothing here: the `pos` it compares with may be anything.
    split_ifs
    · exact confined_ret 1 hput
    · exact publish_confined chunk.str hv.put_lt hput

/-! ## Initialisation -/

/-- `isPrintfInit` has made its first `n` transactions. -/
structure Initialising (n : ℕ) (s : Session) : Prop where
  trace : s.trace = initTrace.take n
  put : 2 ≤ n → putIndex s.device = 0

theorem Initialising.stable (n : ℕ) : Stable adversarySetting (Initialising n) := by
  rintro s t ⟨device, hput, _, rfl⟩ h
  exact {
    trace := h.trace
    put := fun hn => by
      rw [putIndex, hput]
      exact h.put hn }

theorem Initialising.confined {n : ℕ} {s : Session} (h : Initialising n s) :
    Confined s where
  initialisation := by
    rw [h.trace]
    exact Or.inl (List.take_prefix n initTrace)
  requests := by
    rw [h.trace]
    exact fun event hevent => confined_initTrace event (List.mem_of_mem_take hevent)

/-- The next transaction of `isPrintfInit`. -/
theorem Initialising.exec {n : ℕ} {request : Request} {s : Session}
    (h : Initialising n s)
    (hnext : initTrace[n]? = some (request, (IsViewer.exec request s.device).1))
    (hput : 1 ≤ n → putIndex (IsViewer.exec request s.device).2 = 0) :
    Initialising (n + 1) (Session.exec request s).2 where
  trace := by
    have hnew : (Session.exec request s).2.trace =
        s.trace ++ [(request, (IsViewer.exec request s.device).1)] := rfl
    rw [hnew, h.trace, List.take_add_one, hnext]
    rfl
  put hn := hput (Nat.le_of_succ_le_succ hn)

theorem Initialising.running {s : Session} (h : Initialising 4 s) : Running s where
  once := ⟨[], by rw [h.trace]; rfl, by simp⟩
  requests := h.confined.requests
  put_lt := by
    rw [h.put (by decide)]
    decide

theorem isPrintfInit_confined {s : Session} (hs : s.trace = []) :
    ConfinedTo (fun _ t => Running t) isPrintfInit s := by
  have hbegin : Initialising 0 s := ⟨hs, by simp⟩
  refine Safe.request (Initialising.stable 0) hbegin (fun _ ht => ht.confined)
    (fun _ _ => trivial) fun t ht _ => ?_
  refine Safe.request (Initialising.stable 1) (ht.exec rfl (by simp))
    (fun _ hu => hu.confined) (fun _ _ => trivial) fun u hu _ => ?_
  refine Safe.request (Initialising.stable 2) (hu.exec rfl fun _ => ?_)
    (fun _ hv => hv.confined) (fun _ _ => trivial) fun v hv _ => ?_
  · change (putWord (writeWord u.device putAdrs 0)).toNat = 0
    rw [putWord_write_put]
    rfl
  refine Safe.request (Initialising.stable 3) (hv.exec rfl fun _ => ?_)
    (fun _ hw => hw.confined) (fun _ _ => trivial) fun w hw _ => ?_
  · change (putWord (writeWord v.device getAdrs 0)).toNat = 0
    rw [putWord_write_get]
    exact hv.put le_rfl
  refine confined_ret () (hw.exec rfl fun _ => ?_).running
  change (putWord (writeWord w.device magicAdrs is64)).toNat = 0
  rw [putWord_write_magic]
  exact hw.put (by decide)

/-! ## Calls and runs -/

/-- Nothing happens before `isPrintfInit`, and the wrapper runs from then on. -/
theorem confined_invariant :
    CallInvariant adversarySetting Confined (fun s => s.trace = []) fun _ s => Running s where
  before_stable := by
    rintro s t ⟨device, _, _, rfl⟩ h
    exact h
  after_stable _ := Running.stable
  before_inv s h := by
    refine ⟨Or.inl ?_, ?_⟩
    · rw [h]
      exact List.nil_prefix
    · simp [h]
  after_inv _ _ h := h.confined
  init _ h := isPrintfInit_confined h
  chunk _ chunk s h _ := by
    have hentered : Running (Session.exec (.pfn chunk) s).2 :=
      h.exec (by simp) trivial h.put_lt
    exact isProutSyncPrintf_confined chunk hentered

/-- The runs of the print functions beside a meddling host. -/
abbrev AdversaryRuns : List Call → Pi (S32 × Bool) × Session → Prop :=
  Runs adversarySetting Call.body PoweredOn

/-- At every point of every run all transactions stay in the window and all
character writes in the ring; `isPrintfInit` runs once and before any chunk;
and between calls `put` is an index of the ring. -/
theorem writer_stays_in_window {calls : List Call} {program : Pi (S32 × Bool)}
    {s : Session} (hruns : AdversaryRuns calls (program, s)) :
    (s.trace <+: initTrace ∨ InitialisedOnce s) ∧
      (∀ event ∈ s.trace, event.1.Confined) ∧
      (calls ≠ [] → ∀ memory, program = .ret memory →
        InitialisedOnce s ∧ putIndex s.device < ringSize) := by
  have hsafe := confined_invariant.runs (fun _ => rfl) hruns
  refine ⟨hsafe.holds.initialisation, hsafe.holds.requests, ?_⟩
  rintro hcalls memory rfl
  have hrunning : Running s := hsafe.returned.of_ne_nil hcalls
  exact ⟨hrunning.once, hrunning.put_lt⟩

/-- A first `Printf` call, after the host has set `get` to `0xFFFFFFFF`. -/
def afterMeddling : Session :=
  ((Call.printf ⟨[⟨[ascii 'B'], by decide⟩], 0⟩).body (0, false)).run Session.exec
    { Session.powerOn fun _ => 0 with
      device := writeWord (fun _ => 0) getAdrs 0xFFFFFFFF } |>.2

theorem writer_stays_in_window_afterMeddling :
    InitialisedOnce afterMeddling ∧ putIndex afterMeddling.device < ringSize := by
  have hmeddled : AdversaryRuns [] (.ret (0, false),
      { Session.powerOn fun _ => 0 with
        device := writeWord (fun _ => 0) getAdrs 0xFFFFFFFF }) :=
    .step (.start ⟨rfl, _, rfl⟩)
      (.env (hostMeddles_write_get (Session.powerOn fun _ => 0) 0xFFFFFFFF))
  have hcalled := hmeddled.call_run (.printf ⟨[⟨[ascii 'B'], by decide⟩], 0⟩)
    (Permitted.of_every (P := fun _ => True) (fun _ _ _ => trivial)
      (Program.Every.of_forall (fun _ => trivial) _) _)
  exact (writer_stays_in_window hcalled).2.2 (List.cons_ne_nil _ _) _ rfl

end N64San.IsViewer
