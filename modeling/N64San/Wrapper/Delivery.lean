import N64San.Wrapper.Fifo

/-!
# Chunks come through whole

What the host gets, against what the formatter handed over.  Each chunk comes
through as a whole or not at all, in the order in which the chunks were handed
over, as long as none has filled the last free cell; one that does cuts off what
the host has not read yet.  If every chunk leaves a cell free, all of them come
through.
-/

namespace N64San.IsViewer

open BigEndian Transaction

/-! ## Parts of the chunks, in order -/

/-- A prefix of several pieces is cut out of each of them at its front. -/
theorem exists_cut {α : Type} {texts pieces : List (List α)} {bytes : List α}
    (h : List.Forall₂ (fun piece text => piece <+: text) pieces texts)
    (hbytes : bytes <+: pieces.flatten) :
    ∃ cut, cut.flatten = bytes ∧
      List.Forall₂ (fun piece text => piece <+: text) cut texts := by
  induction h generalizing bytes with
  | nil => exact ⟨[], (List.prefix_nil.mp hbytes).symm, .nil⟩
  | @cons piece text pieces texts hpiece _ ih =>
      rw [List.flatten_cons] at hbytes
      rcases List.prefix_or_prefix_of_prefix hbytes (List.prefix_append piece pieces.flatten)
        with hshort | ⟨rest, rfl⟩
      · -- Nothing is left of the pieces behind the cut.
        obtain ⟨cut, hcut, hall⟩ := ih List.nil_prefix
        exact ⟨bytes :: cut, by rw [List.flatten_cons, hcut, List.append_nil],
          .cons (hshort.trans hpiece) hall⟩
      · obtain ⟨cut, hcut, hall⟩ := ih ((List.prefix_append_right_inj piece).mp hbytes)
        exact ⟨piece :: cut, by rw [List.flatten_cons, hcut], .cons hpiece hall⟩

/-- Of a chunk a part has come through, from its front; the whole of it or
nothing if no chunk has filled the last free cell. -/
def CameThrough (fills : ℕ) (piece : List Byte) (chunk : Chunk) : Prop :=
  piece <+: chunk.text ∧ (fills = 0 → piece = [] ∨ piece = chunk.text)

theorem cameThrough_nil (fills : ℕ) (chunk : Chunk) : CameThrough fills [] chunk :=
  ⟨List.nil_prefix, fun _ => Or.inl rfl⟩

theorem cameThrough_text (fills : ℕ) (chunk : Chunk) : CameThrough fills chunk.text chunk :=
  ⟨List.prefix_rfl, fun _ => Or.inr rfl⟩

/-- Once a chunk has filled the last free cell, parts are all that is claimed. -/
theorem cameThrough_of_cut {fills : ℕ} (hfills : fills ≠ 0) {pieces : List (List Byte)}
    {chunks : List Chunk}
    (h : List.Forall₂ (fun piece text => piece <+: text) pieces (chunks.map Chunk.text)) :
    List.Forall₂ (CameThrough fills) pieces chunks :=
  (List.forall₂_map_right_iff.mp h).imp fun _ _ hpiece =>
    ⟨hpiece, fun hzero => absurd hzero hfills⟩

/-- The ring against the chunks handed over to the callback. -/
structure Delivered (handed : List Chunk) (s : Session) : Prop where
  magic : magicWord s.device = is64
  get_lt : getIndex s.device < ringSize
  put_lt : putIndex s.device < ringSize
  pieces : ∃ pieces, s.total = pieces.flatten ∧
    List.Forall₂ (CameThrough s.fills) pieces handed

theorem Delivered.stable (handed : List Chunk) : Stable viewerSetting (Delivered handed) := by
  intro s t hst h
  have hframe : HostFrame s t := hst.frame h.get_lt h.put_lt
  exact {
    magic := hframe.magic.trans h.magic
    get_lt := hframe.get_lt
    put_lt := hframe.putIndex_eq.trans_lt h.put_lt
    pieces := by
      rw [hframe.total, hframe.fills]
      exact h.pieces }

theorem Fresh.delivered {s : Session} (h : Fresh s) : Delivered [] s where
  magic := h.magic
  get_lt := h.get_lt
  put_lt := h.put_lt
  pieces := ⟨[], h.total, .nil⟩

theorem Delivered.entering {handed : List Chunk} {s : Session} (h : Delivered handed s)
    (chunk : Chunk) : Delivered handed (Session.exec (.pfn chunk) s).2 where
  magic := h.magic
  get_lt := h.get_lt
  put_lt := h.put_lt
  pieces := h.pieces

/-- A callback drops its chunk, appends it, or cuts off what is unread. -/
theorem Delivered.returned {handed : List Chunk} {s t : Session} {chunk : Chunk}
    (h : Delivered handed s) (hreturned : Returned s chunk t) :
    Delivered (handed ++ [chunk]) t := by
  refine ⟨hreturned.magic.trans h.magic, hreturned.get_lt, hreturned.put_lt, ?_⟩
  obtain ⟨pieces, htotal, hpieces⟩ := h.pieces
  have hconcat : ∀ piece : List Byte, (pieces ++ [piece]).flatten = pieces.flatten ++ piece := by
    intro piece
    rw [List.flatten_append, List.flatten_singleton]
  cases hreturned.outcome with
  | kept _ total _ fills _ =>
      rw [total, htotal, fills]
      refine ⟨pieces ++ [[]], by rw [hconcat, List.append_nil], ?_⟩
      exact List.rel_append hpieces (.cons (cameThrough_nil _ chunk) .nil)
  | appended _ total _ fills =>
      rw [total, htotal, fills]
      refine ⟨pieces ++ [chunk.text], (hconcat _).symm, ?_⟩
      exact List.rel_append hpieces (.cons (cameThrough_text _ chunk) .nil)
  | overrun _ left _ _ fills =>
      have hfills : t.fills ≠ 0 := by
        rw [fills]
        exact Nat.succ_ne_zero _
      have hparts : List.Forall₂ (fun piece text => piece <+: text) pieces
          (handed.map Chunk.text) :=
        List.forall₂_map_right_iff.mpr (hpieces.imp fun _ _ hpiece => hpiece.1)
      rw [htotal] at left
      obtain ⟨cut, hcut, hall⟩ := exists_cut hparts left
      refine ⟨cut ++ [[]], ?_, ?_⟩
      · rw [List.flatten_append, List.flatten_singleton, List.append_nil, hcut]
      · exact List.rel_append (cameThrough_of_cut hfills hall)
          (.cons (cameThrough_nil _ chunk) .nil)

theorem delivered_invariant :
    CallInvariant viewerSetting (fun _ => True) (fun _ => True) Delivered where
  before_stable _ _ _ _ := trivial
  after_stable := Delivered.stable
  before_inv _ _ := trivial
  after_inv _ _ _ := trivial
  init s _ := (isPrintfInit_fresh s).mono (fun _ _ h => h) (fun _ h => h)
    fun _ _ _ h => h.delivered
  chunk _ chunk _ h hpermits :=
    (isProutSyncPrintf_returned h.get_lt h.put_lt (hpermits chunk rfl)).mono
      (fun _ _ h => h) (fun _ h => h)
      fun _ _ _ hreturned => (h.entering chunk).returned hreturned

/-- After any number of calls, with any reads of the host between and within
them, the bytes that the host has read and can still read are, chunk after chunk
in the order in which they were handed over, a part of each text from its front;
and unless a chunk has filled the last free cell, each text is among them whole
or not at all. -/
theorem chunks_are_delivered_whole {calls : List Call} {memory : S32 × Bool} {s : Session}
    (hruns : ViewerRuns calls (.ret memory, s)) (hcalls : calls ≠ []) :
    ∃ pieces : List (List Byte), s.consumed ++ unread s.device = pieces.flatten ∧
      List.Forall₂ (fun piece chunk => piece <+: chunk.text ∧
        (s.fills = 0 → piece = [] ∨ piece = chunk.text))
        pieces (calls.flatMap Call.chunks) :=
  ((delivered_invariant.runs (fun _ => trivial) hruns).returned.of_ne_nil hcalls).pieces

theorem chunks_are_delivered_whole_afterCd : ∃ pieces : List (List Byte),
    afterCd.consumed ++ unread afterCd.device = pieces.flatten ∧
      List.Forall₂ (fun piece chunk => piece <+: chunk.text ∧
        (afterCd.fills = 0 → piece = [] ∨ piece = chunk.text)) pieces [chunkAb, chunkCd] :=
  chunks_are_delivered_whole viewerRuns_afterCd (List.cons_ne_nil _ _)

/-! ## All of the chunks -/

/-- The wrapper beside a host that reads fast enough: every chunk that the
formatter hands over leaves a cell of the ring free. -/
def roomySetting : Setting Request U32 Session where
  exec := Session.exec
  env := HostReads
  permits request s :=
    ∀ chunk, request = .pfn chunk → pending s.device + chunk.str.length < ringSize

/-- The runs of the print functions beside such a host. -/
abbrev RoomyRuns : List Call → Pi (S32 × Bool) × Session → Prop :=
  Runs roomySetting Call.body PoweredOn

theorem roomy_permits {request : Request} (h : request.Quiet) (s : Session) :
    roomySetting.permits request s :=
  fun chunk hchunk => absurd hchunk (h chunk)

/-- `Balanced` beside a host that reads fast enough. -/
abbrev RoomyBalanced {A : Type} (post : A → Session → Prop) : Pi A → Session → Prop :=
  Safe roomySetting (fun _ _ => True) (fun _ => True) post

/-- A program that hands over no chunk does not see how fast the host reads. -/
theorem Balanced.roomy {A : Type} {post : A → Session → Prop} {program : Pi A} {s : Session}
    (hquiet : program.Every Request.Quiet) (h : Balanced post program s) :
    RoomyBalanced post program s :=
  Safe.restrict (M := viewerSetting) (N := roomySetting) rfl (fun _ _ hst => hst)
    (hquiet.mono fun _ hrequest t _ => viewer_permits hrequest t) h

/-- Every chunk handed over is in the ring or has been read. -/
structure Complete (handed : List Chunk) (s : Session) : Prop where
  magic : magicWord s.device = is64
  get_lt : getIndex s.device < ringSize
  put_lt : putIndex s.device < ringSize
  total : s.total = texts handed

theorem Complete.stable (handed : List Chunk) : Stable roomySetting (Complete handed) := by
  intro s t hst h
  have hframe : HostFrame s t := HostReads.frame hst h.get_lt h.put_lt
  exact {
    magic := hframe.magic.trans h.magic
    get_lt := hframe.get_lt
    put_lt := hframe.putIndex_eq.trans_lt h.put_lt
    total := hframe.total.trans h.total }

theorem Fresh.complete {s : Session} (h : Fresh s) : Complete [] s where
  magic := h.magic
  get_lt := h.get_lt
  put_lt := h.put_lt
  total := h.total

theorem Complete.entering {handed : List Chunk} {s : Session} (h : Complete handed s)
    (chunk : Chunk) : Complete handed (Session.exec (.pfn chunk) s).2 where
  magic := h.magic
  get_lt := h.get_lt
  put_lt := h.put_lt
  total := h.total

/-- A chunk that leaves a cell free is appended. -/
theorem Complete.returned {handed : List Chunk} {s t : Session} {chunk : Chunk}
    (h : Complete handed s) (hroom : pending s.device + chunk.str.length < ringSize)
    (hreturned : Returned s chunk t) : Complete (handed ++ [chunk]) t := by
  refine ⟨hreturned.magic.trans h.magic, hreturned.get_lt, hreturned.put_lt, ?_⟩
  cases hreturned.outcome with
  | kept _ _ _ _ reason =>
      rcases reason with hmagic | hfull
      · exact absurd h.magic hmagic
      · exact absurd hroom hfull.not_gt
  | appended _ total _ _ => rw [total, h.total, texts_concat]
  | overrun _ _ total _ _ =>
      -- The bytes read before the call alone contradict such a loss.
      have hread := hreturned.consumed.length_le
      have hle := chunk.length_text_le
      simp only [Session.total, List.length_append, length_unread] at total
      omega

theorem complete_invariant :
    CallInvariant roomySetting (fun _ => True) (fun _ => True) Complete where
  before_stable _ _ _ _ := trivial
  after_stable := Complete.stable
  before_inv _ _ := trivial
  after_inv _ _ _ := trivial
  init s _ := ((isPrintfInit_fresh s).roomy isPrintfInit_quiet).mono (fun _ _ h => h)
    (fun _ h => h) fun _ _ _ h => h.complete
  chunk handed chunk s h hpermits := by
    have hroom : pending s.device + chunk.str.length < ringSize := hpermits chunk rfl
    have hend : putIndex s.device + chunk.str.length ≤ 2 ^ 31 - 1 := by
      have hput : putIndex s.device < 0xFFE0 := h.put_lt
      have hroom' : pending s.device + chunk.str.length < 0xFFE0 := hroom
      omega
    have hcall := (isProutSyncPrintf_returned h.get_lt h.put_lt hend).roomy
      (isProutSyncPrintf_quiet chunk)
    exact hcall.mono (fun _ _ h => h) (fun _ h => h)
      fun _ _ _ hreturned => (h.entering chunk).returned hroom hreturned

theorem RoomyRuns.total {calls : List Call} {memory : S32 × Bool} {s : Session}
    (hruns : RoomyRuns calls (.ret memory, s)) (hcalls : calls ≠ []) :
    s.total = texts (calls.flatMap Call.chunks) :=
  ((complete_invariant.runs (fun _ => trivial) hruns).returned.of_ne_nil hcalls).total

/-- If every chunk leaves a cell of the ring free when it is handed over, then
after any number of calls the host has read, or can still read, exactly the
texts of all chunks, in order. -/
theorem nothing_is_lost {calls : List Call} {memory : S32 × Bool} {s : Session}
    (hruns : RoomyRuns calls (.ret memory, s)) (hcalls : calls ≠ []) :
    s.consumed ++ unread s.device = texts (calls.flatMap Call.chunks) :=
  hruns.total hcalls

/-- The first call prints a single chunk, and nobody reads. -/
theorem roomy_single_runs (device : Device) (chunk : Chunk) (ret : S32)
    (hroom : chunk.str.length < ringSize) :
    ∃ s, RoomyRuns [.printf ⟨[chunk], ret⟩] (.ret (ret, true), s) := by
  have hstart : RoomyRuns [] (.ret (0, false), Session.powerOn device) :=
    .start ⟨rfl, device, rfl⟩
  have hpermits : roomySetting.permits (.pfn chunk) (initialised device) := by
    rintro other ⟨⟩
    rw [pending_initialised, Nat.zero_add]
    exact hroom
  exact ⟨_, single_call_runs hstart (fun _ s h => roomy_permits h s)
    (.printf ⟨[chunk], ret⟩) rfl hpermits⟩

theorem nothing_is_lost_afterCd :
    afterCd.consumed ++ unread afterCd.device =
      [ascii 'a', ascii 'b', ascii 'c', ascii 'd'] := by
  have hruns : RoomyRuns [.printf ⟨[chunkAb], 2⟩, .vprintf ⟨[chunkCd], 3⟩]
      (.ret (3, true), afterCd) := by
    refine afterCd_runs (fun _ s h => roomy_permits h s) ?_ hostReads_afterRead ?_
    · rintro _ ⟨⟩
      decide
    · rintro _ ⟨⟩
      decide
  exact nothing_is_lost hruns (List.cons_ne_nil _ _)

end N64San.IsViewer
