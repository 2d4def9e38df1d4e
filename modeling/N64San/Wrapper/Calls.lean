import N64San.Wrapper.Session

/-!
# Invariants over runs of the print functions

All that is shown of whole runs follows one pattern.  `isPrintfInit` establishes
an invariant, and every callback takes it from the chunks handed over so far to
these and one more.  From these two facts it holds between calls, after any
number of them.
-/

namespace N64San.IsViewer

open Transaction

/-- What `isPrintfInit` establishes and every callback preserves: `before` holds
until then, `after` knows the chunks handed over since, and `inv` holds all
along. -/
structure CallInvariant (M : Setting Request U32 Session) (inv before : Session → Prop)
    (after : List Chunk → Session → Prop) : Prop where
  before_stable : Stable M before
  after_stable : ∀ handed, Stable M (after handed)
  before_inv : ∀ s, before s → inv s
  after_inv : ∀ handed s, after handed s → inv s
  init : ∀ s, before s →
    Safe M (fun _ _ => True) inv (fun _ t => after [] t) isPrintfInit s
  chunk : ∀ handed chunk s, after handed s → M.permits (.pfn chunk) s →
    Safe M (fun _ _ => True) inv (fun _ t => after (handed ++ [chunk]) t)
      (isProutSyncPrintf chunk) (M.exec (.pfn chunk) s).2

/-- What holds after some calls. -/
def After (before : Session → Prop) (after : List Chunk → Session → Prop)
    (calls : List Call) (memory : S32 × Bool) (s : Session) : Prop :=
  if memory.2 then after (calls.flatMap Call.chunks) s else calls = [] ∧ before s

theorem After.of_ne_nil {before : Session → Prop} {after : List Chunk → Session → Prop}
    {calls : List Call} {memory : S32 × Bool} {s : Session}
    (h : After before after calls memory s) (hcalls : calls ≠ []) :
    after (calls.flatMap Call.chunks) s := by
  rw [After] at h
  split_ifs at h
  · exact h
  · exact absurd h.1 hcalls

namespace CallInvariant

variable {M : Setting Request U32 Session} {inv before : Session → Prop}
variable {after : List Chunk → Session → Prop}

theorem handOver (h : CallInvariant M inv before after) (chunks handed : List Chunk)
    {s : Session} (hs : after handed s) :
    Safe M (fun _ _ => True) inv (fun _ t => after (handed ++ chunks) t)
      (handOver isProutSyncPrintf chunks) s := by
  induction chunks generalizing handed s with
  | nil =>
      rw [List.append_nil]
      exact Safe.ret (h.after_stable handed) hs (h.after_inv handed) (fun _ ht => ht)
  | cons chunk chunks ih =>
      refine Safe.request (h.after_stable handed) hs (h.after_inv handed)
        (fun _ _ => trivial) fun t ht hpermits => ?_
      have hsplit : handed ++ chunk :: chunks = (handed ++ [chunk]) ++ chunks := by
        rw [List.append_assoc, List.singleton_append]
      rw [hsplit]
      change Safe M _ inv _ (isProutSyncPrintf chunk >>= fun _ =>
        IsViewer.handOver isProutSyncPrintf chunks) (M.exec (.pfn chunk) t).2
      exact Safe.seq (h.chunk handed chunk t ht hpermits) fun _ u hu =>
        ih (handed ++ [chunk]) hu

theorem initializeOnce (h : CallInvariant M inv before after) {calls : List Call}
    {memory : S32 × Bool} {s : Session} (hs : After before after calls memory s) :
    Safe M (fun _ _ => True) inv (fun _ t => after (calls.flatMap Call.chunks) t)
      (initializeOnce memory.2) s := by
  obtain ⟨ret, isInitialized⟩ := memory
  cases isInitialized with
  | true => exact Safe.ret (h.after_stable _) hs (h.after_inv _) (fun _ ht => ht)
  | false =>
      obtain ⟨rfl, hbefore⟩ : calls = [] ∧ before s := hs
      refine Safe.seq (h.init s hbefore) fun _ t ht => ?_
      exact Safe.ret (h.after_stable []) ht (h.after_inv []) (fun _ hu => hu)

theorem body (h : CallInvariant M inv before after) (calls : List Call) (call : Call)
    {memory : S32 × Bool} {s : Session} (hs : After before after calls memory s) :
    Safe M (fun _ _ => True) inv (After before after (calls ++ [call]))
      (call.body memory) s := by
  rw [Call.body_eq]
  refine Safe.seq (h.initializeOnce hs) fun _ t ht => ?_
  refine Safe.seq (h.handOver call.chunks _ ht) fun _ u hu => ?_
  refine Safe.ret (h.after_stable _) hu (h.after_inv _) fun v hv => ?_
  rw [After, if_pos rfl, List.flatMap_append, List.flatMap_singleton]
  exact hv

/-- The rule for runs from power-on. -/
theorem runs (h : CallInvariant M inv before after)
    (hbefore : ∀ device, before (Session.powerOn device)) {calls : List Call}
    {program : Pi (S32 × Bool)} {s : Session}
    (hruns : Runs M Call.body PoweredOn calls (program, s)) :
    Safe M (fun _ _ => True) inv (After before after calls) program s := by
  refine hruns.safe ?_ ?_ ?_ fun calls call memory s hs => h.body calls call hs
  · rintro _ _ ⟨rfl, device, rfl⟩
    exact ⟨rfl, hbefore device⟩
  · rintro ⟨ret, isInitialized⟩
    cases isInitialized with
    | true => exact h.after_stable []
    | false => exact fun s t hst hs => ⟨hs.1, h.before_stable s t hst hs.2⟩
  · rintro ⟨ret, isInitialized⟩ s hs
    cases isInitialized with
    | true => exact h.after_inv [] s hs
    | false => exact h.before_inv s hs.2

end CallInvariant

/-! ## Calls that nobody disturbs -/

/-- A request that hands over no chunk. -/
def Request.Quiet (request : Request) : Prop :=
  ∀ chunk, request ≠ .pfn chunk

theorem isPrintfInit_quiet : isPrintfInit.Every Request.Quiet :=
  ⟨nofun, fun _ => ⟨nofun, fun _ => ⟨nofun, fun _ => ⟨nofun, fun _ => trivial⟩⟩⟩⟩

theorem initializeOnce_quiet (isInitialized : Bool) :
    (initializeOnce isInitialized).Every Request.Quiet := by
  cases isInitialized with
  | true => trivial
  | false => exact isPrintfInit_quiet.bind fun _ => trivial

theorem isProutSyncPrintf_quiet (chunk : Chunk) :
    (isProutSyncPrintf chunk).Every Request.Quiet :=
  isProutSyncPrintf_every ⟨nofun, nofun, nofun⟩ (fun _ => nofun) (fun _ _ => nofun)
    (fun _ => nofun) chunk

/-- A call with one chunk may be made if the chunk may be handed over. -/
theorem permitted_body {env : Session → Session → Prop} {permits : Request → Session → Prop}
    (hpermits : ∀ request s, request.Quiet → permits request s) {call : Call}
    {memory : S32 × Bool} {s : Session} {chunk : Chunk} (hchunks : call.chunks = [chunk])
    (hchunk : permits (.pfn chunk) ((initializeOnce memory.2).run Session.exec s).2) :
    Permitted ⟨Session.exec, env, permits⟩ (call.body memory) s := by
  rw [Call.body_eq, hchunks]
  refine (Permitted.of_every hpermits (initializeOnce_quiet memory.2) s).bind ?_
  have hcallback : Permitted ⟨Session.exec, env, permits⟩ (handOver isProutSyncPrintf [chunk])
      ((initializeOnce memory.2).run Session.exec s).2 :=
    ⟨hchunk, (Permitted.of_every hpermits (isProutSyncPrintf_quiet chunk) _).bind trivial⟩
  exact hcallback.bind trivial

/-- Such a call returns what the formatter returned. -/
theorem single_call_runs {env : Session → Session → Prop}
    {permits : Request → Session → Prop} {calls : List Call} {memory : S32 × Bool}
    {s : Session}
    (hruns : Runs ⟨Session.exec, env, permits⟩ Call.body PoweredOn calls (.ret memory, s))
    (hpermits : ∀ request s, request.Quiet → permits request s) (call : Call)
    {chunk : Chunk} (hchunks : call.chunks = [chunk])
    (hchunk : permits (.pfn chunk) ((initializeOnce memory.2).run Session.exec s).2) :
    Runs ⟨Session.exec, env, permits⟩ Call.body PoweredOn (calls ++ [call])
      (.ret (call.ret, true), ((call.body memory).run Session.exec s).2) := by
  have hcalled := hruns.call_run call (permitted_body hpermits hchunks hchunk)
  have hret : ((call.body memory).run Session.exec s).1 = (call.ret, true) := by
    rw [Call.body_run]
  rw [hret] at hcalled
  exact hcalled

end N64San.IsViewer
