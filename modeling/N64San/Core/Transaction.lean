import Mathlib.Data.Nat.Notation
import Mathlib.Logic.Relation

/-!
# Programs of atomic transactions

A driver talks to a shared device in atomic transactions, and others may touch
the device between any two of them.  A `Program` is such a driver: either it is
done, or it makes one request and continues with the reply.  This file gives
its run without interference, its steps under interference, and the
rely/guarantee predicate `Safe`, whose rules follow the shape of the program.
-/

namespace N64San.Transaction

open Relation

variable {Op Reply State A B Call : Type}

/-- A sequential program whose only effects are requests to a shared device. -/
inductive Program (Op Reply A : Type)
  | ret (value : A)
  | request (op : Op) (next : Reply → Program Op Reply A)

namespace Program

def bind : Program Op Reply A → (A → Program Op Reply B) → Program Op Reply B
  | ret value, f => f value
  | request op next, f => request op fun reply => (next reply).bind f

instance : Monad (Program Op Reply) where
  pure := ret
  bind := bind

/-- The program that makes one request and returns its reply. -/
def perform (op : Op) : Program Op Reply Reply :=
  request op ret

@[simp]
theorem pure_eq_ret (value : A) :
    (pure value : Program Op Reply A) = ret value := rfl

@[simp]
theorem ret_bind (value : A) (f : A → Program Op Reply B) :
    ret value >>= f = f value := rfl

@[simp]
theorem request_bind (op : Op) (next : Reply → Program Op Reply A)
    (f : A → Program Op Reply B) :
    request op next >>= f = request op fun reply => next reply >>= f := rfl

@[simp]
theorem perform_bind (op : Op) (f : Reply → Program Op Reply B) :
    perform op >>= f = request op f := rfl

instance : LawfulMonad (Program Op Reply) :=
  LawfulMonad.mk' (Program Op Reply)
    (fun program => by
      induction program with
      | ret value => rfl
      | request op next ih => exact congrArg (request op) (funext ih))
    (fun _ _ => rfl)
    (fun program f g => by
      induction program with
      | ret value => rfl
      | request op next ih => exact congrArg (request op) (funext ih))

/-- Run a program with nobody else at the device. -/
def run (exec : Op → State → Reply × State) :
    Program Op Reply A → State → A × State
  | ret value, s => (value, s)
  | request op next, s => (next (exec op s).1).run exec (exec op s).2

theorem run_bind (exec : Op → State → Reply × State)
    (program : Program Op Reply A) (f : A → Program Op Reply B) (s : State) :
    (program >>= f).run exec s =
      (f (program.run exec s).1).run exec (program.run exec s).2 := by
  induction program generalizing s with
  | ret value => rfl
  | request op next ih => exact ih _ _

/-- The requests of an undisturbed run, each with the state it leaves behind. -/
def trace (exec : Op → State → Reply × State) :
    Program Op Reply A → State → List (Op × State)
  | ret _, _ => []
  | request op next, s =>
      (op, (exec op s).2) :: (next (exec op s).1).trace exec (exec op s).2

theorem trace_bind (exec : Op → State → Reply × State)
    (program : Program Op Reply A) (f : A → Program Op Reply B) (s : State) :
    (program >>= f).trace exec s = program.trace exec s ++
      (f (program.run exec s).1).trace exec (program.run exec s).2 := by
  induction program generalizing s with
  | ret value => rfl
  | request op next ih => exact congrArg (List.cons _) (ih _ _)

/-- A run that makes a request ends in the state that its last request leaves
behind. -/
theorem run_mem_trace (exec : Op → State → Reply × State) (program : Program Op Reply A)
    (s : State) (h : program.trace exec s ≠ []) :
    ∃ op, (op, (program.run exec s).2) ∈ program.trace exec s := by
  induction program generalizing s with
  | ret value => exact absurd rfl h
  | request op next ih =>
      by_cases hlast : (next (exec op s).1).trace exec (exec op s).2 = []
      · refine ⟨op, List.mem_cons.mpr (Or.inl ?_)⟩
        generalize hrest : next (exec op s).1 = rest at hlast
        cases rest with
        | ret value => rw [run, hrest, run]
        | request op' next' => exact absurd hlast (List.cons_ne_nil _ _)
      · obtain ⟨op', hop'⟩ := ih _ _ hlast
        exact ⟨op', List.mem_cons_of_mem _ hop'⟩

/-- Every request the program can make satisfies `P`, whatever the replies. -/
def Every (P : Op → Prop) : Program Op Reply A → Prop
  | ret _ => True
  | request op next => P op ∧ ∀ reply, (next reply).Every P

theorem Every.of_forall {P : Op → Prop} (hP : ∀ op, P op)
    (program : Program Op Reply A) : program.Every P := by
  induction program with
  | ret value => trivial
  | request op next ih => exact ⟨hP op, ih⟩

theorem Every.mono {P Q : Op → Prop} (hPQ : ∀ op, P op → Q op)
    {program : Program Op Reply A} (hprogram : program.Every P) : program.Every Q := by
  induction program with
  | ret value => trivial
  | request op next ih => exact ⟨hPQ op hprogram.1, fun reply => ih reply (hprogram.2 reply)⟩

theorem Every.bind {P : Op → Prop} {program : Program Op Reply A}
    {f : A → Program Op Reply B} (hprogram : program.Every P)
    (hf : ∀ value, (f value).Every P) : (program >>= f).Every P := by
  induction program with
  | ret value => exact hf value
  | request op next ih =>
      exact ⟨hprogram.1, fun reply => ih reply (hprogram.2 reply)⟩

/-- What every request preserves, a whole undisturbed run preserves. -/
theorem Every.run_preserves {P : Op → Prop} {program : Program Op Reply A}
    (hprogram : program.Every P) {exec : Op → State → Reply × State}
    {B : Type} (view : State → B)
    (hview : ∀ op s, P op → view (exec op s).2 = view s) (s : State) :
    view (program.run exec s).2 = view s := by
  induction program generalizing s with
  | ret value => rfl
  | request op next ih =>
      exact (ih _ (hprogram.2 _) _).trans (hview op s hprogram.1)

end Program

open Program

/-! ## One program under interference -/

/-- A device, what others may do to it between two transactions, and what is
assumed of the requests themselves. -/
structure Setting (Op Reply State : Type) where
  exec : Op → State → Reply × State
  env : State → State → Prop
  permits : Op → State → Prop

variable (M : Setting Op Reply State)

/-- One transaction of the program, or one action of the others. -/
inductive Step : Program Op Reply A × State → Program Op Reply A × State → Prop
  | own {op : Op} {next : Reply → Program Op Reply A} {s : State}
      (hpermits : M.permits op s) :
      Step (request op next, s) (next (M.exec op s).1, (M.exec op s).2)
  | env {program : Program Op Reply A} {s t : State} (henv : M.env s t) :
      Step (program, s) (program, t)

/-- A predicate that the others cannot falsify. -/
def Stable (P : State → Prop) : Prop :=
  ∀ s t, M.env s t → P s → P t

theorem Stable.closure {P : State → Prop} (hP : Stable M P) {s t : State}
    (hst : ReflTransGen M.env s t) (hs : P s) : P t := by
  induction hst with
  | refl => exact hs
  | tail _ hstep ih => exact hP _ _ hstep ih

/-- From `s`, `inv` holds at every point of the program's execution, `guar`
holds of every request it makes, and `post` holds once it has returned,
whatever the others do meanwhile. -/
def Safe (guar : Op → State → Prop) (inv : State → Prop) (post : A → State → Prop) :
    Program Op Reply A → State → Prop
  | ret value, s => ∀ t, ReflTransGen M.env s t → inv t ∧ post value t
  | request op next, s => ∀ t, ReflTransGen M.env s t →
      inv t ∧ (M.permits op t → guar op t ∧
        Safe guar inv post (next (M.exec op t).1) (M.exec op t).2)

variable {M}
variable {guar : Op → State → Prop} {inv : State → Prop} {post : A → State → Prop}

theorem Safe.holds {program : Program Op Reply A} {s : State}
    (h : Safe M guar inv post program s) : inv s := by
  cases program with
  | ret value => exact (h s .refl).1
  | request op next => exact (h s .refl).1

theorem Safe.returned {value : A} {s : State}
    (h : Safe M guar inv post (ret value) s) : post value s :=
  (h s .refl).2

theorem Safe.requested {op : Op} {next : Reply → Program Op Reply A} {s : State}
    (h : Safe M guar inv post (request op next) s) (hpermits : M.permits op s) :
    guar op s :=
  ((h s .refl).2 hpermits).1

theorem Safe.env {program : Program Op Reply A} {s t : State}
    (h : Safe M guar inv post program s) (hst : M.env s t) :
    Safe M guar inv post program t := by
  cases program with
  | ret value => exact fun u htu => h u (.head hst htu)
  | request op next => exact fun u htu => h u (.head hst htu)

/-- A returned program is safe when the postcondition is stable. -/
theorem Safe.ret {P : State → Prop} (hstable : Stable M P) {value : A}
    {s : State} (hs : P s) (hinv : ∀ t, P t → inv t)
    (hpost : ∀ t, P t → post value t) :
    Safe M guar inv post (ret value) s := by
  intro t hst
  have ht : P t := hstable.closure M hst hs
  exact ⟨hinv t ht, hpost t ht⟩

/-- A request is safe when a stable assertion that holds before it gives the
guarantee and leads to a safe continuation. -/
theorem Safe.request {P : State → Prop} (hstable : Stable M P) {op : Op}
    {next : Reply → Program Op Reply A} {s : State} (hs : P s)
    (hinv : ∀ t, P t → inv t) (hguar : ∀ t, P t → guar op t)
    (hnext : ∀ t, P t → M.permits op t →
      Safe M guar inv post (next (M.exec op t).1) (M.exec op t).2) :
    Safe M guar inv post (request op next) s := by
  intro t hst
  have ht : P t := hstable.closure M hst hs
  exact ⟨hinv t ht, fun hpermits => ⟨hguar t ht, hnext t ht hpermits⟩⟩

theorem Safe.bind {program : Program Op Reply A} {f : A → Program Op Reply B}
    {postB : B → State → Prop} {s : State}
    (h : Safe M guar inv (fun value t => Safe M guar inv postB (f value) t) program s) :
    Safe M guar inv postB (program >>= f) s := by
  induction program generalizing s with
  | ret value => exact h.returned
  | request op next ih =>
      intro t hst
      refine ⟨(h t hst).1, fun hpermits => ?_⟩
      obtain ⟨hguar, hnext⟩ := (h t hst).2 hpermits
      exact ⟨hguar, ih _ hnext⟩

/-- Everything that safety promises may be weakened. -/
theorem Safe.mono {guar' : Op → State → Prop} {inv' : State → Prop}
    {post' : A → State → Prop} {program : Program Op Reply A} {s : State}
    (h : Safe M guar inv post program s) (hguar : ∀ op t, guar op t → guar' op t)
    (hinv : ∀ t, inv t → inv' t)
    (hpost : ∀ value t, inv t → post value t → post' value t) :
    Safe M guar' inv' post' program s := by
  induction program generalizing s with
  | ret value =>
      intro t hst
      obtain ⟨hi, hp⟩ := h t hst
      exact ⟨hinv t hi, hpost value t hi hp⟩
  | request op next ih =>
      intro t hst
      refine ⟨hinv t (h t hst).1, fun hpermits => ?_⟩
      obtain ⟨hg, hnext⟩ := (h t hst).2 hpermits
      exact ⟨hguar op t hg, ih _ hnext⟩

/-- The rule of sequence: the second program runs from what the first one
establishes. -/
theorem Safe.seq {program : Program Op Reply A} {f : A → Program Op Reply B}
    {postB : B → State → Prop} {s : State} (h : Safe M guar inv post program s)
    (hf : ∀ value t, post value t → Safe M guar inv postB (f value) t) :
    Safe M guar inv postB (program >>= f) s :=
  Safe.bind (h.mono (fun _ _ hguar => hguar) (fun _ hinv => hinv)
    fun value t _ hpost => hf value t hpost)

/-- Safety survives every transaction and every action of the others. -/
theorem Safe.step {c d : Program Op Reply A × State}
    (h : Safe M guar inv post c.1 c.2) (hstep : Step M c d) :
    Safe M guar inv post d.1 d.2 := by
  cases hstep with
  | own hpermits => exact ((h _ .refl).2 hpermits).2
  | env henv => exact h.env henv

theorem Safe.steps {c d : Program Op Reply A × State}
    (h : Safe M guar inv post c.1 c.2) (hsteps : ReflTransGen (Step M) c d) :
    Safe M guar inv post d.1 d.2 := by
  induction hsteps with
  | refl => exact h
  | tail _ hstep ih => exact ih.step hstep

/-- Safety survives when less interference or fewer requests are possible. -/
theorem Safe.restrict {N : Setting Op Reply State} (hexec : N.exec = M.exec)
    (henv : ∀ s t, N.env s t → M.env s t) {program : Program Op Reply A} {s : State}
    (hpermits : program.Every fun op => ∀ t, N.permits op t → M.permits op t)
    (h : Safe M guar inv post program s) : Safe N guar inv post program s := by
  induction program generalizing s with
  | ret value => exact fun t hst => h t (ReflTransGen.mono henv _ _ hst)
  | request op next ih =>
      intro t hst
      obtain ⟨hinv, hown⟩ := h t (ReflTransGen.mono henv _ _ hst)
      refine ⟨hinv, fun hpermitted => ?_⟩
      obtain ⟨hguar, hnext⟩ := hown (hpermits.1 t hpermitted)
      rw [hexec]
      exact ⟨hguar, ih _ (hpermits.2 _) hnext⟩

/-! ### The undisturbed run -/

/-- Every request of the undisturbed run is permitted where it is made. -/
def Permitted (M : Setting Op Reply State) : Program Op Reply A → State → Prop
  | ret _, _ => True
  | request op next, s =>
      M.permits op s ∧ Permitted M (next (M.exec op s).1) (M.exec op s).2

theorem Permitted.of_every {P : Op → Prop} (hpermits : ∀ op s, P op → M.permits op s)
    {program : Program Op Reply A} (hprogram : program.Every P) (s : State) :
    Permitted M program s := by
  induction program generalizing s with
  | ret value => trivial
  | request op next ih => exact ⟨hpermits op s hprogram.1, ih _ (hprogram.2 _) _⟩

theorem Permitted.bind {program : Program Op Reply A} {f : A → Program Op Reply B} {s : State}
    (h : Permitted M program s)
    (hf : Permitted M (f (program.run M.exec s).1) (program.run M.exec s).2) :
    Permitted M (program >>= f) s := by
  induction program generalizing s with
  | ret value => exact hf
  | request op next ih => exact ⟨h.1, ih _ h.2 hf⟩

/-- The undisturbed run is one of the executions under interference. -/
theorem steps_run {program : Program Op Reply A} {s : State} (h : Permitted M program s) :
    ReflTransGen (Step M) (program, s)
      (Program.ret (program.run M.exec s).1, (program.run M.exec s).2) := by
  induction program generalizing s with
  | ret value => exact .refl
  | request op next ih => exact .head (.own h.1) (ih _ h.2)

/-- The first `n` requests of the undisturbed run. -/
def runFor (M : Setting Op Reply State) :
    ℕ → Program Op Reply A × State → Program Op Reply A × State
  | n + 1, (request op next, s) => runFor M n (next (M.exec op s).1, (M.exec op s).2)
  | _, c => c

theorem steps_runFor {P : Op → Prop} (hpermits : ∀ op s, P op → M.permits op s) (n : ℕ)
    {c : Program Op Reply A × State} (hc : c.1.Every P) :
    ReflTransGen (Step M) c (runFor M n c) ∧ (runFor M n c).1.Every P := by
  induction n generalizing c with
  | zero => exact ⟨.refl, hc⟩
  | succ n ih =>
      obtain ⟨program, s⟩ := c
      cases program with
      | ret value => exact ⟨.refl, hc⟩
      | request op next =>
          obtain ⟨hsteps, hrest⟩ := ih (c := (next (M.exec op s).1, (M.exec op s).2))
            (hc.2 (M.exec op s).1)
          exact ⟨.head (.own (hpermits op s hc.1)) hsteps, hrest⟩

/-! ## A server that takes one call after the other -/

section Server

variable (M)
variable (body : Call → A → Program Op Reply A)
variable (initial : A × State → Prop)

/-- The configurations a server can reach, with the calls it has taken so far.
A call starts when the previous one has returned; the returned value is the
server's own memory between calls. -/
inductive Runs : List Call → Program Op Reply A × State → Prop
  | start {value : A} {s : State} (hinitial : initial (value, s)) :
      Runs [] (ret value, s)
  | call {calls : List Call} {value : A} {s : State} (call : Call)
      (hruns : Runs calls (ret value, s)) :
      Runs (calls ++ [call]) (body call value, s)
  | step {calls : List Call} {c d : Program Op Reply A × State}
      (hruns : Runs calls c) (hstep : Step M c d) : Runs calls d

variable {M body initial}

theorem Runs.steps {calls : List Call} {c d : Program Op Reply A × State}
    (hruns : Runs M body initial calls c) (hsteps : ReflTransGen (Step M) c d) :
    Runs M body initial calls d := by
  induction hsteps with
  | refl => exact hruns
  | tail _ hstep ih => exact ih.step hstep

/-- A call that nobody disturbs. -/
theorem Runs.call_run {calls : List Call} {value : A} {s : State}
    (hruns : Runs M body initial calls (ret value, s)) (call : Call)
    (h : Permitted M (body call value) s) :
    Runs M body initial (calls ++ [call])
      (ret ((body call value).run M.exec s).1, ((body call value).run M.exec s).2) :=
  (hruns.call call).steps (steps_run h)

/-- What each call makes of what holds after the calls before it. -/
theorem Runs.safe {post : List Call → A → State → Prop}
    (hinitial : ∀ value s, initial (value, s) → post [] value s)
    (hstable : ∀ value, Stable M (post [] value))
    (hinv : ∀ value s, post [] value s → inv s)
    (hcall : ∀ calls call value s, post calls value s →
      Safe M guar inv (post (calls ++ [call])) (body call value) s)
    {calls : List Call} {c : Program Op Reply A × State}
    (hruns : Runs M body initial calls c) :
    Safe M guar inv (post calls) c.1 c.2 := by
  induction hruns with
  | start h => exact Safe.ret (hstable _) (hinitial _ _ h) (hinv _) (fun _ ht => ht)
  | call call _ ih => exact hcall _ call _ _ ih.returned
  | step _ hstep ih => exact ih.step hstep

end Server

end N64San.Transaction
