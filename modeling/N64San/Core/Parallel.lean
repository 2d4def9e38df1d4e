import Mathlib.Algebra.GroupWithZero.Nat
import Mathlib.Logic.Function.Basic
import N64San.Core.Transaction

/-!
# Any number of threads at one device

Threads share a device and take turns, one request at a time, while a host acts
as it likes.  If what each thread guarantees is what every other one relies on,
each of them is safe in every configuration that the pool reaches.  This file
also gives translations, by which a program written against one device becomes
a thread at another one.
-/

namespace N64San.Transaction

open Relation Program

variable {ι Op Op' Reply Reply' State State' A B : Type}

namespace Program

/-- The program with every request replaced by a program for it. -/
def translate (handler : Op → Program Op' Reply' Reply) :
    Program Op Reply A → Program Op' Reply' A
  | ret value => ret value
  | request op next => handler op >>= fun reply => (next reply).translate handler

section Translate

variable (handler : Op → Program Op' Reply' Reply)

@[simp]
theorem translate_ret (value : A) :
    (ret value : Program Op Reply A).translate handler = ret value := rfl

@[simp]
theorem translate_request (op : Op) (next : Reply → Program Op Reply A) :
    (request op next).translate handler =
      handler op >>= fun reply => (next reply).translate handler := rfl

theorem translate_bind (program : Program Op Reply A) (f : A → Program Op Reply B) :
    (program >>= f).translate handler =
      program.translate handler >>= fun value => (f value).translate handler := by
  induction program with
  | ret value => rfl
  | request op next ih =>
      calc
        (request op next >>= f).translate handler =
            handler op >>= fun reply => (next reply >>= f).translate handler := rfl
        _ = handler op >>= fun reply => (next reply).translate handler >>= fun value =>
              (f value).translate handler := by simp only [ih]
        _ = (request op next).translate handler >>= fun value =>
              (f value).translate handler := by rw [translate_request, bind_assoc]

variable {handler}

end Translate

/-! ### How long a program takes -/

/-- Whatever the replies are, the program returns a value that satisfies `P`, and
its requests cost at most `n` together. -/
def ReturnsWithin (cost : Op → ℕ) (P : A → Prop) : Program Op Reply A → ℕ → Prop
  | ret value, _ => P value
  | request op next, n =>
      cost op ≤ n ∧ ∀ reply, (next reply).ReturnsWithin cost P (n - cost op)

section ReturnsWithin

variable {cost : Op → ℕ} {P : A → Prop} {Q : B → Prop} {m n : ℕ}

theorem ReturnsWithin.of_le {program : Program Op Reply A}
    (h : program.ReturnsWithin cost P m) (hmn : m ≤ n) : program.ReturnsWithin cost P n := by
  induction program generalizing m n with
  | ret value => exact h
  | request op next ih =>
      exact ⟨Nat.le_trans h.1 hmn, fun reply => ih reply (h.2 reply) (Nat.sub_le_sub_right hmn _)⟩

theorem ReturnsWithin.request {op : Op} {next : Reply → Program Op Reply A}
    (h : ∀ reply, (next reply).ReturnsWithin cost P n) :
    (request op next).ReturnsWithin cost P (cost op + n) :=
  ⟨Nat.le_add_right _ _, fun reply => by
    rw [Nat.add_sub_cancel_left]
    exact h reply⟩

theorem ReturnsWithin.bind {program : Program Op Reply A} {f : A → Program Op Reply B}
    (h : program.ReturnsWithin cost P m)
    (hf : ∀ value, P value → (f value).ReturnsWithin cost Q n) :
    (program >>= f).ReturnsWithin cost Q (m + n) := by
  induction program generalizing m with
  | ret value => exact (hf value h).of_le (Nat.le_add_left n m)
  | request op next ih =>
      refine ⟨Nat.le_trans h.1 (Nat.le_add_right m n), fun reply => ?_⟩
      rw [Nat.sub_add_comm h.1]
      exact ih reply (h.2 reply)

/-- Where no handler costs more than its request, no translation costs more than
its program. -/
theorem ReturnsWithin.translate {cost' : Op' → ℕ} {handler : Op → Program Op' Reply' Reply}
    (hhandler : ∀ op, (handler op).ReturnsWithin cost' (fun _ => True) (cost op))
    {program : Program Op Reply A} (h : program.ReturnsWithin cost P n) :
    (program.translate handler).ReturnsWithin cost' P n := by
  induction program generalizing n with
  | ret value => exact h
  | request op next ih =>
      rw [translate_request, ← Nat.add_sub_cancel' h.1]
      exact (hhandler op).bind fun reply _ => ih reply (h.2 reply)

end ReturnsWithin

end Program

/-! ## Pools -/

section Pool

variable [DecidableEq ι] (M : ι → Setting Op Reply State) (host : State → State → Prop)
variable (starts : ι → Program Op Reply A → Prop)

/-- The threads of a pool and the state they share. -/
abbrev Config (ι Op Reply State A : Type) : Type :=
  (ι → Program Op Reply A) × State

/-- One request of one thread, the start of a call by an idle thread, or one
action of the host. -/
inductive PoolStep : Config ι Op Reply State A → Config ι Op Reply State A → Prop
  | own {pool : ι → Program Op Reply A} {s : State} (i : ι) {op : Op}
      {next : Reply → Program Op Reply A} (hi : pool i = request op next)
      (hpermits : (M i).permits op s) :
      PoolStep (pool, s)
        (Function.update pool i (next ((M i).exec op s).1), ((M i).exec op s).2)
  | call {pool : ι → Program Op Reply A} {s : State} (i : ι) {value : A}
      {program : Program Op Reply A} (hi : pool i = ret value)
      (hstart : starts i program) :
      PoolStep (pool, s) (Function.update pool i program, s)
  | host {pool : ι → Program Op Reply A} {s t : State} (hhost : host s t) :
      PoolStep (pool, s) (pool, t)

variable {M host starts}
variable {guar : ι → Op → State → Prop} {inv : ι → State → Prop}
variable {post : ι → A → State → Prop}

/-- Every thread of the configuration is safe. -/
def AllSafe (M : ι → Setting Op Reply State) (guar : ι → Op → State → Prop)
    (inv : ι → State → Prop) (post : ι → A → State → Prop)
    (c : Config ι Op Reply State A) : Prop :=
  ∀ i, Safe (M i) (guar i) (inv i) (post i) (c.1 i) c.2

/-- A step keeps all threads safe: the thread that moves by its own safety, the
other ones because they rely on no more than it guarantees. -/
theorem AllSafe.step (hhost : ∀ i s t, host s t → (M i).env s t)
    (hguar : ∀ i j, j ≠ i → ∀ op s, guar i op s → (M j).env s ((M i).exec op s).2)
    (hstart : ∀ i program, starts i program → ∀ value s, inv i s → post i value s →
      Safe (M i) (guar i) (inv i) (post i) program s)
    {c d : Config ι Op Reply State A} (h : AllSafe M guar inv post c)
    (hstep : PoolStep M host starts c d) : AllSafe M guar inv post d := by
  intro j
  cases hstep with
  | @own pool s i op next hi hpermits =>
      have hown : Safe (M i) (guar i) (inv i) (post i) (request op next) s := hi ▸ h i
      by_cases hj : j = i
      · subst hj
        change Safe _ _ _ _ (Function.update pool j _ j) _
        rw [Function.update_self]
        exact hown.step (.own hpermits)
      · change Safe _ _ _ _ (Function.update pool i _ j) _
        rw [Function.update_of_ne hj]
        exact (h j).env (hguar i j hj op s (hown.requested hpermits))
  | @call pool s i value program hi hprogram =>
      by_cases hj : j = i
      · subst hj
        have hidle : Safe (M j) (guar j) (inv j) (post j) (ret value) s := hi ▸ h j
        change Safe _ _ _ _ (Function.update pool j _ j) _
        rw [Function.update_self]
        exact hstart j program hprogram value s hidle.holds hidle.returned
      · change Safe _ _ _ _ (Function.update pool i _ j) _
        rw [Function.update_of_ne hj]
        exact h j
  | host hmove => exact (h j).env (hhost j _ _ hmove)

/-- The parallel rule. -/
theorem AllSafe.steps (hhost : ∀ i s t, host s t → (M i).env s t)
    (hguar : ∀ i j, j ≠ i → ∀ op s, guar i op s → (M j).env s ((M i).exec op s).2)
    (hstart : ∀ i program, starts i program → ∀ value s, inv i s → post i value s →
      Safe (M i) (guar i) (inv i) (post i) program s)
    {c d : Config ι Op Reply State A} (h : AllSafe M guar inv post c)
    (hsteps : ReflTransGen (PoolStep M host starts) c d) : AllSafe M guar inv post d := by
  induction hsteps with
  | refl => exact h
  | tail _ hstep ih => exact ih.step hhost hguar hstart hstep

/-- The named threads make one request each, in this order; a thread that has
returned makes none. -/
def runThreads (M : ι → Setting Op Reply State) :
    List ι → Config ι Op Reply State A → Config ι Op Reply State A
  | [], c => c
  | i :: schedule, (pool, s) =>
      match pool i with
      | ret _ => runThreads M schedule (pool, s)
      | request op next =>
          runThreads M schedule
            (Function.update pool i (next ((M i).exec op s).1), ((M i).exec op s).2)

theorem runThreads_steps (hpermits : ∀ i op s, (M i).permits op s) (schedule : List ι)
    (c : Config ι Op Reply State A) :
    ReflTransGen (PoolStep M host starts) c (runThreads M schedule c) := by
  induction schedule generalizing c with
  | nil => exact .refl
  | cons i schedule ih =>
      obtain ⟨pool, s⟩ := c
      rw [runThreads]
      split
      · exact ih _
      · next op next hi => exact .head (.own i hi (hpermits i op s)) (ih _)

/-! ### One thread among others -/

end Pool

end N64San.Transaction
