import N64San.Core.Transaction

/-!
# Two programs at one device

Two parties share a device and take turns, one request at a time.  This file
gives their interleavings and two facts about them: a party whose requests the
other one cannot observe might as well have run first, and a party that is
about to make its last request decides what that request leaves behind.
-/

namespace N64San.Transaction

open Program

variable {Op Reply State A B : Type}

namespace Program

/-- The program makes requests in `Q` until it makes one in `F`. -/
def Until (F Q : Op → Prop) : Program Op Reply A → Prop
  | ret _ => True
  | request op next => F op ∨ (Q op ∧ ∀ reply, (next reply).Until F Q)

/-- The program returns right after any request in `L`. -/
def StopsAfter (L : Op → Prop) : Program Op Reply A → Prop
  | ret _ => True
  | request op next =>
      (L op → ∀ reply, ∃ value, next reply = ret value) ∧
        ∀ reply, (next reply).StopsAfter L

/-- Whatever the replies, the program makes requests in `P` and then the single
request `last`, right after which it returns. -/
def EndsWith (last : Op) (P : Op → Prop) : Program Op Reply A → Prop
  | ret _ => False
  | request op next =>
      (P op ∧ ∀ reply, (next reply).EndsWith last P) ∨
        (op = last ∧ ∀ reply, ∃ value, next reply = ret value)

/-- What only the last request touches is what that request makes of it. -/
theorem EndsWith.run_eq {last : Op} {P : Op → Prop} {program : Program Op Reply A}
    (hprogram : program.EndsWith last P) {exec : Op → State → Reply × State}
    {view : State → B} {value : B} (hlast : ∀ s, view (exec last s).2 = value)
    (s : State) : view (program.run exec s).2 = value := by
  induction program generalizing s with
  | ret _ => exact hprogram.elim
  | request op next ih =>
      rcases hprogram with ⟨_, hnext⟩ | ⟨rfl, hret⟩
      · exact ih _ (hnext _) _
      · obtain ⟨result, hresult⟩ := hret (exec op s).1
        change view ((next (exec op s).1).run exec (exec op s).2).2 = value
        rw [hresult]
        exact hlast s

end Program

/-- The two parties of an interleaving. -/
inductive Side
  | left
  | right
  deriving DecidableEq, Repr

def Side.other : Side → Side
  | left => right
  | right => left

@[simp]
theorem Side.other_other (side : Side) : side.other.other = side := by
  cases side <;> rfl

theorem Side.other_ne (side : Side) : side.other ≠ side := by
  cases side <;> decide

/-- `events` is the order in which two programs made their requests on the way
from one configuration to the other. -/
inductive Interleaving (exec : Op → State → Reply × State) :
    Program Op Reply A × Program Op Reply B × State → List (Side × Op) →
      Program Op Reply A × Program Op Reply B × State → Prop
  | done {c} : Interleaving exec c [] c
  | left {op : Op} {next : Reply → Program Op Reply A}
      {other : Program Op Reply B} {s : State} {events : List (Side × Op)} {c}
      (hrest : Interleaving exec (next (exec op s).1, other, (exec op s).2) events c) :
      Interleaving exec (request op next, other, s) ((.left, op) :: events) c
  | right {op : Op} {next : Reply → Program Op Reply B}
      {other : Program Op Reply A} {s : State} {events : List (Side × Op)} {c}
      (hrest : Interleaving exec (other, next (exec op s).1, (exec op s).2) events c) :
      Interleaving exec (other, request op next, s) ((.right, op) :: events) c

/-- The two programs under a given schedule: the requests made and the
configuration reached.  A party that has returned ends the schedule. -/
def runSchedule (exec : Op → State → Reply × State) :
    List Side → Program Op Reply A × Program Op Reply B × State →
      List (Side × Op) × (Program Op Reply A × Program Op Reply B × State)
  | .left :: sides, (request op next, q, s) =>
      let rest := runSchedule exec sides (next (exec op s).1, q, (exec op s).2)
      ((.left, op) :: rest.1, rest.2)
  | .right :: sides, (p, request op next, s) =>
      let rest := runSchedule exec sides (p, next (exec op s).1, (exec op s).2)
      ((.right, op) :: rest.1, rest.2)
  | _, c => ([], c)

theorem runSchedule_interleaving (exec : Op → State → Reply × State) (sides : List Side)
    (c : Program Op Reply A × Program Op Reply B × State) :
    Interleaving exec c (runSchedule exec sides c).1 (runSchedule exec sides c).2 := by
  induction sides, c using runSchedule.induct exec with
  | case1 sides op next q s ih => exact .left ih
  | case2 sides p op next s ih => exact .right ih
  | case3 sides c =>
      rw [runSchedule]
      · exact .done
      all_goals assumption

/-- The same events with the parties' names exchanged. -/
def swapSides (events : List (Side × Op)) : List (Side × Op) :=
  events.map fun event => (event.1.other, event.2)

variable {exec : Op → State → Reply × State}
variable {p : Program Op Reply A} {q : Program Op Reply B} {s t : State}
variable {events : List (Side × Op)}

theorem Interleaving.swap {p' : Program Op Reply A} {q' : Program Op Reply B}
    (h : Interleaving exec (p, q, s) events (p', q', t)) :
    Interleaving exec (q, p, s) (swapSides events) (q', p', t) := by
  generalize hc : (p, q, s) = c at h
  generalize hd : (p', q', t) = d at h
  induction h generalizing p q s with
  | done =>
      cases hc
      cases hd
      exact .done
  | left _ ih =>
      cases hc
      exact .right (ih rfl hd)
  | right _ ih =>
      cases hc
      exact .left (ih rfl hd)

/-- Next to a party that has returned, the other one runs undisturbed. -/
theorem Interleaving.of_left_returned {a a' : A} {b : B}
    (h : Interleaving exec (ret a, q, s) events (ret a', ret b, t)) :
    t = (q.run exec s).2 := by
  induction events generalizing q s with
  | nil =>
      cases h
      rfl
  | cons event events ih =>
      cases h with
      | right hrest =>
          have hrun := ih hrest
          exact hrun

/-- While the right party makes requests that neither change the device nor see
what the left party does, the left party might as well have run first. -/
theorem Interleaving.left_first {P Q F L : Op → Prop}
    (hread : ∀ r s, Q r → (exec r s).2 = s)
    (hblind : ∀ o r s, P o → Q r → (exec r (exec o s).2).1 = (exec r s).1)
    {before after : List (Side × Op)} {last : Op} {a : A} {b : B}
    (h : Interleaving exec (p, q, s) (before ++ (.left, last) :: after)
      (ret a, ret b, t))
    (hp : p.Every P) (hstop : p.StopsAfter L) (hlast : L last) (hq : q.Until F Q)
    (hbefore : ∀ op, (Side.right, op) ∈ before → ¬ F op) :
    t = (q.run exec (p.run exec s).2).2 := by
  induction before generalizing p q s with
  | nil =>
      cases h with
      | @left _ next _ _ _ _ hrest =>
          obtain ⟨value, hvalue⟩ := hstop.1 hlast (exec last s).1
          rw [hvalue] at hrest
          change t = (q.run exec ((next (exec last s).1).run exec (exec last s).2).2).2
          rw [hvalue]
          exact hrest.of_left_returned
  | cons event before ih =>
      have hrestBefore : ∀ op, (Side.right, op) ∈ before → ¬ F op :=
        fun op hop => hbefore op (List.mem_cons_of_mem _ hop)
      cases h with
      | left hrest =>
          have hrun := ih hrest (hp.2 _) (hstop.2 _) hq hrestBefore
          exact hrun
      | @right op next _ _ _ _ hrest =>
          rcases hq with hfirst | ⟨hop, hnext⟩
          · exact absurd hfirst (hbefore op List.mem_cons_self)
          · have hstay : (exec op s).2 = s := hread op s hop
            have hreply : (exec op (p.run exec s).2).1 = (exec op s).1 :=
              hp.run_preserves (fun u => (exec op u).1)
                (fun o u ho => hblind o op u ho hop) s
            rw [hstay] at hrest
            have hrun := ih hrest hp hstop (hnext _) hrestBefore
            rw [hrun]
            change _ = ((next (exec op (p.run exec s).2).1).run exec
              (exec op (p.run exec s).2).2).2
            rw [hread op _ hop, hreply]

end N64San.Transaction
