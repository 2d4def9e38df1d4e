import Mathlib.Data.List.Basic
import Mathlib.Data.Nat.ModEq
import Mathlib.Tactic.Ring

/-!
# Circular buffers

A circular buffer of `n` cells with a read index `get` and a write index `put`.
The pair denotes the window of `(put - get) mod n` cells that starts at `get`;
`get = put` denotes the empty window, so a window never holds all `n` cells.
This file proves how windows split, shrink at the front, grow at the back, and
ignore writes to the cells outside them.
-/

namespace N64San.CircularBuffer

variable {α : Type*} {n : ℕ}

/-- `(put - get) mod n` for indices `get, put < n`. -/
def distance (n get put : ℕ) : ℕ :=
  (put + n - get) % n

/-- The `len` cells that start at index `get`, in order. -/
def window (n : ℕ) (cells : ℕ → α) (get len : ℕ) : List α :=
  (List.range len).map fun i => cells ((get + i) % n)

/-! ## The distance from one index to another -/

theorem distance_eq_ite {get put : ℕ} (hget : get < n) (hput : put < n) :
    distance n get put = if get ≤ put then put - get else put + n - get := by
  unfold distance
  split_ifs with h
  · rw [show put + n - get = put - get + n by omega, Nat.add_mod_right,
      Nat.mod_eq_of_lt (by omega)]
  · exact Nat.mod_eq_of_lt (by omega)

theorem distance_lt (hn : 0 < n) (get put : ℕ) : distance n get put < n :=
  Nat.mod_lt _ hn

@[simp]
theorem distance_self {get : ℕ} : distance n get get = 0 := by
  simp [distance]

/-- Walking the distance from `get` ends at `put`. -/
theorem add_distance_mod {get put : ℕ} (hget : get < n) (hput : put < n) :
    (get + distance n get put) % n = put := by
  rw [distance_eq_ite hget hput]
  split_ifs with h
  · rw [Nat.add_sub_cancel' h, Nat.mod_eq_of_lt hput]
  · rw [show get + (put + n - get) = put + n by omega, Nat.add_mod_right,
      Nat.mod_eq_of_lt hput]

/-- A number below `n` that leads from `get` to `put` is the distance. -/
theorem distance_eq_of_add_mod {get put k : ℕ} (hget : get < n) (hk : k < n)
    (h : (get + k) % n = put) : distance n get put = k := by
  have hn : 0 < n := by omega
  have hput : put < n := h ▸ Nat.mod_lt _ hn
  have hmod : get + distance n get put ≡ get + k [MOD n] := by
    rw [Nat.ModEq, add_distance_mod hget hput, h]
  have hdist : distance n get put ≡ k [MOD n] := Nat.ModEq.add_left_cancel' get hmod
  exact Nat.ModEq.eq_of_lt_of_lt hdist (distance_lt hn get put) hk

/-- Moving `get` forward by `k` inside the window shortens the window by `k`. -/
theorem distance_advance_get {get put k : ℕ} (hget : get < n) (hput : put < n)
    (hk : k ≤ distance n get put) :
    distance n ((get + k) % n) put = distance n get put - k := by
  have hn : 0 < n := by omega
  have hlt := distance_lt hn get put
  apply distance_eq_of_add_mod (Nat.mod_lt _ hn) (by omega)
  rw [Nat.mod_add_mod, show get + k + (distance n get put - k) =
    get + distance n get put by omega]
  exact add_distance_mod hget hput

/-- Moving `put` forward by `k` lengthens the window by `k`, modulo `n`. -/
theorem distance_advance_put {get put k : ℕ} (hget : get < n) (hput : put < n) :
    distance n get ((put + k) % n) = (distance n get put + k) % n := by
  have hn : 0 < n := by omega
  apply distance_eq_of_add_mod hget (Nat.mod_lt _ hn)
  rw [Nat.add_mod_mod, ← Nat.add_assoc, ← Nat.mod_add_mod, add_distance_mod hget hput]

/-! ## Windows -/

@[simp]
theorem length_window (cells : ℕ → α) (get len : ℕ) :
    (window n cells get len).length = len := by
  simp [window]

@[simp]
theorem window_zero (cells : ℕ → α) (get : ℕ) : window n cells get 0 = [] := rfl

@[simp]
theorem window_mod (cells : ℕ → α) (get len : ℕ) :
    window n cells (get % n) len = window n cells get len := by
  simp [window]

/-- A window of `a + b` cells is its first `a` cells followed by the next `b`. -/
theorem window_add (cells : ℕ → α) (get a b : ℕ) :
    window n cells get (a + b) =
      window n cells get a ++ window n cells ((get + a) % n) b := by
  rw [window_mod]
  simp [window, List.range_add, Nat.add_assoc, Function.comp_def]

/-- Consuming `k` cells leaves the window that starts `k` cells later. -/
theorem window_drop (cells : ℕ → α) {get len k : ℕ} (hk : k ≤ len) :
    (window n cells get len).drop k =
      window n cells ((get + k) % n) (len - k) := by
  obtain ⟨rest, rfl⟩ := Nat.exists_eq_add_of_le hk
  rw [window_add, List.drop_append_of_le_length (by simp)]
  simp

theorem window_congr {cells cells' : ℕ → α} {get len : ℕ}
    (h : ∀ i < len, cells ((get + i) % n) = cells' ((get + i) % n)) :
    window n cells get len = window n cells' get len := by
  apply List.map_congr_left
  intro i hi
  exact h i (List.mem_range.mp hi)

/-- Two offsets below `n` reach different cells. -/
theorem add_mod_ne {get i j : ℕ} (hij : i < j) (hj : j < n) :
    (get + i) % n ≠ (get + j) % n := by
  intro h
  have hmod : i ≡ j [MOD n] := Nat.ModEq.add_left_cancel' get h
  exact absurd (Nat.ModEq.eq_of_lt_of_lt hmod (by omega) hj) (by omega)

/-- Writing a cell beyond the window, but less than a full turn away, leaves
the window as it is. -/
theorem window_update_of_free (cells : ℕ → α) (value : α) {get len j : ℕ}
    (hlen : len ≤ j) (hj : j < n) :
    window n (Function.update cells ((get + j) % n) value) get len =
      window n cells get len := by
  apply window_congr
  intro i hi
  exact Function.update_of_ne (add_mod_ne (by omega) hj) _ _

/-- Writing the cell right behind a window appends the value to it. -/
theorem window_update_succ (cells : ℕ → α) (value : α) {get len : ℕ}
    (hlen : len < n) :
    window n (Function.update cells ((get + len) % n) value) get (len + 1) =
      window n cells get len ++ [value] := by
  rw [window_add, window_update_of_free cells value le_rfl hlen]
  simp [window]

end N64San.CircularBuffer
