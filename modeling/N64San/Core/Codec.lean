import Mathlib.Data.List.Basic
import Mathlib.Data.List.TakeWhile

/-!
# Records in a text

A codec writes values into a text and reads them off the front of one.  Its
laws say that both agree: what was written is read back, whatever follows it,
and what is read stands there as it would have been written.
-/

namespace N64San.Framing

variable {T A B : Type}

/-- Values of `A` in a text over `T`. -/
structure Codec (T A : Type) where
  Valid : A → Prop
  write : A → List T
  read : List T → Option (A × List T)
  read_write : ∀ {value : A}, Valid value → ∀ rest,
    read (write value ++ rest) = some (value, rest)
  write_read : ∀ {text : List T} {value : A} {rest : List T},
    read text = some (value, rest) → Valid value ∧ text = write value ++ rest

theorem dropPrefix?_append [DecidableEq T] (mark rest : List T) :
    (mark ++ rest).dropPrefix? mark = some rest :=
  List.dropPrefix?_append_of_beq rest (beq_self_eq_true mark)

theorem eq_append_of_dropPrefix? [DecidableEq T] {text mark rest : List T}
    (h : text.dropPrefix? mark = some rest) : text = mark ++ rest := by
  obtain ⟨mark', htext, hmark⟩ := List.dropPrefix?_eq_some_iff.mp h
  rw [htext, eq_of_beq hmark]

theorem dropSuffix?_append [DecidableEq T] (value lead : List T) :
    (value ++ lead).dropSuffix? lead = some value :=
  List.dropSuffix?_eq_some_iff.mpr ⟨lead, rfl, beq_self_eq_true lead⟩

theorem eq_append_of_dropSuffix? [DecidableEq T] {text value lead : List T}
    (h : text.dropSuffix? lead = some value) : text = value ++ lead := by
  obtain ⟨lead', htext, hlead⟩ := List.dropSuffix?_eq_some_iff.mp h
  rw [htext, eq_of_beq hlead]

section Stop

variable [DecidableEq T] {stop : T} {text : List T}

theorem takeWhile_until (htext : stop ∉ text) (rest : List T) :
    (text ++ stop :: rest).takeWhile (· ≠ stop) = text := by
  have hkeep : ∀ c ∈ text, decide (c ≠ stop) = true := fun c hc =>
    decide_eq_true fun heq => htext (heq ▸ hc)
  rw [List.takeWhile_append_of_pos hkeep, List.takeWhile_cons_of_neg (by simp),
    List.append_nil]

theorem dropWhile_until (htext : stop ∉ text) (rest : List T) :
    (text ++ stop :: rest).dropWhile (· ≠ stop) = stop :: rest := by
  have hkeep : ∀ c ∈ text, decide (c ≠ stop) = true := fun c hc =>
    decide_eq_true fun heq => htext (heq ▸ hc)
  rw [List.dropWhile_append_of_pos hkeep, List.dropWhile_cons_of_neg (by simp)]

theorem stop_notMem_takeWhile (text : List T) : stop ∉ text.takeWhile (· ≠ stop) := by
  intro hmem
  have hne := List.mem_takeWhile_imp hmem
  simp at hne

end Stop

namespace Codec

/-- A mark in front of a value. -/
def after [DecidableEq T] (mark : List T) (c : Codec T A) : Codec T A where
  Valid := c.Valid
  write value := mark ++ c.write value
  read text := (text.dropPrefix? mark).bind c.read
  read_write hvalue rest := by
    rw [List.append_assoc, dropPrefix?_append, Option.bind_some, c.read_write hvalue]
  write_read h := by
    obtain ⟨rest', hmark, hread⟩ := Option.bind_eq_some_iff.mp h
    obtain ⟨hvalue, hrest⟩ := c.write_read hread
    refine ⟨hvalue, ?_⟩
    rw [eq_append_of_dropPrefix? hmark, hrest, List.append_assoc]

/-- A field that ends at the first `stop`; `lead` stands between the field and
the `stop`, and `tail` behind it. -/
def field [DecidableEq T] (lead : List T) (stop : T) (tail : List T) (hlead : stop ∉ lead) :
    Codec T (List T) where
  Valid value := stop ∉ value
  write value := value ++ lead ++ stop :: tail
  read text :=
    ((text.takeWhile (· ≠ stop)).dropSuffix? lead).bind fun value =>
      ((text.dropWhile (· ≠ stop)).dropPrefix? (stop :: tail)).map fun rest => (value, rest)
  read_write {value} hvalue rest := by
    have hstop : stop ∉ value ++ lead := by
      rw [List.mem_append, not_or]
      exact ⟨hvalue, hlead⟩
    have htext : value ++ lead ++ stop :: tail ++ rest =
        (value ++ lead) ++ stop :: (tail ++ rest) := by simp
    have hdrop : (stop :: (tail ++ rest)).dropPrefix? (stop :: tail) = some rest :=
      dropPrefix?_append (stop :: tail) rest
    rw [htext, takeWhile_until hstop, dropWhile_until hstop, dropSuffix?_append,
      Option.bind_some, hdrop, Option.map_some]
  write_read {text value rest} h := by
    obtain ⟨value', hvalue, hmap⟩ := Option.bind_eq_some_iff.mp h
    obtain ⟨rest', hrest, heq⟩ := Option.map_eq_some_iff.mp hmap
    cases heq
    have htake := eq_append_of_dropSuffix? hvalue
    have hdrop := eq_append_of_dropPrefix? hrest
    have hstop : stop ∉ value ++ lead := by
      rw [← htake]
      exact stop_notMem_takeWhile text
    refine ⟨fun hmem => hstop (List.mem_append_left lead hmem), ?_⟩
    calc
      text = text.takeWhile (· ≠ stop) ++ text.dropWhile (· ≠ stop) :=
        List.takeWhile_append_dropWhile.symm
      _ = value ++ lead ++ (stop :: tail ++ rest) := by rw [htake, hdrop]
      _ = value ++ lead ++ stop :: tail ++ rest := (List.append_assoc _ _ _).symm

/-- One value after the other. -/
def pair (c : Codec T A) (d : Codec T B) : Codec T (A × B) where
  Valid value := c.Valid value.1 ∧ d.Valid value.2
  write value := c.write value.1 ++ d.write value.2
  read text :=
    (c.read text).bind fun first =>
      (d.read first.2).map fun second => ((first.1, second.1), second.2)
  read_write hvalue rest := by
    rw [List.append_assoc, c.read_write hvalue.1, Option.bind_some, d.read_write hvalue.2,
      Option.map_some]
  write_read h := by
    obtain ⟨first, hfirst, hmap⟩ := Option.bind_eq_some_iff.mp h
    obtain ⟨second, hsecond, heq⟩ := Option.map_eq_some_iff.mp hmap
    cases heq
    obtain ⟨hvalid, htext⟩ := c.write_read hfirst
    obtain ⟨hvalid', hrest⟩ := d.write_read hsecond
    refine ⟨⟨hvalid, hvalid'⟩, ?_⟩
    rw [htext, hrest, List.append_assoc]

/-! ## Many records -/

variable (c : Codec T A)

def writeAll (values : List A) : List T :=
  values.flatMap c.write

/-- Read at most `n` records, and the whole text. -/
def readMany : ℕ → List T → Option (List A)
  | _, [] => some []
  | 0, _ :: _ => none
  | n + 1, t :: text =>
      (c.read (t :: text)).bind fun first =>
        (readMany n first.2).map fun values => first.1 :: values

def readAll (text : List T) : Option (List A) :=
  c.readMany text.length text

variable {c}

theorem readMany_writeAll (hne : ∀ value, c.write value ≠ []) {values : List A}
    (hvalues : ∀ value ∈ values, c.Valid value) {n : ℕ} (hn : values.length ≤ n) :
    c.readMany n (c.writeAll values) = some values := by
  induction values generalizing n with
  | nil => cases n <;> rfl
  | cons value values ih =>
      obtain ⟨n, rfl⟩ : ∃ m, n = m + 1 := Nat.exists_eq_add_one.mpr (Nat.zero_lt_of_lt hn)
      have hread := c.read_write (hvalues value List.mem_cons_self) (c.writeAll values)
      have hrest := ih (fun v hv => hvalues v (List.mem_cons_of_mem value hv))
        (Nat.le_of_succ_le_succ hn)
      have hwrite : c.writeAll (value :: values) = c.write value ++ c.writeAll values := rfl
      obtain ⟨t, text, htext⟩ :=
        List.exists_cons_of_ne_nil (List.append_ne_nil_of_left_ne_nil (hne value)
          (c.writeAll values))
      rw [htext] at hread
      rw [hwrite, htext, readMany, hread, Option.bind_some, hrest, Option.map_some]

theorem writeAll_of_readMany {n : ℕ} {text : List T} {values : List A}
    (h : c.readMany n text = some values) :
    (∀ value ∈ values, c.Valid value) ∧ text = c.writeAll values := by
  induction n generalizing text values with
  | zero =>
      cases text with
      | nil =>
          cases h
          exact ⟨fun _ hmem => absurd hmem List.not_mem_nil, rfl⟩
      | cons t text => cases h
  | succ n ih =>
      cases text with
      | nil =>
          cases h
          exact ⟨fun _ hmem => absurd hmem List.not_mem_nil, rfl⟩
      | cons t text =>
          obtain ⟨first, hfirst, hmap⟩ := Option.bind_eq_some_iff.mp h
          obtain ⟨rest, hrest, rfl⟩ := Option.map_eq_some_iff.mp hmap
          obtain ⟨hvalid, htext⟩ := c.write_read hfirst
          obtain ⟨hvalues, hrest'⟩ := ih hrest
          refine ⟨List.forall_mem_cons.mpr ⟨hvalid, hvalues⟩, ?_⟩
          rw [htext, hrest']
          rfl

theorem length_le_writeAll (hne : ∀ value, c.write value ≠ []) (values : List A) :
    values.length ≤ (c.writeAll values).length := by
  induction values with
  | nil => exact Nat.le_refl 0
  | cons value values ih =>
      have hpos := List.length_pos_iff.mpr (hne value)
      have hwrite : c.writeAll (value :: values) = c.write value ++ c.writeAll values := rfl
      rw [hwrite, List.length_append, List.length_cons]
      omega

/-- A text can be read exactly if it is a sequence of valid records, and then
these are what is read. -/
theorem readAll_eq_some_iff (hne : ∀ value, c.write value ≠ []) {text : List T}
    {values : List A} :
    c.readAll text = some values ↔
      (∀ value ∈ values, c.Valid value) ∧ text = c.writeAll values := by
  constructor
  · exact writeAll_of_readMany
  · rintro ⟨hvalues, rfl⟩
    exact readMany_writeAll hne hvalues (length_le_writeAll hne values)

end Codec

end N64San.Framing
