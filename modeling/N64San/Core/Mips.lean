import N64San.Core.BigEndian

/-!
# Leaf functions of MIPS III and the assembler's reorder mode

The instructions of a small leaf function on 64-bit registers, up to the jump
that leaves it.  The instruction behind a jump, in its delay slot, still runs.
Unless it is told otherwise the assembler fills that slot itself, and what
follows the jump in the source ends up behind the slot.
-/

namespace N64San.Mips

open BigEndian

inductive Reg
  | v0 | v1 | a0 | a1 | a2 | a3 | t6 | t7 | sp | ra
  deriving DecidableEq, Repr

structure Cpu where
  regs : Reg → Double
  mem : Memory

namespace Cpu

def set (s : Cpu) (r : Reg) (value : Double) : Cpu :=
  { s with regs := Function.update s.regs r value }

@[simp]
theorem set_regs_self (s : Cpu) (r : Reg) (value : Double) : (s.set r value).regs r = value := by
  simp [set]

@[simp]
theorem set_regs_of_ne (s : Cpu) {r other : Reg} (value : Double) (hne : other ≠ r) :
    (s.set r value).regs other = s.regs other := by
  simp [set, hne]

/-- The address `offset(base)`. -/
def address (s : Cpu) (offset : Word) (base : Reg) : Word :=
  (s.regs base).setWidth 32 + offset

end Cpu

/-- Operands stand in the order of the assembly language. -/
inductive Instr
  | nop
  | sw (rt : Reg) (offset : Word) (base : Reg)
  | ld (rt : Reg) (offset : Word) (base : Reg)
  | dsllv (rd rt rs : Reg)
  | dsrav (rd rt rs : Reg)
  | dsll32 (rd rt : Reg) (sa : ℕ)
  | dsra32 (rd rt : Reg) (sa : ℕ)
  | jr (rs : Reg)
  deriving DecidableEq, Repr

namespace Instr

def isJump : Instr → Bool
  | jr _ => true
  | _ => false

/-- What the instruction does to registers and memory; a jump does nothing to
either. -/
def exec : Instr → Cpu → Cpu
  | nop, s => s
  | sw rt offset base, s =>
      { s with
        mem := writeWord s.mem (s.address offset base) ((s.regs rt).setWidth 32) }
  | ld rt offset base, s => s.set rt (readDouble s.mem (s.address offset base))
  | dsllv rd rt rs, s => s.set rd (s.regs rt <<< ((s.regs rs).toNat % 64))
  | dsrav rd rt rs, s => s.set rd ((s.regs rt).sshiftRight ((s.regs rs).toNat % 64))
  | dsll32 rd rt sa, s => s.set rd (s.regs rt <<< (sa + 32))
  | dsra32 rd rt sa, s => s.set rd ((s.regs rt).sshiftRight (sa + 32))
  | jr _, s => s

/-- The order of the two instructions does not matter. -/
def Commutes (i j : Instr) : Prop :=
  ∀ s, j.exec (i.exec s) = i.exec (j.exec s)

end Instr

/-- Straight-line code. -/
def execAll : List Instr → Cpu → Cpu
  | [], s => s
  | i :: code, s => execAll code (i.exec s)

/-- A call of the function whose machine code is given: the address it jumps
to and the state it leaves. -/
def call : List Instr → Cpu → Option (Double × Cpu)
  | [], _ => none
  | .jr rs :: code, s => code.head?.map fun slot => (s.regs rs, slot.exec s)
  | i :: code, s => call code (i.exec s)

/-! ## The assembler -/

/-- The delay slot of a jump through `rs` is filled with a `nop`, or with an
earlier instruction that may change places with all that follow it. -/
inductive FillsSlot (rs : Reg) (before : List Instr) : List Instr → Instr → Prop
  | nop : FillsSlot rs before before .nop
  | moved {front back : List Instr} {i : Instr} (hbefore : before = front ++ i :: back)
      (hcommutes : ∀ j ∈ back, i.Commutes j)
      (hkeeps : ∀ s, (i.exec s).regs rs = s.regs rs) :
      FillsSlot rs before (front ++ back) i

/-- Reorder mode, from the source to the machine code. -/
inductive Reorder : List Instr → List Instr → Prop
  | straight {code : List Instr} (hstraight : ∀ i ∈ code, i.isJump = false) :
      Reorder code code
  | jump {before body after machine : List Instr} {rs : Reg} {slot : Instr}
      (hstraight : ∀ i ∈ before, i.isJump = false)
      (hfills : FillsSlot rs before body slot) (hafter : Reorder after machine) :
      Reorder (before ++ .jr rs :: after) (body ++ .jr rs :: slot :: machine)

theorem execAll_append (front back : List Instr) (s : Cpu) :
    execAll (front ++ back) s = execAll back (execAll front s) := by
  induction front generalizing s with
  | nil => rfl
  | cons i front ih => exact ih (i.exec s)

/-- An instruction that commutes with all of the code may as well come last. -/
theorem exec_execAll {i : Instr} {code : List Instr} (hcommutes : ∀ j ∈ code, i.Commutes j)
    (s : Cpu) : i.exec (execAll code s) = execAll code (i.exec s) := by
  induction code generalizing s with
  | nil => rfl
  | cons j code ih =>
      have hj : i.Commutes j := hcommutes j List.mem_cons_self
      have hcode : ∀ k ∈ code, i.Commutes k :=
        fun k hk => hcommutes k (List.mem_cons_of_mem _ hk)
      calc
        i.exec (execAll code (j.exec s)) = execAll code (i.exec (j.exec s)) := ih hcode _
        _ = execAll code (j.exec (i.exec s)) := by rw [hj s]

theorem call_append {code : List Instr} (hstraight : ∀ i ∈ code, i.isJump = false)
    (rest : List Instr) (s : Cpu) : call (code ++ rest) s = call rest (execAll code s) := by
  induction code generalizing s with
  | nil => rfl
  | cons i code ih =>
      have hi : i.isJump = false := hstraight i List.mem_cons_self
      have hcode : ∀ j ∈ code, j.isJump = false :=
        fun j hj => hstraight j (List.mem_cons_of_mem _ hj)
      cases i with
      | jr rs => cases hi
      | _ => exact ih hcode _

/-- The filled slot completes what stood before the jump. -/
theorem FillsSlot.exec_slot {rs : Reg} {before body : List Instr} {slot : Instr}
    (h : FillsSlot rs before body slot) (s : Cpu) :
    slot.exec (execAll body s) = execAll before s ∧
      (execAll body s).regs rs = (execAll before s).regs rs := by
  cases h with
  | nop => exact ⟨rfl, rfl⟩
  | @moved front back i hbefore hcommutes hkeeps =>
      have hslot : slot.exec (execAll (front ++ back) s) = execAll before s := by
        rw [hbefore, execAll_append, execAll_append, exec_execAll hcommutes]
        rfl
      exact ⟨hslot, by rw [← hslot, hkeeps]⟩

theorem FillsSlot.straight {rs : Reg} {before body : List Instr} {slot : Instr}
    (h : FillsSlot rs before body slot) (hstraight : ∀ i ∈ before, i.isJump = false) :
    ∀ i ∈ body, i.isJump = false := by
  cases h with
  | nop => exact hstraight
  | moved hbefore _ _ =>
      rw [hbefore] at hstraight
      intro i hi
      apply hstraight i
      rcases List.mem_append.mp hi with hi | hi
      · exact List.mem_append_left _ hi
      · exact List.mem_append_right _ (List.mem_cons_of_mem _ hi)

/-- Code is cut at its first jump in one way only. -/
theorem append_jump_inj {before before' after after' : List Instr} {rs rs' : Reg}
    (hbefore : ∀ i ∈ before, i.isJump = false) (hbefore' : ∀ i ∈ before', i.isJump = false)
    (h : before ++ .jr rs :: after = before' ++ .jr rs' :: after') :
    before = before' ∧ rs = rs' := by
  induction before generalizing before' with
  | nil =>
      cases before' with
      | nil => exact ⟨rfl, Instr.jr.inj (List.cons.inj h).1⟩
      | cons i before' =>
          have hi : i = .jr rs := (List.cons.inj h).1.symm
          have hjump := hbefore' i List.mem_cons_self
          rw [hi] at hjump
          cases hjump
  | cons i before ih =>
      cases before' with
      | nil =>
          have hi : i = .jr rs' := (List.cons.inj h).1
          have hjump := hbefore i List.mem_cons_self
          rw [hi] at hjump
          cases hjump
      | cons j before' =>
          obtain ⟨hij, hrest⟩ := List.cons.inj h
          obtain ⟨heq, hrs⟩ := ih (fun k hk => hbefore k (List.mem_cons_of_mem _ hk))
            (fun k hk => hbefore' k (List.mem_cons_of_mem _ hk)) hrest
          exact ⟨by rw [hij, heq], hrs⟩

/-- In reorder mode a call runs what stands before the first jump and nothing
that stands behind it. -/
theorem Reorder.call_eq {before after machine : List Instr} {rs : Reg}
    (h : Reorder (before ++ .jr rs :: after) machine)
    (hbefore : ∀ i ∈ before, i.isJump = false) (s : Cpu) :
    call machine s = some ((execAll before s).regs rs, execAll before s) := by
  generalize hsource : before ++ .jr rs :: after = source at h
  cases h with
  | straight hstraight =>
      have hmem : Instr.jr rs ∈ before ++ .jr rs :: after := by simp
      rw [hsource] at hmem
      cases hstraight _ hmem
  | @jump before' body _ _ rs' slot hstraight hfills _ =>
      obtain ⟨rfl, rfl⟩ := append_jump_inj hbefore hstraight hsource
      obtain ⟨hslot, hregs⟩ := hfills.exec_slot s
      rw [call_append (hfills.straight hstraight), call, List.head?_cons, Option.map_some,
        hregs, hslot]

/-- Assembled as it is written, the instruction behind the jump runs last. -/
theorem call_noreorder {before after : List Instr} {rs : Reg} {slot : Instr}
    (hbefore : ∀ i ∈ before, i.isJump = false) (s : Cpu) :
    call (before ++ .jr rs :: slot :: after) s =
      some ((execAll before s).regs rs, slot.exec (execAll before s)) := by
  rw [call_append hbefore, call, List.head?_cons, Option.map_some]

end N64San.Mips
