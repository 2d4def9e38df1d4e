import N64San.Ubsan.Domain

/-!
# How a type mismatch is classified

The handler is told what was accessed, through which pointer and how the type
is aligned.  It finds a null pointer first, then a pointer that is no multiple
of the alignment, and blames the size of the object for the rest.
-/

namespace N64San.Ubsan

open Varargs

/-- The three things that can be wrong with the pointer of an access. -/
inductive MismatchFault
  | nullPointer
  | misaligned
  | smallObject
  deriving DecidableEq, Repr

namespace MismatchFault

/-- The fault of an access through `pointer` to a type of that alignment. -/
def of (alignment : ℕ) (pointer : U32) : MismatchFault :=
  if pointer = 0 then nullPointer
  else if alignment ∣ pointer.toNat then smallObject
  else misaligned

def message : MismatchFault → String
  | nullPointer => "%s null pointer of type %s"
  | misaligned => "%s misaligned address 0x%X for type %s, which requires %i byte alignment"
  | smallObject => "%s address 0x%X with insufficient space for an object of type %s"

def arguments (kind : String) (pointer name alignment : U32) : MismatchFault → List Arg
  | nullPointer => [.literal kind, .word name]
  | misaligned => [.literal kind, .word pointer, .word name, .word alignment]
  | smallObject => [.literal kind, .word pointer, .word name]

/-- When an access has the fault. -/
def Condition (alignment : ℕ) (pointer : U32) : MismatchFault → Prop
  | nullPointer => pointer = 0
  | misaligned => ¬ alignment ∣ pointer.toNat
  | smallObject => pointer ≠ 0 ∧ alignment ∣ pointer.toNat

theorem of_eq_iff (alignment : ℕ) (pointer : U32) (fault : MismatchFault) :
    of alignment pointer = fault ↔ fault.Condition alignment pointer := by
  rw [of]
  split_ifs with hnull hdvd
  · have hzero : alignment ∣ pointer.toNat := by
      rw [hnull]
      exact dvd_zero alignment
    cases fault with
    | nullPointer => exact iff_of_true rfl hnull
    | misaligned => exact iff_of_false nofun fun h => h hzero
    | smallObject => exact iff_of_false nofun fun h => h.1 hnull
  · cases fault with
    | nullPointer => exact iff_of_false nofun hnull
    | misaligned => exact iff_of_false nofun fun h => h hdvd
    | smallObject => exact iff_of_true rfl ⟨hnull, hdvd⟩
  · cases fault with
    | nullPointer => exact iff_of_false nofun hnull
    | misaligned => exact iff_of_true rfl hdvd
    | smallObject => exact iff_of_false nofun fun h => hdvd h.2

theorem message_injective : Function.Injective message := by
  intro left right h
  cases left <;> cases right <;> first | rfl | simp [message] at h

end MismatchFault

/-! ## The alignment as a mask -/

/-- `(uptr)1 << LogAlignment`. -/
def alignmentOf (data : TypeMismatchData) : U32 :=
  1 <<< (data.logAlignment.toNat % 32)

section Alignment

variable {data : TypeMismatchData} (hlog : data.logAlignment.toNat < 32)

include hlog

theorem toNat_alignmentOf_sub_one :
    (alignmentOf data - 1).toNat = 2 ^ data.logAlignment.toNat - 1 := by
  have hmask : ∀ k < 32, ((1 <<< k : U32) - 1).toNat = 2 ^ k - 1 := by decide
  rw [alignmentOf, Nat.mod_eq_of_lt hlog]
  exact hmask _ hlog

/-- An address is masked to zero if it is a multiple of the alignment. -/
theorem and_alignment_eq_zero_iff (pointer : U32) :
    pointer &&& (alignmentOf data - 1) = 0 ↔
      2 ^ data.logAlignment.toNat ∣ pointer.toNat := by
  rw [← BitVec.toNat_inj, BitVec.toNat_and, toNat_alignmentOf_sub_one hlog,
    Nat.and_two_pow_sub_one_eq_mod, Nat.dvd_iff_mod_eq_zero]
  rfl

/-- The alignment is printed as it is, up to the largest one. -/
theorem toInt_alignmentOf_iff :
    (alignmentOf data).toInt = 2 ^ data.logAlignment.toNat ↔
      data.logAlignment.toNat < 31 := by
  have hsigned : ∀ k < 32, ((1 <<< k : U32).toInt = 2 ^ k ↔ k < 31) := by decide
  rw [alignmentOf, Nat.mod_eq_of_lt hlog]
  exact hsigned _ hlog

end Alignment

/-! ## The report -/

/-- The report of a type mismatch is that of the fault. -/
theorem handleTypeMismatchImpl_eq {data : TypeMismatchData}
    (hkind : data.typeCheckKind.toNat < typeCheckKinds.length)
    (hlog : data.logAlignment.toNat < 32) (pointer : ValueHandle) :
    let fault := MismatchFault.of (2 ^ data.logAlignment.toNat) pointer
    handleTypeMismatchImpl data pointer =
      reportError data.loc (typeMismatchError (alignmentOf data) data pointer) fault.message
        (fault.arguments typeCheckKinds[data.typeCheckKind.toNat] pointer
          data.type.typeName (alignmentOf data)) := by
  intro fault
  have halignment : (1 <<< (data.logAlignment.toNat % 32) : U32) = alignmentOf data := rfl
  simp only [handleTypeMismatchImpl, typeCheckKind_eq hkind, pure_bind, halignment]
  by_cases hnull : pointer = 0
  · have hfault : fault = .nullPointer := (MismatchFault.of_eq_iff _ _ _).mpr hnull
    rw [typeMismatchError, if_pos hnull, hfault]
    split_ifs <;> exact ubsanDiag_source _ _ _ _
  · by_cases hdvd : 2 ^ data.logAlignment.toNat ∣ pointer.toNat
    · have hfault : fault = .smallObject :=
        (MismatchFault.of_eq_iff _ _ _).mpr ⟨hnull, hdvd⟩
      have hzero := (and_alignment_eq_zero_iff hlog pointer).mpr hdvd
      rw [typeMismatchError, if_neg hnull, if_neg (not_not.mpr hzero), hfault]
      exact ubsanDiag_source _ _ _ _
    · have hfault : fault = .misaligned := (MismatchFault.of_eq_iff _ _ _).mpr hdvd
      have hnonzero : pointer &&& (alignmentOf data - 1) ≠ 0 := fun hzero =>
        hdvd ((and_alignment_eq_zero_iff hlog pointer).mp hzero)
      rw [typeMismatchError, if_neg hnull, if_pos hnonzero, hfault]
      exact ubsanDiag_source _ _ _ _

/-- The report of a type mismatch says what is wrong with the pointer: that it is
null, that it is no multiple of the type's alignment, or else that the object is
too small.  The alignment is printed as it is, except for the largest one. -/
theorem mismatch_report_names_fault {data : TypeMismatchData}
    (hkind : data.typeCheckKind.toNat < typeCheckKinds.length)
    (hlog : data.logAlignment.toNat < 32) (pointer : ValueHandle) :
    let alignment : ℕ := 2 ^ data.logAlignment.toNat
    ∃ et fmt args, handleTypeMismatchImpl data pointer = reportError data.loc et fmt args ∧
      (fmt = MismatchFault.nullPointer.message ↔ pointer = 0) ∧
      (fmt = MismatchFault.misaligned.message ↔ ¬ alignment ∣ pointer.toNat) ∧
      (fmt = MismatchFault.smallObject.message ↔ pointer ≠ 0 ∧ alignment ∣ pointer.toNat) ∧
      (et = .nullPointerUseWithNullability ↔
        pointer = 0 ∧ data.typeCheckKind = tckNonnullAssign) ∧
      (¬ alignment ∣ pointer.toNat →
        (decimals (vprintf fmt (vaStart 4 args)) = [(alignment : ℤ)] ↔
          data.logAlignment.toNat < 31)) := by
  intro alignment
  have hmessage : ∀ fault : MismatchFault,
      (MismatchFault.of alignment pointer).message = fault.message ↔
        fault.Condition alignment pointer := fun fault =>
    MismatchFault.message_injective.eq_iff.trans (MismatchFault.of_eq_iff _ _ fault)
  refine ⟨_, _, _, handleTypeMismatchImpl_eq hkind hlog pointer, hmessage .nullPointer,
    hmessage .misaligned, hmessage .smallObject, ?_, fun hmisaligned => ?_⟩
  · rw [typeMismatchError]
    split_ifs with hnull hnonnull hnonzero
    · exact iff_of_true rfl ⟨hnull, hnonnull⟩
    · exact iff_of_false (by simp) fun h => hnonnull h.2
    · exact iff_of_false (by simp) fun h => hnull h.1
    · exact iff_of_false (by simp) fun h => hnull h.1
  · have hfault : MismatchFault.of alignment pointer = .misaligned :=
      (MismatchFault.of_eq_iff _ _ _).mpr hmisaligned
    rw [hfault]
    have hprinted : decimals (vprintf MismatchFault.misaligned.message
        (vaStart 4 (MismatchFault.misaligned.arguments
          typeCheckKinds[data.typeCheckKind.toNat] pointer data.type.typeName
          (alignmentOf data)))) = [(alignmentOf data).toInt] := rfl
    rw [hprinted, List.cons.injEq, and_iff_left rfl, ← toInt_alignmentOf_iff hlog]
    simp [alignment]

/-- A load through address 2 of a word that is aligned to four bytes. -/
theorem mismatch_report_names_fault_load : ∃ et args,
    handleTypeMismatchImpl ⟨⟨4, 1, 1⟩, ⟨0, 0, 4⟩, 2, 0⟩ 2 =
      reportError ⟨4, 1, 1⟩ et
        "%s misaligned address 0x%X for type %s, which requires %i byte alignment" args := by
  obtain ⟨et, fmt, args, hreport, _, hmisaligned, _⟩ :=
    @mismatch_report_names_fault ⟨⟨4, 1, 1⟩, ⟨0, 0, 4⟩, 2, 0⟩ (by decide) (by decide) 2
  rw [hmisaligned.mpr (by decide)] at hreport
  exact ⟨et, args, hreport⟩

end N64San.Ubsan
