import N64San.Ubsan.Value

/-!
# Descriptors of any kind

The decoders are given a descriptor and a handle by the program that is watched,
and nothing makes sure that they are well formed.  On each of them a decoder
either returns a value or fails, in a check or at a load; a program that fails
prints no more than the text of the check.
-/

namespace N64San.Ubsan

open BigEndian

/-! ## Programs that fail -/

theorem throw_bind {A B : Type} (halt : Halt) (next : A → San B) :
    (throw halt >>= next) = throw halt := rfl

/-- Nothing runs behind a failed check. -/
theorem checkFailed_bind {A B : Type} {file : String} {line : ℕ} {cond : String} {v1 v2 : U64}
    (next : A → San B) :
    (checkFailed file line cond v1 v2 >>= next) = checkFailed file line cond v1 v2 := by
  simp only [checkFailed, n64WrapperAssert, bind_assoc, throw_bind]

/-- What a failed check prints. -/
def fatalFormats : List String := [checkFailedFormat, assertFormat]

/-- The program ends in a halt whatever the formatter does; it reports nothing,
and prints at most what a failed check prints. -/
def Fails {A : Type} (program : San A) : Prop :=
  ∀ (printf : Formatter) (c : Console), ∃ halt out,
    program.exec printf c = (.error halt, ⟨c.reports, c.out ++ out⟩) ∧
      ∀ output ∈ out, output.fmt ∈ fatalFormats

section Fails

variable {A B : Type}

theorem fails_throw (halt : Halt) : Fails (throw halt : San A) := by
  intro printf c
  refine ⟨halt, [], ?_, fun _ hmem => absurd hmem List.not_mem_nil⟩
  rw [List.append_nil]
  rfl

theorem Fails.bind {program : San A} (h : Fails program) (next : A → San B) :
    Fails (program >>= next) := by
  intro printf c
  obtain ⟨halt, out, hexec, hfatal⟩ := h printf c
  exact ⟨halt, out, exec_bind_error hexec next, hfatal⟩

/-- A fatal message in front of a program that fails. -/
theorem fails_emit {out : List Output} {next : Unit → San A}
    (hfatal : ∀ output ∈ out, output.fmt ∈ fatalFormats) (hnext : Fails (next ())) :
    Fails (emit out >>= next) := by
  intro printf c
  by_cases hall : ∀ output ∈ out, printf output = .ok ()
  · obtain ⟨halt, later, hexec, hlater⟩ := hnext printf { c with out := c.out ++ out }
    refine ⟨halt, out ++ later, ?_, fun output houtput =>
      (List.mem_append.mp houtput).elim (hfatal output) (hlater output)⟩
    rw [exec_bind_ok (exec_emit_ok hall c), hexec, List.append_assoc]
  · obtain ⟨before, last, after, halt, rfl, -, -, hexec⟩ := exec_emit_error hall c
    refine ⟨halt, before ++ [last], exec_bind_error hexec next, fun output houtput => ?_⟩
    rcases List.mem_append.mp houtput with hearlier | hlast
    · exact hfatal output (List.mem_append_left _ hearlier)
    · rw [List.mem_singleton.mp hlast]
      exact hfatal last (by simp)

theorem fails_n64WrapperAssert (exp file : String) (line : ℕ) :
    Fails (n64WrapperAssert exp file line : San A) :=
  fails_emit (List.forall_mem_singleton.mpr (by simp [printfOutput, fatalFormats]))
    (fails_throw _)

theorem fails_checkFailed (file : String) (line : ℕ) (cond : String) (v1 v2 : U64) :
    Fails (checkFailed file line cond v1 v2 : San A) :=
  fails_emit (List.forall_mem_singleton.mpr (by simp [printfOutput, fatalFormats]))
    (fails_n64WrapperAssert cond file line)

theorem fails_check (file : String) (line : ℕ) (a : String) :
    Fails (check file line a false) :=
  fails_checkFailed file line _ 0 0

theorem fails_unreachableCode (file : String) (line : ℕ) (msg : String) :
    Fails (unreachableCode file line msg : San A) :=
  (fails_check file line _).bind _

theorem fails_load {ram : Ram} {size : ℕ} {read : Memory → U32 → A} {address : U32}
    (h : ¬ ram.Readable size address) : Fails (load ram size read address) := by
  rw [load, if_neg h]
  exact fails_throw _

end Fails

/-! ## Descriptors of any kind -/

namespace TypeDescriptor

variable (type : TypeDescriptor)

/-- The width that the descriptor of an integer states. -/
def bits : U32 :=
  1#32 <<< ((type.typeInfo >>> 1).toNat % 32)

/-- An integer of the type can be read through the handle. -/
def Decodable (ram : Ram) (val : ValueHandle) : Prop :=
  type.isIntegerTy = true ∧ (type.bits ≤ 32 ∨ type.bits = 64 ∧ ram.Readable 8 val)

/-- What the decoder of signed integers reads. -/
def signedWord (ram : Ram) (val : ValueHandle) : U64 :=
  let extraBits : U32 := 8 * 8 - type.bits
  if type.bits ≤ 32 then
    u64RightShift (u64LeftShift (val.setWidth 64) (extraBits.setWidth 64))
      (extraBits.setWidth 64)
  else readDouble ram.bytes val

/-- What the decoder of unsigned integers reads. -/
def unsignedWord (ram : Ram) (val : ValueHandle) : U64 :=
  if type.bits ≤ 32 then val.setWidth 64 else readDouble ram.bytes val

/-- What the decoder of either kind reads. -/
def word (ram : Ram) (val : ValueHandle) : U64 :=
  if type.isUnsignedIntegerTy then type.unsignedWord ram val else type.signedWord ram val

/-- The handle is taken for a negative integer. -/
def Negative (ram : Ram) (val : ValueHandle) : Prop :=
  type.isSignedIntegerTy = true ∧ (type.signedWord ram val).toInt < 0

instance (ram : Ram) (val : ValueHandle) : Decidable (type.Negative ram val) :=
  inferInstanceAs (Decidable (_ ∧ _))

end TypeDescriptor

section Decoders

variable {ram : Ram} {type : TypeDescriptor} {val : ValueHandle}

theorem getIntegerBitWidth_eq (h : type.isIntegerTy = true) :
    type.getIntegerBitWidth = pure type.bits := by
  rw [TypeDescriptor.getIntegerBitWidth, h, check_true, pure_bind]
  rfl

theorem getIntegerBitWidth_fails (h : type.isIntegerTy = false) :
    Fails type.getIntegerBitWidth := by
  rw [TypeDescriptor.getIntegerBitWidth, h]
  exact (fails_check _ _ _).bind _

theorem isInlineInt_eq (h : type.isIntegerTy = true) :
    Value.isInlineInt type = pure (decide (type.bits ≤ 32)) := by
  rw [Value.isInlineInt, h, check_true, pure_bind, getIntegerBitWidth_eq h, pure_bind]
  rfl

theorem isIntegerTy_of_signed (h : type.isSignedIntegerTy = true) : type.isIntegerTy = true :=
  (Bool.and_eq_true_iff.mp h).1

theorem isIntegerTy_of_unsigned (h : type.isUnsignedIntegerTy = true) :
    type.isIntegerTy = true :=
  (Bool.and_eq_true_iff.mp h).1

theorem not_isIntegerTy_of_float (h : type.isFloatTy = true) : ¬ type.isIntegerTy = true := by
  have hkind : type.typeKind = tkFloat := of_decide_eq_true h
  rw [TypeDescriptor.isIntegerTy, hkind]
  decide

theorem isSignedIntegerTy_of_not_unsigned (hinteger : type.isIntegerTy = true)
    (h : type.isUnsignedIntegerTy = false) : type.isSignedIntegerTy = true := by
  rw [TypeDescriptor.isUnsignedIntegerTy, hinteger, Bool.true_and] at h
  rw [TypeDescriptor.isSignedIntegerTy, hinteger, Bool.true_and]
  simpa using h

/-- Both decoders read a word of at most 32 bits from the handle and one of 64
bits from memory. -/
theorem decoder_eq {line : ℕ} {inline : U64} (h : type.Decodable ram val) :
    (if type.bits ≤ 32 then pure inline
      else if type.bits = 64 then load64 ram val
      else unreachableCode valueFile line "unexpected bit width" : San U64) =
      pure (if type.bits ≤ 32 then inline else readDouble ram.bytes val) := by
  rcases h.2 with hinline | ⟨haddress, hreadable⟩
  · rw [if_pos hinline, if_pos hinline]
  · have hnot : ¬ type.bits ≤ 32 := by
      rw [haddress]
      decide
    rw [if_neg hnot, if_pos haddress, if_neg hnot, load64_of_readable hreadable]

/-- They fail at any other width, and at an address that cannot be read. -/
theorem decoder_fails {line : ℕ} {inline : U64} (hinteger : type.isIntegerTy = true)
    (h : ¬ type.Decodable ram val) :
    Fails (if type.bits ≤ 32 then pure inline
      else if type.bits = 64 then load64 ram val
      else unreachableCode valueFile line "unexpected bit width" : San U64) := by
  obtain ⟨hinline, haddress⟩ := not_or.mp fun hor => h ⟨hinteger, hor⟩
  rw [if_neg hinline]
  split_ifs with hwidth
  · exact fails_load fun hreadable => haddress ⟨hwidth, hreadable⟩
  · exact fails_unreachableCode _ _ _

theorem getSIntValue_unfold (hsigned : type.isSignedIntegerTy = true) :
    Helpers.quoted.getSIntValue ram type val =
      if type.bits ≤ 32 then pure (u64RightShift
          (u64LeftShift (val.setWidth 64) ((8 * 8 - type.bits : U32).setWidth 64))
          ((8 * 8 - type.bits : U32).setWidth 64))
        else if type.bits = 64 then load64 ram val
        else unreachableCode valueFile 71 "unexpected bit width" := by
  have hinteger := isIntegerTy_of_signed hsigned
  simp only [Helpers.getSIntValue, hsigned, check_true, pure_bind, isInlineInt_eq hinteger,
    getIntegerBitWidth_eq hinteger, decide_eq_true_eq]
  rfl

theorem getUIntValue_unfold (hunsigned : type.isUnsignedIntegerTy = true) :
    Value.getUIntValue ram type val =
      if type.bits ≤ 32 then pure (val.setWidth 64)
        else if type.bits = 64 then load64 ram val
        else unreachableCode valueFile 84 "unexpected bit width" := by
  have hinteger := isIntegerTy_of_unsigned hunsigned
  simp only [Value.getUIntValue, hunsigned, check_true, pure_bind, isInlineInt_eq hinteger,
    getIntegerBitWidth_eq hinteger, decide_eq_true_eq]

theorem getSIntValue_eq_signedWord (hsigned : type.isSignedIntegerTy = true)
    (h : type.Decodable ram val) :
    Helpers.quoted.getSIntValue ram type val = pure (type.signedWord ram val) :=
  (getSIntValue_unfold hsigned).trans (decoder_eq h)

theorem getSIntValue_fails
    (h : type.isSignedIntegerTy = false ∨ ¬ type.Decodable ram val) :
    Fails (Helpers.quoted.getSIntValue ram type val) := by
  cases hsigned : type.isSignedIntegerTy with
  | false =>
      rw [Helpers.getSIntValue, hsigned]
      exact (fails_check _ _ _).bind _
  | true =>
      rw [getSIntValue_unfold hsigned]
      exact decoder_fails (isIntegerTy_of_signed hsigned) (h.resolve_left (by simp [hsigned]))

theorem getUIntValue_eq_unsignedWord (hunsigned : type.isUnsignedIntegerTy = true)
    (h : type.Decodable ram val) :
    Value.getUIntValue ram type val = pure (type.unsignedWord ram val) :=
  (getUIntValue_unfold hunsigned).trans (decoder_eq h)

theorem getUIntValue_fails (hunsigned : type.isUnsignedIntegerTy = true)
    (h : ¬ type.Decodable ram val) : Fails (Value.getUIntValue ram type val) := by
  rw [getUIntValue_unfold hunsigned]
  exact decoder_fails (isIntegerTy_of_unsigned hunsigned) h

theorem not_negative (hsigned : type.isSignedIntegerTy = false) : ¬ type.Negative ram val := by
  rw [TypeDescriptor.Negative, hsigned]
  exact fun hneg => Bool.false_ne_true hneg.1

theorem isNegative_of_decodable
    (h : type.isSignedIntegerTy = true → type.Decodable ram val) :
    Helpers.quoted.isNegative ram type val = pure (decide (type.Negative ram val)) := by
  rw [Helpers.isNegative]
  cases hsigned : type.isSignedIntegerTy with
  | false => rw [if_neg Bool.false_ne_true, decide_eq_false (not_negative hsigned)]
  | true =>
      have hiff : type.Negative ram val ↔ (type.signedWord ram val).toInt < 0 :=
        and_iff_right hsigned
      rw [if_pos rfl, getSIntValue_eq_signedWord hsigned (h hsigned), pure_bind]
      simp only [hiff]

theorem isNegative_fails (hsigned : type.isSignedIntegerTy = true)
    (h : ¬ type.Decodable ram val) : Fails (Helpers.quoted.isNegative ram type val) := by
  rw [Helpers.isNegative, if_pos hsigned]
  exact (getSIntValue_fails (Or.inr h)).bind _

theorem isMinusOne_of_decodable
    (h : type.isSignedIntegerTy = true → type.Decodable ram val) :
    ∃ answer, Helpers.quoted.isMinusOne ram type val = pure answer := by
  rw [Helpers.isMinusOne]
  cases hsigned : type.isSignedIntegerTy with
  | false => exact ⟨false, rfl⟩
  | true =>
      rw [if_pos rfl, getSIntValue_eq_signedWord hsigned (h hsigned), pure_bind]
      exact ⟨_, rfl⟩

theorem isMinusOne_fails (hsigned : type.isSignedIntegerTy = true)
    (h : ¬ type.Decodable ram val) : Fails (Helpers.quoted.isMinusOne ram type val) := by
  rw [Helpers.isMinusOne, if_pos hsigned]
  exact (getSIntValue_fails (Or.inr h)).bind _

theorem getPositiveIntValue_of_decodable (h : type.Decodable ram val)
    (hneg : ¬ type.Negative ram val) :
    Helpers.quoted.getPositiveIntValue ram type val = pure (type.word ram val) := by
  rw [Helpers.getPositiveIntValue, TypeDescriptor.word]
  cases hunsigned : type.isUnsignedIntegerTy with
  | true =>
      rw [if_pos rfl, if_pos rfl]
      exact getUIntValue_eq_unsignedWord hunsigned h
  | false =>
      have hsigned := isSignedIntegerTy_of_not_unsigned h.1 hunsigned
      have hpos : 0 ≤ (type.signedWord ram val).toInt :=
        not_lt.mp fun hlt => hneg ⟨hsigned, hlt⟩
      rw [if_neg Bool.false_ne_true, if_neg Bool.false_ne_true,
        getSIntValue_eq_signedWord hsigned h, pure_bind, decide_eq_true hpos, check_true,
        pure_bind]

theorem getPositiveIntValue_fails (h : ¬ type.Decodable ram val) :
    Fails (Helpers.quoted.getPositiveIntValue ram type val) := by
  rw [Helpers.getPositiveIntValue]
  split_ifs with hunsigned
  · exact getUIntValue_fails hunsigned h
  · exact (getSIntValue_fails (Or.inr h)).bind _

end Decoders

end N64San.Ubsan
