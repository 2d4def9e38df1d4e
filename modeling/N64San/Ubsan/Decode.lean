import N64San.Ubsan.Descriptors

/-!
# Decoding undoes the encoding

The compiler encodes an integer of any width as a handle, and the runtime reads
it back.  `Encodes` says which handles stand for a value; for a signed type the
bits above the type's width may be anything.
-/

namespace N64San.Ubsan

open BigEndian

/-- An integer type of the language: `2 ^ logWidth` bits. -/
structure IntType where
  logWidth : Fin 7
  signed : Bool
  name : U32
  deriving DecidableEq, Repr

namespace IntType

def width (ty : IntType) : ℕ :=
  2 ^ ty.logWidth.val

/-- The descriptor that the compiler emits for the type. -/
def descriptor (ty : IntType) : TypeDescriptor where
  typeKind := tkInteger
  typeInfo := BitVec.ofNat 16 (2 * ty.logWidth.val + ty.signed.toNat)
  typeName := ty.name

/-- The values of the type. -/
def Contains (ty : IntType) (v : ℤ) : Prop :=
  if ty.signed then -2 ^ (ty.width - 1) ≤ v ∧ v < 2 ^ (ty.width - 1)
  else 0 ≤ v ∧ v < 2 ^ ty.width

/-- The integer types of 32 bits. -/
def word (signed : Bool) (name : U32) : IntType :=
  ⟨5, signed, name⟩

instance (ty : IntType) (v : ℤ) : Decidable (ty.Contains v) :=
  inferInstanceAs (Decidable (if ty.signed = true then
    -2 ^ (ty.width - 1) ≤ v ∧ v < 2 ^ (ty.width - 1) else 0 ≤ v ∧ v < 2 ^ ty.width))

theorem contains_of_signed {ty : IntType} (hsigned : ty.signed = true) (v : ℤ) :
    ty.Contains v ↔ -2 ^ (ty.width - 1) ≤ v ∧ v < 2 ^ (ty.width - 1) := by
  rw [Contains, if_pos hsigned]

theorem contains_of_unsigned {ty : IntType} (hsigned : ty.signed = false) (v : ℤ) :
    ty.Contains v ↔ 0 ≤ v ∧ v < 2 ^ ty.width := by
  rw [Contains, if_neg (by simp [hsigned])]

end IntType

/-! ## Descriptors -/

namespace IntType

variable (ty : IntType)

theorem width_pos : 0 < ty.width :=
  Nat.two_pow_pos _

theorem width_le_or : ty.width ≤ 32 ∨ ty.width = 64 := by
  have hwidth : ∀ k : Fin 7, 2 ^ k.val ≤ 32 ∨ 2 ^ k.val = 64 := by decide
  exact hwidth ty.logWidth

@[simp]
theorem isIntegerTy_descriptor : ty.descriptor.isIntegerTy = true := rfl

@[simp]
theorem isSignedIntegerTy_descriptor : ty.descriptor.isSignedIntegerTy = ty.signed := by
  have hbit : ∀ k : Fin 7, ∀ s : Bool,
      decide (BitVec.ofNat 16 (2 * k.val + s.toNat) &&& 1 ≠ 0) = s := by decide
  exact hbit ty.logWidth ty.signed

@[simp]
theorem isUnsignedIntegerTy_descriptor :
    ty.descriptor.isUnsignedIntegerTy = !ty.signed := by
  have hsigned := ty.isSignedIntegerTy_descriptor
  rw [TypeDescriptor.isSignedIntegerTy, isIntegerTy_descriptor, Bool.true_and] at hsigned
  rw [TypeDescriptor.isUnsignedIntegerTy, isIntegerTy_descriptor, Bool.true_and, hsigned]

@[simp]
theorem bits_descriptor : ty.descriptor.bits = BitVec.ofNat 32 ty.width := by
  have hshift : ∀ k : Fin 7, ∀ s : Bool,
      1#32 <<< ((BitVec.ofNat 16 (2 * k.val + s.toNat) >>> 1).toNat % 32) =
        BitVec.ofNat 32 (2 ^ k.val) := by decide
  exact hshift ty.logWidth ty.signed

theorem getIntegerBitWidth_descriptor :
    ty.descriptor.getIntegerBitWidth = pure (BitVec.ofNat 32 ty.width) := by
  rw [getIntegerBitWidth_eq ty.isIntegerTy_descriptor, bits_descriptor]

theorem bits_le_iff : ty.descriptor.bits ≤ 32 ↔ ty.width ≤ 32 := by
  have hle : ∀ k : Fin 7, BitVec.ofNat 32 (2 ^ k.val) ≤ 32 ↔ 2 ^ k.val ≤ 32 := by decide
  rw [bits_descriptor]
  exact hle ty.logWidth

theorem isInlineInt_descriptor :
    Value.isInlineInt ty.descriptor = pure (decide (ty.width ≤ 32)) := by
  rw [isInlineInt_eq ty.isIntegerTy_descriptor]
  simp only [bits_le_iff]

theorem descriptor_injective : Function.Injective descriptor := by
  have hinfo : ∀ (k k' : Fin 7) (s s' : Bool),
      BitVec.ofNat 16 (2 * k.val + s.toNat) = BitVec.ofNat 16 (2 * k'.val + s'.toNat) →
        k = k' ∧ s = s' := by decide
  rintro ⟨k, s, name⟩ ⟨k', s', name'⟩ h
  obtain ⟨rfl, rfl⟩ := hinfo k k' s s' (congrArg TypeDescriptor.typeInfo h)
  obtain rfl : name = name' := congrArg TypeDescriptor.typeName h
  rfl

theorem width_le : ty.width ≤ 64 := by
  rcases ty.width_le_or with hinline | haddress
  · exact hinline.trans (by decide)
  · exact haddress.le

/-- The bits that a value lacks to fill 64, as the decoder computes them. -/
def extraBits : U64 :=
  (8 * 8 - BitVec.ofNat 32 ty.width : U32).setWidth 64

theorem toNat_extraBits : ty.extraBits.toNat = 64 - ty.width := by
  have hextras : ∀ k : Fin 7,
      ((8 * 8 - BitVec.ofNat 32 (2 ^ k.val) : U32).setWidth 64).toNat = 64 - 2 ^ k.val := by
    decide
  exact hextras ty.logWidth

end IntType

/-! ## What a handle means -/

/-- A handle that can be followed where it is an address. -/
def Followable (ram : Ram) (ty : IntType) (val : ValueHandle) : Prop :=
  ty.width = 64 → ram.Readable 8 val

theorem Followable.decodable {ram : Ram} {ty : IntType} {val : ValueHandle}
    (h : Followable ram ty val) : ty.descriptor.Decodable ram val := by
  refine ⟨ty.isIntegerTy_descriptor, ?_⟩
  rcases ty.width_le_or with hinline | haddress
  · exact Or.inl (ty.bits_le_iff.mpr hinline)
  · refine Or.inr ⟨?_, h haddress⟩
    rw [ty.bits_descriptor, haddress]
    rfl

/-- The 64-bit word that a handle of the type is decoded to. -/
def decoded (ram : Ram) (ty : IntType) (val : ValueHandle) : U64 :=
  if ty.width ≤ 32 then
    if ty.signed then (val.setWidth ty.width).signExtend 64 else val.setWidth 64
  else readDouble ram.bytes val

/-- The integer that a handle of the type means. -/
def meaning (ram : Ram) (ty : IntType) (val : ValueHandle) : ℤ :=
  if ty.signed then (decoded ram ty val).toInt else (decoded ram ty val).toNat

section Decoders

variable {helpers : Helpers} {ram : Ram} {ty : IntType} {val : ValueHandle}

theorem decoded_of_signed (hinline : ty.width ≤ 32) (hsigned : ty.signed = true) :
    decoded ram ty val = (val.setWidth ty.width).signExtend 64 := by
  rw [decoded, if_pos hinline, if_pos hsigned]

theorem decoded_of_unsigned (hinline : ty.width ≤ 32) (hsigned : ty.signed = false) :
    decoded ram ty val = val.setWidth 64 := by
  rw [decoded, if_pos hinline, if_neg (by simp [hsigned])]

theorem decoded_of_address (haddress : ty.width = 64) :
    decoded ram ty val = readDouble ram.bytes val := by
  rw [decoded, if_neg (by omega)]

theorem meaning_of_signed (hsigned : ty.signed = true) :
    meaning ram ty val = (decoded ram ty val).toInt :=
  if_pos hsigned

theorem meaning_of_unsigned (hsigned : ty.signed = false) :
    meaning ram ty val = (decoded ram ty val).toNat :=
  if_neg (by simp [hsigned])

/-- The lower word of what is decoded is the integer modulo `2 ^ 32`. -/
theorem setWidth_decoded :
    (decoded ram ty val).setWidth 32 = BitVec.ofInt 32 (meaning ram ty val) := by
  have hsigned : ∀ w : U64, w.setWidth 32 = BitVec.ofInt 32 w.toInt := by
    intro w
    apply BitVec.eq_of_toNat_eq
    rw [BitVec.toNat_setWidth, BitVec.toNat_ofInt, BitVec.toInt_eq_toNat_cond]
    split <;> omega
  rw [meaning]
  split_ifs
  · exact hsigned _
  · rw [BitVec.ofInt_natCast, BitVec.ofNat_toNat]

/-- A signed value of at most 32 bits goes through both helpers. -/
theorem getSIntValue_of_inline (hsigned : ty.signed = true) (hinline : ty.width ≤ 32) :
    helpers.getSIntValue ram ty.descriptor val =
      pure (helpers.right (helpers.left (val.setWidth 64) ty.extraBits) ty.extraBits) := by
  rw [Helpers.getSIntValue, ty.isSignedIntegerTy_descriptor, hsigned, check_true, pure_bind,
    ty.isInlineInt_descriptor, pure_bind, ty.getIntegerBitWidth_descriptor, pure_bind,
    pure_bind, if_pos (by simpa using hinline)]
  rfl

/-- One of 64 bits goes through neither. -/
theorem getSIntValue_of_address (hsigned : ty.signed = true) (haddress : ty.width = 64)
    (h : Followable ram ty val) :
    helpers.getSIntValue ram ty.descriptor val = pure (decoded ram ty val) := by
  rw [Helpers.getSIntValue, ty.isSignedIntegerTy_descriptor, hsigned, check_true, pure_bind,
    ty.isInlineInt_descriptor, pure_bind, ty.getIntegerBitWidth_descriptor, pure_bind,
    pure_bind, if_neg (by simp [haddress]), if_pos (by rw [haddress]; rfl),
    load64_of_readable (h haddress), decoded_of_address haddress]

theorem getSIntValue_eq (h : Followable ram ty val) (hsigned : ty.signed = true) :
    Value.getSIntValue ram ty.descriptor val = pure (decoded ram ty val) := by
  rw [Value.getSIntValue]
  rcases ty.width_le_or with hinline | haddress
  · have hshifts : Helpers.quoted.right (Helpers.quoted.left (val.setWidth 64) ty.extraBits)
        ty.extraBits =
        ((val.setWidth 64) <<< ty.extraBits.toNat).sshiftRight ty.extraBits.toNat := rfl
    rw [getSIntValue_of_inline hsigned hinline, hshifts, ty.toNat_extraBits,
      sshiftRight_shiftLeft _ ty.width_pos (Nat.sub_add_cancel ty.width_le),
      BitVec.setWidth_setWidth_of_le _ ty.width_le, decoded_of_signed hinline hsigned]
  · exact getSIntValue_of_address hsigned haddress h

theorem getUIntValue_eq (h : Followable ram ty val) (hsigned : ty.signed = false) :
    Value.getUIntValue ram ty.descriptor val = pure (decoded ram ty val) := by
  rw [Value.getUIntValue, ty.isUnsignedIntegerTy_descriptor, hsigned, Bool.not_false,
    check_true, pure_bind, ty.isInlineInt_descriptor, pure_bind,
    ty.getIntegerBitWidth_descriptor, pure_bind]
  rcases ty.width_le_or with hinline | haddress
  · rw [if_pos (by simpa using hinline), decoded_of_unsigned hinline hsigned]
  · rw [if_neg (by simp [haddress]), if_pos (by rw [haddress]; rfl),
      load64_of_readable (h haddress), decoded_of_address haddress]

theorem toNat_eq_toInt {w : U64} (hw : 0 ≤ w.toInt) : (w.toNat : ℤ) = w.toInt := by
  have hmsb : w.msb = false := by
    rw [BitVec.msb_eq_toInt]
    exact decide_eq_false (not_lt.mpr hw)
  exact (BitVec.toInt_eq_toNat_of_msb hmsb).symm

/-- No unsigned value is minus one. -/
theorem meaning_ne_of_unsigned (hsigned : ty.signed = false) (val : ValueHandle) :
    meaning ram ty val ≠ -1 := by
  rw [meaning_of_unsigned hsigned]
  omega

/-- The decoders over the helpers take the handle for the integer `m`. -/
structure Reads (helpers : Helpers) (ram : Ram) (ty : IntType) (val : ValueHandle) (m : ℤ) :
    Prop where
  isNegative : helpers.isNegative ram ty.descriptor val = pure (decide (m < 0))
  isMinusOne : helpers.isMinusOne ram ty.descriptor val = pure (decide (m = -1))
  positive : 0 ≤ m → ∃ w, helpers.getPositiveIntValue ram ty.descriptor val = pure w ∧
    (w.toNat : ℤ) = m

/-- A signed value is read as the word that its decoder returns; the check of
`Ubsan_Value_getPositiveIntValue` passes if it is not negative. -/
theorem reads_of_signed {w : U64} (hsigned : ty.signed = true)
    (h : helpers.getSIntValue ram ty.descriptor val = pure w) :
    Reads helpers ram ty val w.toInt where
  isNegative := by
    rw [Helpers.isNegative, ty.isSignedIntegerTy_descriptor, if_pos hsigned, h, pure_bind]
  isMinusOne := by
    have hiff : w = -1 ↔ w.toInt = -1 := by
      rw [← BitVec.toInt_inj]
      rfl
    rw [Helpers.isMinusOne, ty.isSignedIntegerTy_descriptor, if_pos hsigned, h, pure_bind]
    simp only [hiff]
  positive hw := by
    refine ⟨w, ?_, toNat_eq_toInt hw⟩
    rw [Helpers.getPositiveIntValue, ty.isUnsignedIntegerTy_descriptor, hsigned,
      if_neg (by simp), h, pure_bind, decide_eq_true hw, check_true, pure_bind]

/-- An unsigned value does not meet the helpers. -/
theorem reads_of_unsigned (hsigned : ty.signed = false) (h : Followable ram ty val) :
    Reads helpers ram ty val (meaning ram ty val) where
  isNegative := by
    have hv : ¬ meaning ram ty val < 0 := by
      rw [meaning_of_unsigned hsigned]
      exact not_lt.mpr (Int.natCast_nonneg _)
    rw [Helpers.isNegative, ty.isSignedIntegerTy_descriptor, if_neg (by simp [hsigned]),
      decide_eq_false hv]
  isMinusOne := by
    rw [Helpers.isMinusOne, ty.isSignedIntegerTy_descriptor, if_neg (by simp [hsigned]),
      decide_eq_false (meaning_ne_of_unsigned hsigned val)]
  positive _ := by
    refine ⟨decoded ram ty val, ?_, (meaning_of_unsigned hsigned).symm⟩
    rw [Helpers.getPositiveIntValue, ty.isUnsignedIntegerTy_descriptor, hsigned,
      if_pos (by simp)]
    exact getUIntValue_eq h hsigned

/-- Over the quoted helpers a handle is read as the integer that it means. -/
theorem reads_quoted (h : Followable ram ty val) :
    Reads .quoted ram ty val (meaning ram ty val) := by
  cases hsigned : ty.signed with
  | false => exact reads_of_unsigned hsigned h
  | true =>
      rw [meaning_of_signed hsigned]
      exact reads_of_signed hsigned (getSIntValue_eq h hsigned)

end Decoders

/-! ## The compiler's encoding -/

/-- The handle stands for `v`: inline up to 32 bits, by address beyond. -/
structure Encodes (ram : Ram) (ty : IntType) (v : ℤ) (val : ValueHandle) : Prop where
  contains : ty.Contains v
  inline : ty.width ≤ 32 →
    if ty.signed then (val.setWidth ty.width).toInt = v else (val.toNat : ℤ) = v
  address : ty.width = 64 → ram.Readable 8 val ∧
    if ty.signed then (readDouble ram.bytes val).toInt = v
    else ((readDouble ram.bytes val).toNat : ℤ) = v

section Encodes

variable {ram : Ram} {ty : IntType} {v : ℤ} {val : ValueHandle}

theorem Encodes.followable (h : Encodes ram ty v val) : Followable ram ty val :=
  fun hwidth => (h.address hwidth).1

/-- A handle means the value that it encodes. -/
theorem Encodes.meaning_eq (h : Encodes ram ty v val) : meaning ram ty val = v := by
  rcases ty.width_le_or with hinline | haddress
  · have hvalue := h.inline hinline
    cases hsigned : ty.signed with
    | true =>
        rw [if_pos hsigned] at hvalue
        rw [meaning_of_signed hsigned, decoded_of_signed hinline hsigned,
          BitVec.toInt_signExtend_of_le ty.width_le, hvalue]
    | false =>
        rw [if_neg (by simp [hsigned])] at hvalue
        rw [meaning_of_unsigned hsigned, decoded_of_unsigned hinline hsigned,
          BitVec.toNat_setWidth, Nat.mod_eq_of_lt (by omega), hvalue]
  · have hvalue := (h.address haddress).2
    rw [meaning, decoded_of_address haddress]
    split_ifs at hvalue ⊢ <;> exact hvalue

/-- Every decoder gives back the value that was encoded, for every type and
every handle that stands for the value. -/
theorem decoders_undo_encoding (h : Encodes ram ty v val) :
    (ty.signed = true → ∃ w, Value.getSIntValue ram ty.descriptor val = pure w ∧
        w.toInt = v) ∧
      (ty.signed = false → ∃ w, Value.getUIntValue ram ty.descriptor val = pure w ∧
        (w.toNat : ℤ) = v) ∧
      (0 ≤ v → ∃ w, Value.getPositiveIntValue ram ty.descriptor val = pure w ∧
        (w.toNat : ℤ) = v) ∧
      Value.isNegative ram ty.descriptor val = pure (decide (v < 0)) ∧
      Value.isMinusOne ram ty.descriptor val = pure (decide (ty.signed = true ∧ v = -1)) := by
  have hmeaning := h.meaning_eq
  have hreads := reads_quoted h.followable
  rw [hmeaning] at hreads
  refine ⟨fun hsigned => ?_, fun hsigned => ?_, fun hv => ?_, ?_, ?_⟩
  · exact ⟨_, getSIntValue_eq h.followable hsigned,
      (meaning_of_signed hsigned).symm.trans hmeaning⟩
  · exact ⟨_, getUIntValue_eq h.followable hsigned,
      (meaning_of_unsigned hsigned).symm.trans hmeaning⟩
  · exact hreads.positive hv
  · exact hreads.isNegative
  · rw [Value.isMinusOne, hreads.isMinusOne]
    have hiff : v = -1 ↔ ty.signed = true ∧ v = -1 := by
      refine ⟨fun hv => ⟨?_, hv⟩, And.right⟩
      by_contra hsigned
      rw [meaning_of_unsigned (by simpa using hsigned), hv] at hmeaning
      omega
    simp only [← hiff]

/-- Memory of zeros that can be read everywhere. -/
def zeroRam : Ram := ⟨fun _ => 0, fun _ => true⟩

/-- A signed byte whose handle carries other bits above it. -/
theorem decoders_undo_encoding_signedByte :
    Value.isMinusOne zeroRam (IntType.descriptor ⟨3, true, 0⟩) 0xABCDEFFF = pure true := by
  have hencodes : Encodes zeroRam ⟨3, true, 0⟩ (-1) 0xABCDEFFF :=
    ⟨by decide, fun _ => by decide, fun hwidth => absurd hwidth (by decide)⟩
  exact (decoders_undo_encoding hencodes).2.2.2.2

end Encodes

end N64San.Ubsan
