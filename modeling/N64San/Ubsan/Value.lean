import N64San.Ubsan.Runtime

/-!
# Type descriptors and value handles

`ubsan_value.c`: what a type descriptor says, and how an integer is read from a
value handle.  A handle of at most 32 bits is the value itself, any other one
its address.  The decoder of signed integers shifts by calling two helpers in
assembly; what uses it takes the helpers, and has its usual meaning over the C
bodies that are quoted in their files.
-/

namespace N64San.Ubsan

open BigEndian

/-- `TypeDescriptor`; its name is known by its address. -/
structure TypeDescriptor where
  typeKind : U16
  typeInfo : U16
  typeName : U32
  deriving DecidableEq, Repr

abbrev ValueHandle := U32

def tkInteger : U16 := 0x0000
def tkFloat : U16 := 0x0001
def tkUnknown : U16 := 0xffff

def valueFile : String := "src/n64_ubsan/ubsan_value.c"

/-- `U64_LeftShift`, by the C body quoted in its file. -/
def u64LeftShift (value shift : U64) : U64 :=
  value <<< shift.toNat

/-- `U64_RightShift`, by the C body quoted in its file. -/
def u64RightShift (value shift : U64) : U64 :=
  value.sshiftRight shift.toNat

/-- `U64_LeftShift` and `U64_RightShift`, as C code calls them. -/
structure Helpers where
  left : U64 → U64 → U64
  right : U64 → U64 → U64

/-- The helpers that do what the quoted C bodies say. -/
def Helpers.quoted : Helpers :=
  ⟨u64LeftShift, u64RightShift⟩

namespace TypeDescriptor

def isIntegerTy (typeDescr : TypeDescriptor) : Bool :=
  typeDescr.typeKind = tkInteger

def isSignedIntegerTy (typeDescr : TypeDescriptor) : Bool :=
  typeDescr.isIntegerTy && typeDescr.typeInfo &&& 1 ≠ 0

def isUnsignedIntegerTy (typeDescr : TypeDescriptor) : Bool :=
  typeDescr.isIntegerTy && !(typeDescr.typeInfo &&& 1 ≠ 0)

/-- The processor shifts a word by its amount modulo 32. -/
def getIntegerBitWidth (typeDescr : TypeDescriptor) : San U32 := do
  check valueFile 27 "TypeDescriptor_isIntegerTy(typeDescr)" typeDescr.isIntegerTy
  return 1#32 <<< ((typeDescr.typeInfo >>> 1).toNat % 32)

def isFloatTy (typeDescr : TypeDescriptor) : Bool :=
  typeDescr.typeKind = tkFloat

def getFloatBitWidth (typeDescr : TypeDescriptor) : San U32 := do
  check valueFile 36 "TypeDescriptor_isFloatTy(typeDescr)" typeDescr.isFloatTy
  return typeDescr.typeInfo.setWidth 32

end TypeDescriptor

namespace Value

variable (ram : Ram)

/-- `Ubsan_Value_isInlineInt`. -/
def isInlineInt (type : TypeDescriptor) : San Bool := do
  check valueFile 42 "TypeDescriptor_isIntegerTy(Type)" type.isIntegerTy
  let inlineBits : U32 := 4 * 8
  let bits ← type.getIntegerBitWidth
  return decide (bits ≤ inlineBits)

/-- `Ubsan_Value_getUIntValue`. -/
def getUIntValue (type : TypeDescriptor) (val : ValueHandle) : San U64 := do
  check valueFile 75 "TypeDescriptor_isUnsignedIntegerTy(Type)" type.isUnsignedIntegerTy
  if ← isInlineInt type then
    return val.setWidth 64
  else if (← type.getIntegerBitWidth) = 64 then
    load64 ram val
  else
    unreachableCode valueFile 84 "unexpected bit width"

/-- `Ubsan_Value_isInlineFloat`. -/
def isInlineFloat (type : TypeDescriptor) : San Bool := do
  check valueFile 50 "TypeDescriptor_isFloatTy(Type)" type.isFloatTy
  let inlineBits : U32 := 4 * 8
  let bits ← type.getFloatBitWidth
  return decide (bits ≤ inlineBits)

/-- `Ubsan_Value_getFloatValue`; `cvt` is the processor's conversion of a
single to a double.  A `long double` is a double here, and an inline one of 64
bits needs a larger handle. -/
def getFloatValue (cvt : U32 → U64) (type : TypeDescriptor) (val : ValueHandle) : San U64 := do
  check valueFile 105 "TypeDescriptor_isFloatTy(Type)" type.isFloatTy
  let width ← type.getFloatBitWidth
  if ← isInlineFloat type then
    if width = 32 then return cvt val
    else unreachableCode valueFile 140 "unexpected floating point bit width"
  else if width = 64 ∨ width = 80 ∨ width = 96 ∨ width = 128 then
    load64 ram val
  else
    unreachableCode valueFile 140 "unexpected floating point bit width"

end Value

/-! ## Signed integers -/

namespace Helpers

variable (helpers : Helpers) (ram : Ram)

/-- `Ubsan_Value_getSIntValue`. -/
def getSIntValue (type : TypeDescriptor) (val : ValueHandle) : San U64 := do
  check valueFile 57 "TypeDescriptor_isSignedIntegerTy(Type)" type.isSignedIntegerTy
  if ← Value.isInlineInt type then
    let extraBits : U32 := 8 * 8 - (← type.getIntegerBitWidth)
    return helpers.right (helpers.left (val.setWidth 64) (extraBits.setWidth 64))
      (extraBits.setWidth 64)
  else if (← type.getIntegerBitWidth) = 64 then
    load64 ram val
  else
    unreachableCode valueFile 71 "unexpected bit width"

/-- `Ubsan_Value_getPositiveIntValue`. -/
def getPositiveIntValue (type : TypeDescriptor) (val : ValueHandle) : San U64 := do
  if type.isUnsignedIntegerTy then
    Value.getUIntValue ram type val
  else
    let result ← helpers.getSIntValue ram type val
    check valueFile 92 "result >= 0" (decide (0 ≤ result.toInt))
    return result

/-- `Ubsan_Value_isMinusOne`. -/
def isMinusOne (type : TypeDescriptor) (val : ValueHandle) : San Bool := do
  if type.isSignedIntegerTy then
    return decide ((← helpers.getSIntValue ram type val) = -1)
  else
    return false

/-- `Ubsan_Value_isNegative`. -/
def isNegative (type : TypeDescriptor) (val : ValueHandle) : San Bool := do
  if type.isSignedIntegerTy then
    return decide ((← helpers.getSIntValue ram type val).toInt < 0)
  else
    return false

end Helpers

namespace Value

def getSIntValue := Helpers.quoted.getSIntValue
def getPositiveIntValue := Helpers.quoted.getPositiveIntValue
def isMinusOne := Helpers.quoted.isMinusOne
def isNegative := Helpers.quoted.isNegative

end Value

end N64San.Ubsan
