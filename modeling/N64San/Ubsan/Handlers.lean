import N64San.Ubsan.Diag
import N64San.Ubsan.Value

/-!
# The handlers

`ubsan_handlers.c`: the records that the compiler emits for its checks, and
what the runtime reports when one of them fails.  The report options are unused
in the source and left out here.
-/

namespace N64San.Ubsan

open Varargs

def handlersFile : String := "src/n64_ubsan/ubsan_handlers.c"

/-! ## Type mismatch -/

structure TypeMismatchData where
  loc : SourceLocation
  type : TypeDescriptor
  logAlignment : U8
  typeCheckKind : U8

def tckNonnullAssign : U8 := 10

/-- `TypeCheckKinds`. -/
def typeCheckKinds : List String :=
  ["load of", "store to", "reference binding to", "member access within",
    "member call on", "constructor call on", "downcast of", "downcast of", "upcast of",
    "cast to virtual base of", "_Nonnull binding to", "dynamic operation on"]

/-- `TypeCheckKinds[kind]`.  An index beyond the table is undefined in C; the run
ends there. -/
def typeCheckKind (kind : U8) : San String :=
  match typeCheckKinds[kind.toNat]? with
  | some text => pure text
  | none => throw (.wild kind.toNat)

def typeMismatchError (alignment : U32) (data : TypeMismatchData) (pointer : ValueHandle) :
    ErrorType :=
  if pointer = 0 then
    if data.typeCheckKind = tckNonnullAssign then .nullPointerUseWithNullability
    else .nullPointerUse
  else if pointer &&& (alignment - 1) ≠ 0 then .misalignedPointerUse
  else .insufficientObjectSize

def handleTypeMismatchImpl (data : TypeMismatchData) (pointer : ValueHandle) : San Unit := do
  let loc : Location := .source data.loc
  let alignment : U32 := 1 <<< (data.logAlignment.toNat % 32)
  let et := typeMismatchError alignment data pointer
  match et with
  | .nullPointerUse | .nullPointerUseWithNullability =>
      let kind ← typeCheckKind data.typeCheckKind
      ubsanDiag loc .error et "%s null pointer of type %s"
        [.literal kind, .word data.type.typeName]
  | .misalignedPointerUse =>
      let kind ← typeCheckKind data.typeCheckKind
      ubsanDiag loc .error et
        "%s misaligned address 0x%X for type %s, which requires %i byte alignment"
        [.literal kind, .word pointer, .word data.type.typeName, .word alignment]
  | .insufficientObjectSize =>
      let kind ← typeCheckKind data.typeCheckKind
      ubsanDiag loc .error et
        "%s address 0x%X with insufficient space for an object of type %s"
        [.literal kind, .word pointer, .word data.type.typeName]
  | _ => unreachableCode handlersFile 136 "unexpected error type!"

/-! ## Integer overflow -/

structure OverflowData where
  loc : SourceLocation
  type : TypeDescriptor

/-- The error type of an overflow. -/
def overflowError (isSigned : Bool) : ErrorType :=
  if isSigned then .signedIntegerOverflow else .unsignedIntegerOverflow

def handleIntegerOverflowImpl (data : OverflowData) (lhs : ValueHandle) (operator : String)
    (rhs : ValueHandle) : San Unit :=
  let isSigned := data.type.isSignedIntegerTy
  ubsanDiag (.source data.loc) .error (overflowError isSigned)
    "%s integer overflow: %i %s %i cannot be represented in type %s"
    [.literal (if isSigned then "signed" else "unsigned"), .word lhs, .literal operator,
      .word rhs, .word data.type.typeName]

def handleNegateOverflowImpl (data : OverflowData) (oldVal : ValueHandle) : San Unit :=
  let isSigned := data.type.isSignedIntegerTy
  let et := overflowError isSigned
  if isSigned then
    ubsanDiag (.source data.loc) .error et
      "negation of %i cannot be represented in type %s; cast to an unsigned type to negate this value to itself"
      [.word oldVal, .word data.type.typeName]
  else
    ubsanDiag (.source data.loc) .error et
      "negation of %i cannot be represented in type %s"
      [.word oldVal, .word data.type.typeName]

variable (helpers : Helpers) (ram : Ram)

def Helpers.handleDivremOverflowImpl (data : OverflowData) (lhs rhs : ValueHandle) :
    San Unit := do
  let et : ErrorType :=
    if ← helpers.isMinusOne ram data.type rhs then .signedIntegerOverflow
    else if data.type.isIntegerTy then .integerDivideByZero
    else .floatDivideByZero
  match et with
  | .signedIntegerOverflow =>
      ubsanDiag (.source data.loc) .error et
        "division of %i by -1 cannot be represented in type %s"
        [.word lhs, .word data.type.typeName]
  | .integerDivideByZero | .floatDivideByZero =>
      ubsanDiag (.source data.loc) .error et "division by zero" []
  | _ => unreachableCode handlersFile 336 "unexpected error type!"

def handleDivremOverflowImpl := Helpers.quoted.handleDivremOverflowImpl

/-! ## Shifts -/

structure ShiftOutOfBoundsData where
  loc : SourceLocation
  lhsType : TypeDescriptor
  rhsType : TypeDescriptor

/-- The exponent is negative, or too large for the type of the base.  The second
test, and with it the decoder's own check, is not reached when the first one
succeeds. -/
def Helpers.invalidShiftExponent (data : ShiftOutOfBoundsData) (rhs : ValueHandle) :
    San Bool := do
  if ← helpers.isNegative ram data.rhsType rhs then
    return true
  else
    let exponent ← helpers.getPositiveIntValue ram data.rhsType rhs
    let width ← data.lhsType.getIntegerBitWidth
    return decide (width.setWidth 64 ≤ exponent)

def Helpers.handleShiftOutOfBoundsImpl (data : ShiftOutOfBoundsData)
    (lhs rhs : ValueHandle) : San Unit := do
  let loc : Location := .source data.loc
  if ← helpers.invalidShiftExponent ram data rhs then
    if ← helpers.isNegative ram data.rhsType rhs then
      ubsanDiag loc .error .invalidShiftExponent "shift exponent %i is negative" [.word rhs]
    else
      ubsanDiag loc .error .invalidShiftExponent
        "shift exponent %i is too large for %i-bit type %s"
        [.word rhs, .word (← data.lhsType.getIntegerBitWidth), .word data.lhsType.typeName]
  else
    if ← helpers.isNegative ram data.lhsType lhs then
      ubsanDiag loc .error .invalidShiftBase "left shift of negative value %i" [.word lhs]
    else
      ubsanDiag loc .error .invalidShiftBase
        "left shift of %i by %i places cannot be represented in type %s"
        [.word lhs, .word rhs, .word data.lhsType.typeName]

def invalidShiftExponent := Helpers.quoted.invalidShiftExponent
def handleShiftOutOfBoundsImpl := Helpers.quoted.handleShiftOutOfBoundsImpl

/-! ## Bounds and pointers -/

structure OutOfBoundsData where
  loc : SourceLocation
  arrayType : TypeDescriptor
  indexType : TypeDescriptor

def handleOutOfBoundsImpl (data : OutOfBoundsData) (index : ValueHandle) : San Unit :=
  ubsanDiag (.source data.loc) .error .outOfBoundsIndex "index %i out of bounds for type %s"
    [.word index, .word data.arrayType.typeName]

structure PointerOverflowData where
  loc : SourceLocation

def pointerOverflowError (base result : ValueHandle) : ErrorType :=
  if base = 0 ∧ result = 0 then .nullptrWithOffset
  else if base = 0 ∧ result ≠ 0 then .nullptrWithNonZeroOffset
  else if base ≠ 0 ∧ result = 0 then .nullptrAfterNonZeroOffset
  else .pointerOverflow

def handlePointerOverflowImpl (data : PointerOverflowData) (base result : ValueHandle) :
    San Unit :=
  let loc : Location := .source data.loc
  let et := pointerOverflowError base result
  if et = .nullptrWithOffset then
    ubsanDiag loc .error et "applying zero offset to null pointer" []
  else if et = .nullptrWithNonZeroOffset then
    ubsanDiag loc .error et "applying non-zero offset %X to null pointer" [.word result]
  else if et = .nullptrAfterNonZeroOffset then
    ubsanDiag loc .error et
      "applying non-zero offset to non-null pointer %X produced null pointer" [.word base]
  else if decide (0 ≤ base.toInt) = decide (0 ≤ result.toInt) then
    if result < base then
      ubsanDiag loc .error et "addition of unsigned offset to %X overflowed to %X"
        [.word base, .word result]
    else
      ubsanDiag loc .error et "subtraction of unsigned offset from %X overflowed to %X"
        [.word base, .word result]
  else
    ubsanDiag loc .error et "pointer index expression with base %X overflowed to %X"
      [.word base, .word result]

/-! ## The entry points -/

/-- `UBSAN_OVERFLOW_HANDLER`. -/
def ubsanOverflowHandler (op : String) (unrecoverable : Bool) (data : OverflowData)
    (lhs rhs : ValueHandle) : San Unit := do
  handleIntegerOverflowImpl data lhs op rhs
  if unrecoverable then
    die

def ubsanHandleAddOverflow := ubsanOverflowHandler "+" false
def ubsanHandleAddOverflowAbort := ubsanOverflowHandler "+" true
def ubsanHandleSubOverflow := ubsanOverflowHandler "-" false
def ubsanHandleSubOverflowAbort := ubsanOverflowHandler "-" true
def ubsanHandleMulOverflow := ubsanOverflowHandler "*" false
def ubsanHandleMulOverflowAbort := ubsanOverflowHandler "*" true

def ubsanHandleTypeMismatchV1 (data : TypeMismatchData) (pointer : ValueHandle) : San Unit :=
  handleTypeMismatchImpl data pointer

def ubsanHandleTypeMismatchV1Abort (data : TypeMismatchData) (pointer : ValueHandle) :
    San Unit := do
  handleTypeMismatchImpl data pointer
  die

def ubsanHandleNegateOverflow (data : OverflowData) (oldVal : ValueHandle) : San Unit :=
  handleNegateOverflowImpl data oldVal

def ubsanHandleNegateOverflowAbort (data : OverflowData) (oldVal : ValueHandle) :
    San Unit := do
  handleNegateOverflowImpl data oldVal
  die

def ubsanHandleDivremOverflow (data : OverflowData) (lhs rhs : ValueHandle) : San Unit :=
  handleDivremOverflowImpl ram data lhs rhs

def ubsanHandleDivremOverflowAbort (data : OverflowData) (lhs rhs : ValueHandle) :
    San Unit := do
  handleDivremOverflowImpl ram data lhs rhs
  die

def ubsanHandleShiftOutOfBounds (data : ShiftOutOfBoundsData) (lhs rhs : ValueHandle) :
    San Unit :=
  handleShiftOutOfBoundsImpl ram data lhs rhs

def ubsanHandleShiftOutOfBoundsAbort (data : ShiftOutOfBoundsData) (lhs rhs : ValueHandle) :
    San Unit := do
  handleShiftOutOfBoundsImpl ram data lhs rhs
  die

def ubsanHandleOutOfBounds (data : OutOfBoundsData) (index : ValueHandle) : San Unit :=
  handleOutOfBoundsImpl data index

def ubsanHandleOutOfBoundsAbort (data : OutOfBoundsData) (index : ValueHandle) :
    San Unit := do
  handleOutOfBoundsImpl data index
  die

def ubsanHandlePointerOverflow (data : PointerOverflowData) (base result : ValueHandle) :
    San Unit :=
  handlePointerOverflowImpl data base result

def ubsanHandlePointerOverflowAbort (data : PointerOverflowData) (base result : ValueHandle) :
    San Unit := do
  handlePointerOverflowImpl data base result
  die

end N64San.Ubsan
