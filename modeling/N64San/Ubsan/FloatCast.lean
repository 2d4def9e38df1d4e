import N64San.Ubsan.Decode
import N64San.Ubsan.Handlers

/-!
# The float cast report

The report of a cast out of range finds its record in memory, tells an old
record from a new one by the bytes behind its first pointer, and decodes the
value before it prints it.  The decoded integer has 64 bits, and the directive
in front of the two type names takes 32: the report prints the high word, and
reads the low word as a string.
-/

namespace N64San.Ubsan

open BigEndian Varargs

/-- `FloatCastOverflowDataV2`, with its pointers. -/
structure FloatCastOverflowDataV2 where
  loc : SourceLocation
  fromType : U32
  toType : U32

/-- The address of `TypeName`, behind the two halfwords of a descriptor. -/
def typeNameOf (type : U32) : U32 :=
  type + 4

section Handler

variable (ram : Ram) (cvt : U32 → U64)

/-- Fetch a descriptor. -/
def loadTypeDescriptor (type : U32) : San TypeDescriptor := do
  let word ← load32 ram type
  return ⟨word.extractLsb' 16 16, word.setWidth 16, typeNameOf type⟩

def loadFloatCastOverflowDataV2 (data : U32) : San FloatCastOverflowDataV2 := do
  let filename ← load32 ram data
  let line ← load32 ram (data + 4)
  let column ← load32 ram (data + 8)
  let fromType ← load32 ram (data + 12)
  let toType ← load32 ram (data + 16)
  return ⟨⟨filename, line, column⟩, fromType, toType⟩

def looksLikeFloatCastOverflowDataV1 (data : U32) : San Bool := do
  let filenameOrTypeDescriptor ← load32 ram data
  let first ← load8 ram filenameOrTypeDescriptor
  let second ← load8 ram (filenameOrTypeDescriptor + 1)
  let maybeFromTypeKind : U16 := first.setWidth 16 + second.setWidth 16
  return decide (maybeFromTypeKind < 2) || decide (first = 0xff) || decide (second = 0xff)

def handleFloatCastOverflow (dataPtr : U32) (val : ValueHandle) : San Unit := do
  let et : ErrorType := .floatCastOverflow
  if ← looksLikeFloatCastOverflowDataV1 ram dataPtr then
    n64WrapperAssert "FloatCastOverflowDataV1 is not implemented\n" handlersFile 541
  else
    let data ← loadFloatCastOverflowDataV2 ram dataPtr
    let loc : Location := .source data.loc
    let fromType ← loadTypeDescriptor ram data.fromType
    if fromType.isFloatTy then
      ubsanDiag loc .error et
        "%f (from type %s) is outside the range of representable values of type %s"
        [.double (← Value.getFloatValue ram cvt fromType val), .word fromType.typeName,
          .word (typeNameOf data.toType)]
    else if fromType.isUnsignedIntegerTy then
      ubsanDiag loc .error et
        "%lu (from type %s) is outside the range of representable values of type %s"
        [.double (← Value.getUIntValue ram fromType val), .word fromType.typeName,
          .word (typeNameOf data.toType)]
    else
      ubsanDiag loc .error et
        "%li (from type %s) is outside the range of representable values of type %s"
        [.double (← Value.getSIntValue ram fromType val), .word fromType.typeName,
          .word (typeNameOf data.toType)]

def ubsanHandleFloatCastOverflow (data : U32) (val : ValueHandle) : San Unit :=
  handleFloatCastOverflow ram cvt data val

def ubsanHandleFloatCastOverflowAbort (data : U32) (val : ValueHandle) : San Unit := do
  handleFloatCastOverflow ram cvt data val
  die

end Handler

/-! ## Records in memory -/

/-- A byte of a printable character, in ASCII or in the EUC-JP that the sources
are compiled for. -/
def Printable (c : U8) : Prop :=
  0x20 ≤ c ∧ c < 0xff

instance (c : U8) : Decidable (Printable c) :=
  inferInstanceAs (Decidable (_ ∧ _))

/-- A printable string that is not empty begins at the address: a printable
byte, and a printable byte or the end behind it. -/
structure BeginsPrintable (ram : Ram) (address : U32) : Prop where
  readable : ram.Readable 2 address
  first : Printable (ram.bytes address)
  second : ram.bytes (address + 1) = 0 ∨ Printable (ram.bytes (address + 1))

/-- A descriptor lies at the address, aligned to its halfwords, and at least
the end of its name lies behind it. -/
structure DescriptorAt (ram : Ram) (address : U32) (type : TypeDescriptor) : Prop where
  aligned : address.toNat % 2 = 0
  inside : address.toNat + 4 < 2 ^ 32
  readable : ram.Readable 4 address
  kind_info : readWord ram.bytes address = type.typeKind ++ type.typeInfo
  name : type.typeName = typeNameOf address

/-- A record of the new kind for a cast between the two types. -/
structure RecordAt (ram : Ram) (data : U32) (fromType toType : TypeDescriptor) : Prop where
  readable : ram.Readable 20 data
  filename : BeginsPrintable ram (readWord ram.bytes data)
  fromType_at : DescriptorAt ram (readWord ram.bytes (data + 12)) fromType
  toType_at : DescriptorAt ram (readWord ram.bytes (data + 16)) toType

/-- The location in a record. -/
def recordLoc (ram : Ram) (data : U32) : SourceLocation :=
  ⟨readWord ram.bytes data, readWord ram.bytes (data + 4), readWord ram.bytes (data + 8)⟩

section Records

variable {ram : Ram} {data address : U32} {type fromType toType : TypeDescriptor}

/-- No name lies at the ends of the address space. -/
theorem DescriptorAt.name_ne (h : DescriptorAt ram address type) :
    type.typeName ≠ 0 ∧ type.typeName ≠ 0xFFFFFFFF := by
  have haligned := h.aligned
  have hinside := h.inside
  rw [h.name, typeNameOf]
  constructor <;> bv_omega

theorem loadTypeDescriptor_eq (h : DescriptorAt ram address type) :
    loadTypeDescriptor ram address = pure type := by
  obtain ⟨typeKind, typeInfo, typeName⟩ := type
  have hname : typeName = typeNameOf address := h.name
  rw [loadTypeDescriptor, load32_of_readable h.readable, pure_bind, h.kind_info,
    BitVec.extractLsb'_append_eq_left, BitVec.setWidth_append_eq_right, hname]

theorem loadFloatCastOverflowDataV2_eq (h : ram.Readable 20 data) :
    loadFloatCastOverflowDataV2 ram data =
      pure ⟨recordLoc ram data, readWord ram.bytes (data + 12),
        readWord ram.bytes (data + 16)⟩ := by
  have hfilename : ram.Readable 4 data := fun i hi => h i (by omega)
  have hline : ram.Readable 4 (data + 4) := h.within (by decide : 4 + 4 ≤ 20)
  have hcolumn : ram.Readable 4 (data + 8) := h.within (by decide : 8 + 4 ≤ 20)
  have hfrom : ram.Readable 4 (data + 12) := h.within (by decide : 12 + 4 ≤ 20)
  have hto : ram.Readable 4 (data + 16) := h.within (by decide : 16 + 4 ≤ 20)
  rw [loadFloatCastOverflowDataV2, load32_of_readable hfilename, pure_bind,
    load32_of_readable hline, pure_bind, load32_of_readable hcolumn, pure_bind,
    load32_of_readable hfrom, pure_bind, load32_of_readable hto, pure_bind, recordLoc]

/-- A file name is never taken for a descriptor. -/
theorem looksLikeFloatCastOverflowDataV1_of_filename (hdata : ram.Readable 4 data)
    (h : BeginsPrintable ram (readWord ram.bytes data)) :
    looksLikeFloatCastOverflowDataV1 ram data = pure false := by
  obtain ⟨hreadable, hfirst, hsecond⟩ := h
  have hfirstReadable : ram.Readable 1 (readWord ram.bytes data) :=
    fun i hi => hreadable i (by omega)
  have hsecondReadable : ram.Readable 1 (readWord ram.bytes data + 1) :=
    hreadable.within (by decide : 1 + 1 ≤ 2)
  rw [looksLikeFloatCastOverflowDataV1, load32_of_readable hdata, pure_bind,
    load8_of_readable hfirstReadable, pure_bind, load8_of_readable hsecondReadable, pure_bind]
  generalize ram.bytes (readWord ram.bytes data) = first at hfirst ⊢
  generalize ram.bytes (readWord ram.bytes data + 1) = second at hsecond ⊢
  rw [Printable] at hfirst hsecond
  have hkind : ¬ (first.setWidth 16 + second.setWidth 16 : U16) < 2 := by bv_omega
  have hfirst_ne : first ≠ 0xff := by bv_omega
  have hsecond_ne : second ≠ 0xff := by
    rcases hsecond with hend | hprintable
    · rw [hend]
      decide
    · bv_omega
  simp only [hkind, hfirst_ne, hsecond_ne, decide_false, Bool.or_self]

theorem looksLikeFloatCastOverflowDataV1_eq (h : RecordAt ram data fromType toType) :
    looksLikeFloatCastOverflowDataV1 ram data = pure false :=
  looksLikeFloatCastOverflowDataV1_of_filename (fun i hi => h.readable i (by omega))
    h.filename

end Records

section Handler

variable {ram : Ram} {data : U32} {ty : IntType} {fromType toType : TypeDescriptor}
variable {val : ValueHandle}

/-- The format for an integer of the given signedness. -/
def integerFormat (signed : Bool) : String :=
  if signed then "%li (from type %s) is outside the range of representable values of type %s"
  else "%lu (from type %s) is outside the range of representable values of type %s"

/-- With its record in memory, the handler decodes the value by the source
type's kind and reports it. -/
theorem handleFloatCastOverflow_eq (cvt : U32 → U64)
    (h : RecordAt ram data fromType toType) :
    handleFloatCastOverflow ram cvt data val =
      let report (fmt : String) (value : U64) : San Unit :=
        reportError (recordLoc ram data) .floatCastOverflow fmt
          [.double value, .word fromType.typeName, .word toType.typeName]
      if fromType.isFloatTy then
        Value.getFloatValue ram cvt fromType val >>= report
          "%f (from type %s) is outside the range of representable values of type %s"
      else if fromType.isUnsignedIntegerTy then
        Value.getUIntValue ram fromType val >>= report (integerFormat false)
      else Value.getSIntValue ram fromType val >>= report (integerFormat true) := by
  rw [handleFloatCastOverflow, looksLikeFloatCastOverflowDataV1_eq h, pure_bind,
    if_neg Bool.false_ne_true, loadFloatCastOverflowDataV2_eq h.readable, pure_bind,
    loadTypeDescriptor_eq h.fromType_at, pure_bind, ← h.toType_at.name]
  simp only [ubsanDiag_source]
  rfl

/-- The report of an integer out of range passes the decoded value and the two
names. -/
theorem handleFloatCastOverflow_of_integer (cvt : U32 → U64)
    (h : RecordAt ram data ty.descriptor toType) (hval : Followable ram ty val) :
    handleFloatCastOverflow ram cvt data val =
      reportError (recordLoc ram data) .floatCastOverflow (integerFormat ty.signed)
        [.double (decoded ram ty val), .word ty.name, .word toType.typeName] := by
  have hfloat : ty.descriptor.isFloatTy = false := rfl
  rw [handleFloatCastOverflow_eq cvt h]
  simp only [hfloat, Bool.false_eq_true, if_false]
  rw [ty.isUnsignedIntegerTy_descriptor]
  cases hsigned : ty.signed with
  | false =>
      rw [if_pos (by rfl), getUIntValue_eq hval hsigned, pure_bind]
      rfl
  | true =>
      rw [if_neg (by simp), getSIntValue_eq hval hsigned, pure_bind]
      rfl

/-- The widths of the float types. -/
def floatWidths : List U16 := [32, 64, 80, 96, 128]

/-- The double that a handle of a float type of the width is decoded to: a
single is in the handle itself, any other float at its address. -/
def floatValue (ram : Ram) (cvt : U32 → U64) (width : U16) (val : ValueHandle) : U64 :=
  if width = 32 then cvt val else readDouble ram.bytes val

theorem getFloatValue_eq (cvt : U32 → U64) (hkind : fromType.typeKind = tkFloat)
    (hwidth : fromType.typeInfo ∈ floatWidths)
    (hval : fromType.typeInfo ≠ 32 → ram.Readable 8 val) :
    Value.getFloatValue ram cvt fromType val =
      pure (floatValue ram cvt fromType.typeInfo val) := by
  have hfloat : fromType.isFloatTy = true := decide_eq_true hkind
  have hbits : fromType.getFloatBitWidth = pure (fromType.typeInfo.setWidth 32) := by
    rw [TypeDescriptor.getFloatBitWidth, hfloat, check_true, pure_bind]
  have hinline : Value.isInlineFloat fromType =
      pure (decide (fromType.typeInfo.setWidth 32 ≤ (4 * 8 : U32))) := by
    rw [Value.isInlineFloat, hfloat, check_true, pure_bind, hbits, pure_bind]
  rw [Value.getFloatValue, hfloat, check_true, pure_bind, hbits, pure_bind, hinline, pure_bind]
  by_cases hsingle : fromType.typeInfo = 32
  · rw [hsingle, floatValue, if_pos rfl]
    rfl
  · have hwide : ∀ width ∈ floatWidths, width ≠ 32 →
        ¬ (width.setWidth 32 ≤ (4 * 8 : U32)) ∧
          (width.setWidth 32 = (64 : U32) ∨ width.setWidth 32 = (80 : U32) ∨
            width.setWidth 32 = (96 : U32) ∨ width.setWidth 32 = (128 : U32)) := by
      intro width hmem
      simp only [floatWidths, List.mem_cons, List.not_mem_nil, or_false] at hmem
      rcases hmem with rfl | rfl | rfl | rfl | rfl <;> decide
    obtain ⟨haddress, hknown⟩ := hwide _ hwidth hsingle
    rw [decide_eq_false haddress, if_neg Bool.false_ne_true, if_pos hknown,
      load64_of_readable (hval hsingle), floatValue, if_neg hsingle]

/-- A float of any width is passed in the same way. -/
theorem handleFloatCastOverflow_of_float (cvt : U32 → U64)
    (h : RecordAt ram data fromType toType) (hkind : fromType.typeKind = tkFloat)
    (hwidth : fromType.typeInfo ∈ floatWidths)
    (hval : fromType.typeInfo ≠ 32 → ram.Readable 8 val) :
    handleFloatCastOverflow ram cvt data val =
      reportError (recordLoc ram data) .floatCastOverflow
        "%f (from type %s) is outside the range of representable values of type %s"
        [.double (floatValue ram cvt fromType.typeInfo val), .word fromType.typeName,
          .word toType.typeName] := by
  have hfloat : fromType.isFloatTy = true := decide_eq_true hkind
  rw [handleFloatCastOverflow_eq cvt h]
  simp only [hfloat, if_true]
  rw [getFloatValue_eq cvt hkind hwidth hval, pure_bind]

theorem handleFloatCastOverflow_of_double (cvt : U32 → U64)
    (h : RecordAt ram data fromType toType) (hkind : fromType.typeKind = tkFloat)
    (hinfo : fromType.typeInfo = 64) (hval : ram.Readable 8 val) :
    handleFloatCastOverflow ram cvt data val =
      reportError (recordLoc ram data) .floatCastOverflow
        "%f (from type %s) is outside the range of representable values of type %s"
        [.double (readDouble ram.bytes val), .word fromType.typeName,
          .word toType.typeName] := by
  have hwidth : fromType.typeInfo ∈ floatWidths := by
    rw [hinfo]
    decide
  rw [handleFloatCastOverflow_of_float cvt h hkind hwidth fun _ => hval, hinfo]
  rfl

/-- Any other type is taken for a signed integer, and fails the decoder's own
check. -/
theorem handleFloatCastOverflow_of_unknown (cvt : U32 → U64)
    (h : RecordAt ram data fromType toType) (hkind : fromType.typeKind = tkUnknown) :
    handleFloatCastOverflow ram cvt data val =
      checkFailed valueFile 57 "((TypeDescriptor_isSignedIntegerTy(Type))) != (0)" 0 0 := by
  have hinteger : fromType.isIntegerTy = false := by
    rw [TypeDescriptor.isIntegerTy, hkind]
    rfl
  have hfloat : fromType.isFloatTy = false := by
    rw [TypeDescriptor.isFloatTy, hkind]
    rfl
  have hunsigned : fromType.isUnsignedIntegerTy = false := by
    rw [TypeDescriptor.isUnsignedIntegerTy, hinteger, Bool.false_and]
  rw [handleFloatCastOverflow_eq cvt h]
  simp only [hfloat, hunsigned, Bool.false_eq_true, if_false]
  rw [Value.getSIntValue, Helpers.getSIntValue, TypeDescriptor.isSignedIntegerTy, hinteger,
    Bool.false_and, bind_assoc]
  exact checkFailed_bind _

end Handler

/-! ## What the report prints -/

section Messages

variable (printer : Printer)

/-- The message for a value and the names of the two types. -/
def castText (value : List Char) (fromName toName : Slot) : List Char :=
  value ++ " (from type ".toList ++ printer.string fromName ++
    ") is outside the range of representable values of type ".toList ++ printer.string toName

/-- The program prints one report, whose message names the value and the two
types and reads no other string. -/
def PrintsCast (program : San Unit) (value : List Char) (fromName toName : U32) : Prop :=
  ∃ loc et fmt args, program = reportError loc et fmt args ∧
    printer.print (vprintf fmt (vaStart 4 args)) =
      castText printer value (.word fromName) (.word toName) ∧
    ∀ pointer ∈ pointers (vprintf fmt (vaStart 4 args)),
      pointer = .word fromName ∨ pointer = .word toName

/-- The pieces of such a message. -/
def castPieces (value : Piece) (fromName toName : Slot) : List Piece :=
  value :: " (from type ".toList.map .text ++ .string fromName ::
    ") is outside the range of representable values of type ".toList.map .text ++
    [.string toName]

theorem print_castPieces (value : Piece) (fromName toName : Slot) :
    printer.print (castPieces value fromName toName) =
      castText printer (printer.piece value) fromName toName := by
  simp [Printer.print, Printer.piece, castPieces, castText]

theorem pointers_castPieces (value : ℤ) (fromName toName : Slot) :
    pointers (castPieces (.decimal value) fromName toName) = [fromName, toName] := rfl

/-- The value can be read off such a message. -/
theorem eq_of_castText_eq {left right : ℤ} {fromName toName fromName' toName' : Slot}
    (h : castText printer (decimalText left) fromName toName =
      castText printer (decimalText right) fromName' toName') : left = right := by
  have hspace : ∀ value fromName toName, castText printer value fromName toName =
      value ++ ' ' :: ("(from type ".toList ++ (printer.string fromName ++
        (") is outside the range of representable values of type ".toList ++
          printer.string toName))) := by
    intro value fromName toName
    simp only [castText, List.append_assoc]
    rfl
  rw [hspace, hspace] at h
  exact eq_of_decimalText_append_eq h

variable (high low fromName toName : U32)

theorem layout_cast :
    layout 4 [.double (high ++ low), .word fromName, .word toName] =
      [.word high, .word low, .word fromName, .word toName] := by
  have hslots : layout 4 [.double (high ++ low), .word fromName, .word toName] =
      [.word ((high ++ low).extractLsb' 32 32), .word ((high ++ low).setWidth 32),
        .word fromName, .word toName] := rfl
  rw [hslots, BitVec.extractLsb'_append_eq_left, BitVec.setWidth_append_eq_right]

/-- The high word, as the first directive of an integer's format prints it. -/
def highWord (signed : Bool) : ℤ :=
  if signed then high.toInt else high.toNat

/-- Behind an integer the directives and the arguments are out of step by one
slot. -/
theorem vprintf_integerFormat (signed : Bool) :
    vprintf (integerFormat signed)
        (vaStart 4 [.double (high ++ low), .word fromName, .word toName]) =
      castPieces (.decimal (highWord high signed)) (.word low) (.word fromName) := by
  rw [vprintf_vaStart_eq, layout_cast]
  cases signed with
  | false => rfl
  | true => rfl

/-- Behind a float they are in step. -/
theorem vprintf_floatFormat :
    vprintf "%f (from type %s) is outside the range of representable values of type %s"
        (vaStart 4 [.double (high ++ low), .word fromName, .word toName]) =
      castPieces (.float (high ++ low)) (.word fromName) (.word toName) := by
  rw [vprintf_vaStart_eq, layout_cast]
  rfl

end Messages

/-- A double word is equal to its high word only when its low word is all zeros
or all ones. -/
theorem low_of_highWord_eq {signed : Bool} {high low : U32}
    (h : highWord high signed =
      if signed then (high ++ low).toInt else ((high ++ low).toNat : ℤ)) :
    low = 0 ∨ low = 0xFFFFFFFF := by
  have hlow := low.isLt
  have hextreme : low.toNat = 0 ∨ low.toNat = 0xFFFFFFFF := by
    cases signed with
    | false =>
        have hvalue : (high.toNat : ℤ) = ((high ++ low).toNat : ℤ) := h
        rw [BitVec.toNat_append, ← Nat.shiftLeft_add_eq_or_of_lt hlow, Nat.shiftLeft_eq]
          at hvalue
        omega
    | true =>
        have hvalue : high.toInt = (high ++ low).toInt := h
        rw [BitVec.toInt_append, if_neg (by decide)] at hvalue
        omega
  exact hextreme.imp BitVec.eq_of_toNat_eq BitVec.eq_of_toNat_eq

/-- A cast of an integer out of range, with its record in memory and its value
in a handle. -/
structure IntegerCast (ram : Ram) where
  data : U32
  ty : IntType
  toType : TypeDescriptor
  record : RecordAt ram data ty.descriptor toType
  value : ℤ
  handle : ValueHandle
  encodes : Encodes ram ty value handle

/-- The report of a cast of an integer never says what was cast: for no record,
no value, no names and no `printf`. -/
theorem integer_cast_is_misprinted {ram : Ram} (cast : IntegerCast ram) (cvt : U32 → U64)
    (printer : Printer) :
    ¬ PrintsCast printer (handleFloatCastOverflow ram cvt cast.data cast.handle)
      (decimalText cast.value) cast.ty.name cast.toType.typeName := by
  obtain ⟨data, ty, toType, record, value, handle, encodes⟩ := cast
  rintro ⟨loc, et, fmt, args, hprogram, htext, hpointers⟩
  rw [handleFloatCastOverflow_of_integer cvt record encodes.followable] at hprogram
  obtain ⟨-, -, rfl, rfl⟩ := reportError_inj hprogram
  obtain ⟨high, low, hword⟩ := exists_append (decoded ram ty handle)
  rw [hword, vprintf_integerFormat, pointers_castPieces] at hpointers
  rw [hword, vprintf_integerFormat, print_castPieces] at htext
  -- the number printed is the value, so the low word is the address of no name
  have hvalue : highWord high ty.signed = value := eq_of_castText_eq printer htext
  have hlow : low = 0 ∨ low = 0xFFFFFFFF := by
    apply low_of_highWord_eq
    rw [hvalue, ← hword]
    exact encodes.meaning_eq.symm
  have hfrom := record.fromType_at.name_ne
  have hto := record.toType_at.name_ne
  rcases hpointers (.word low) List.mem_cons_self with hname | hname
  · obtain rfl : low = ty.name := Slot.word.inj hname
    exact hlow.elim hfrom.1 hfrom.2
  · obtain rfl : low = toType.typeName := Slot.word.inj hname
    exact hlow.elim hto.1 hto.2

/-- A cast from a double says what was cast. -/
theorem PrintsCast.of_double {ram : Ram} {data : U32} {fromType toType : TypeDescriptor}
    {val : ValueHandle} (cvt : U32 → U64) (printer : Printer)
    (h : RecordAt ram data fromType toType) (hkind : fromType.typeKind = tkFloat)
    (hinfo : fromType.typeInfo = 64) (hval : ram.Readable 8 val) :
    PrintsCast printer (handleFloatCastOverflow ram cvt data val)
      (printer.float (readDouble ram.bytes val)) fromType.typeName toType.typeName := by
  refine ⟨_, _, _, _, handleFloatCastOverflow_of_double cvt h hkind hinfo hval, ?_, ?_⟩
  · rw [readDouble, vprintf_floatFormat, print_castPieces]
    rfl
  · rw [readDouble, vprintf_floatFormat]
    intro pointer hpointer
    have hnames : pointer ∈ [Slot.word fromType.typeName, Slot.word toType.typeName] := hpointer
    simpa using hnames

/-! ## A cast of an `int` -/

/-- The record at `0x80000000`, its file name and its two descriptors, for a
cast from `int` to `__fp16`. -/
def halfCastBytes : List U8 :=
  [0x80, 0x00, 0x00, 0x14, 0x00, 0x00, 0x00, 0x07, 0x00, 0x00, 0x00, 0x03,
    0x80, 0x00, 0x00, 0x18, 0x80, 0x00, 0x00, 0x22,
    0x61, 0x2E, 0x63, 0x00,
    0x00, 0x00, 0x00, 0x0B, 0x27, 0x69, 0x6E, 0x74, 0x27, 0x00,
    0x00, 0x01, 0x00, 0x10, 0x27, 0x5F, 0x5F, 0x66, 0x70, 0x31, 0x36, 0x27, 0x00]

def halfCastRam : Ram :=
  ⟨fun address => halfCastBytes.getD (address - 0x80000000).toNat 0, fun _ => true⟩

theorem halfCastRam_record :
    RecordAt halfCastRam 0x80000000 (IntType.word true 0x8000001C).descriptor
      ⟨tkFloat, 16, 0x80000026⟩ where
  readable _ _ := rfl
  filename := ⟨fun _ _ => rfl, by decide, Or.inr (by decide)⟩
  fromType_at := ⟨by decide, by decide, fun _ _ => rfl, by decide, by decide⟩
  toType_at := ⟨by decide, by decide, fun _ _ => rfl, by decide, by decide⟩

theorem encodes_halfCast :
    Encodes halfCastRam (.word true 0x8000001C) 100000 100000 where
  contains := by decide
  inline _ := by decide
  address hwidth := absurd hwidth (by decide)

/-- The `int` 100000, which no `__fp16` holds. -/
def halfCast : IntegerCast halfCastRam where
  data := 0x80000000
  ty := .word true 0x8000001C
  toType := ⟨tkFloat, 16, 0x80000026⟩
  record := halfCastRam_record
  value := 100000
  handle := 100000
  encodes := encodes_halfCast

/-- The report says that the value is zero, and takes 100000 for the address of
the source type's name. -/
theorem half_cast_prints (cvt : U32 → U64) :
    ∃ loc et fmt args,
      handleFloatCastOverflow halfCastRam cvt halfCast.data halfCast.handle =
          reportError loc et fmt args ∧
        decimals (vprintf fmt (vaStart 4 args)) = [0] ∧
        pointers (vprintf fmt (vaStart 4 args)) = [.word 100000, .word 0x8000001C] :=
  ⟨_, _, _, _, handleFloatCastOverflow_of_integer cvt halfCastRam_record
    encodes_halfCast.followable, by decide, by decide⟩

theorem half_cast_is_misprinted :
    ¬ ∃ (cvt : U32 → U64) (printer : Printer),
      PrintsCast printer (handleFloatCastOverflow halfCastRam cvt halfCast.data halfCast.handle)
        (decimalText halfCast.value) halfCast.ty.name halfCast.toType.typeName := by
  rintro ⟨cvt, printer, loc', et', fmt', args', hprogram, -, hnames⟩
  obtain ⟨loc, et, fmt, args, hreport, -, hpointers⟩ := half_cast_prints cvt
  obtain ⟨_, _, rfl, rfl⟩ := reportError_inj (hreport.symm.trans hprogram)
  have hname := hnames (.word 100000) (hpointers ▸ List.mem_cons_self)
  exact absurd hname (by decide)

end N64San.Ubsan
