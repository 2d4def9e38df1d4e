import N64San.Ubsan.FloatCast
import N64San.Ubsan.Formats

/-!
# The two layouts of a float cast record

Compilers have emitted two records for the check: the old one begins with the
pointer to a descriptor, the new one with the pointer to a file name.  The
handler tells them apart by two bytes behind that pointer.  It does so for every
record but one kind: at an unknown location the pointer is null.
-/

namespace N64San.Ubsan

open BigEndian Varargs

/-- The addresses of an object. -/
def objectAt (address : U32) (size : ℕ) : Set U32 :=
  {x | (x - address).toNat < size}

/-- A string lies at the address, with a NUL behind its last byte. -/
structure StringAt (m : Memory) (address : U32) (text : List U8) : Prop where
  bytes : ∀ i (hi : i < text.length), m (address + BitVec.ofNat 32 i) = text[i]
  nul : m (address + BitVec.ofNat 32 text.length) = 0

/-- The records that a handler of the check can be called with.  Of the old one
the descriptor counts, of the new one the file name. -/
inductive CastRecord (m : Memory) (data : U32)
  | old (kind info : U16) (hkind : kind = tkInteger ∨ kind = tkFloat ∨ kind = tkUnknown)
      (hdescriptor : readWord m (readWord m data) = kind ++ info)
  | named (filename : List U8) (hnonempty : filename ≠ [])
      (hprintable : ∀ c ∈ filename, Printable c) (hpointer : readWord m data ≠ 0)
      (hstring : StringAt m (readWord m data) filename)
  | unknown (hpointer : readWord m data = 0) (houtside : 0 ∉ objectAt data 20)

namespace CastRecord

variable {m : Memory} {data : U32}

/-- The record has the old layout. -/
def isOld : CastRecord m data → Bool
  | old _ _ _ _ => true
  | named _ _ _ _ _ => false
  | unknown _ _ => false

/-- The record, and the descriptor or the file name that it points to. -/
def footprint : CastRecord m data → Set U32
  | old _ _ _ _ => objectAt data 8 ∪ objectAt (readWord m data) 4
  | named filename _ _ _ _ =>
      objectAt data 20 ∪ objectAt (readWord m data) (filename.length + 1)
  | unknown _ _ => objectAt data 20

end CastRecord

/-- Wherever the bytes of `m` can be read on the footprint at least, the test of
the record's layout gives the answer. -/
def AnswersWithin (m : Memory) (data : U32) (footprint : Set U32) (answer : Bool) : Prop :=
  ∀ ram : Ram, ram.bytes = m → (∀ x ∈ footprint, ram.readable x = true) →
    looksLikeFloatCastOverflowDataV1 ram data = pure answer

section Layout

variable {ram : Ram} {data address : U32}

theorem readable_of_footprint {footprint : Set U32} {size : ℕ}
    (hfootprint : ∀ x ∈ footprint, ram.readable x = true)
    (h : objectAt address size ⊆ footprint) : ram.Readable size address := by
  intro i hi
  refine hfootprint _ (h ?_)
  change (address + BitVec.ofNat 32 i - address).toNat < size
  rw [BitVec.add_comm, BitVec.add_sub_cancel, BitVec.toNat_ofNat]
  exact (Nat.mod_le _ _).trans_lt hi

theorem objectAt_mono {part size : ℕ} (h : part ≤ size) :
    objectAt address part ⊆ objectAt address size :=
  fun _ hx => hx.trans_le h

/-- A file name begins as the test expects it. -/
theorem beginsPrintable_of_string {filename : List U8} (hnonempty : filename ≠ [])
    (hprintable : ∀ c ∈ filename, Printable c)
    (hstring : StringAt ram.bytes address filename)
    (hreadable : ram.Readable (filename.length + 1) address) :
    BeginsPrintable ram address := by
  have hlength : 0 < filename.length := List.length_pos_of_ne_nil hnonempty
  have hbyte : ∀ i (hi : i < filename.length),
      Printable (ram.bytes (address + BitVec.ofNat 32 i)) := fun i hi =>
    (hstring.bytes i hi).symm ▸ hprintable _ (List.getElem_mem hi)
  refine ⟨fun i hi => hreadable i (by omega), ?_, ?_⟩
  · simpa using hbyte 0 hlength
  · by_cases hone : filename.length = 1
    · left
      have hnul := hstring.nul
      rwa [hone] at hnul
    · right
      exact hbyte 1 (by omega)

/-- A descriptor of any of the three kinds passes the test. -/
theorem looksLikeFloatCastOverflowDataV1_of_descriptor {kind info : U16}
    (hkind : kind = tkInteger ∨ kind = tkFloat ∨ kind = tkUnknown)
    (hdata : ram.Readable 4 data) (hreadable : ram.Readable 4 (readWord ram.bytes data))
    (hdescriptor : readWord ram.bytes (readWord ram.bytes data) = kind ++ info) :
    looksLikeFloatCastOverflowDataV1 ram data = pure true := by
  have hbyte : ∀ lane < 2, ram.bytes (readWord ram.bytes data + BitVec.ofNat 32 lane) =
      kind.extractLsb' (8 * (3 - lane) - 16) 8 := by
    intro lane hlane
    have hlane' : lane < 4 := by omega
    rw [← byteOfWord_readWord ram.bytes _ hlane', hdescriptor, byteOfWord,
      BitVec.extractLsb'_append_eq_of_le (by omega)]
  have hfirst : ram.bytes (readWord ram.bytes data) = kind.extractLsb' 8 8 := by
    simpa using hbyte 0 (by decide)
  have hsecond : ram.bytes (readWord ram.bytes data + 1) = kind.extractLsb' 0 8 :=
    hbyte 1 (by decide)
  have hfirstReadable : ram.Readable 1 (readWord ram.bytes data) :=
    fun i hi => hreadable i (by omega)
  have hsecondReadable : ram.Readable 1 (readWord ram.bytes data + 1) :=
    hreadable.within (by decide : 1 + 1 ≤ 4)
  rw [looksLikeFloatCastOverflowDataV1, load32_of_readable hdata, pure_bind,
    load8_of_readable hfirstReadable, pure_bind, load8_of_readable hsecondReadable, pure_bind,
    hfirst, hsecond]
  rcases hkind with rfl | rfl | rfl <;> rfl

/-- Through a null pointer there is nothing to read. -/
theorem looksLikeFloatCastOverflowDataV1_of_null (hdata : ram.Readable 4 data)
    (hpointer : readWord ram.bytes data = 0) (hnull : ram.readable 0 = false) :
    looksLikeFloatCastOverflowDataV1 ram data = throw (.fault 0) := by
  have hfault : load8 ram 0 = throw (.fault 0) := by
    apply if_neg
    intro hreadable
    have hzero := hreadable 0 (by decide)
    exact absurd (hzero.symm.trans hnull) (by decide)
  rw [looksLikeFloatCastOverflowDataV1, load32_of_readable hdata, pure_bind, hpointer, hfault]
  rfl

/-- Nothing is told about a new record without a file name. -/
theorem not_answersWithin_of_null {m : Memory} (hpointer : readWord m data = 0)
    (houtside : 0 ∉ objectAt data 20) (answer : Bool) :
    ¬ AnswersWithin m data (objectAt data 20) answer := by
  intro hanswers
  -- memory that can be read in the record and nowhere else
  let ram : Ram := ⟨m, fun x => decide ((x - data).toNat < 20)⟩
  have hfootprint : ∀ x ∈ objectAt data 20, ram.readable x = true :=
    fun x hx => decide_eq_true hx
  have hdata : ram.Readable 4 data :=
    readable_of_footprint hfootprint (objectAt_mono (by decide))
  have hnull : ram.readable 0 = false := decide_eq_false houtside
  have hanswer := hanswers ram rfl hfootprint
  rw [looksLikeFloatCastOverflowDataV1_of_null hdata hpointer hnull] at hanswer
  have hexec := congrArg (fun program => (San.exec program (fun _ => .ok ()) ⟨[], []⟩).1) hanswer
  cases hexec

end Layout

/-- The test tells the two layouts apart, and reads nothing but the record and
what it points to, for exactly the old records and the new ones whose file name
is not null. -/
theorem float_cast_layouts_told_apart_iff {m : Memory} {data : U32}
    (record : CastRecord m data) :
    AnswersWithin m data record.footprint record.isOld ↔
      record.isOld = true ∨ readWord m data ≠ 0 := by
  cases record with
  | old kind info hkind hdescriptor =>
      refine iff_of_true ?_ (Or.inl rfl)
      rintro ram rfl hfootprint
      have hdata : ram.Readable 4 data := readable_of_footprint hfootprint
        ((objectAt_mono (by decide)).trans Set.subset_union_left)
      have hpointed : ram.Readable 4 (readWord ram.bytes data) :=
        readable_of_footprint hfootprint Set.subset_union_right
      exact looksLikeFloatCastOverflowDataV1_of_descriptor hkind hdata hpointed hdescriptor
  | named filename hnonempty hprintable hpointer hstring =>
      refine iff_of_true ?_ (Or.inr hpointer)
      rintro ram rfl hfootprint
      have hdata : ram.Readable 4 data := readable_of_footprint hfootprint
        ((objectAt_mono (by decide)).trans Set.subset_union_left)
      have hpointed : ram.Readable (filename.length + 1) (readWord ram.bytes data) :=
        readable_of_footprint hfootprint Set.subset_union_right
      exact looksLikeFloatCastOverflowDataV1_of_filename hdata
        (beginsPrintable_of_string hnonempty hprintable hstring hpointed)
  | unknown hpointer houtside =>
      refine iff_of_false (not_answersWithin_of_null hpointer houtside false) ?_
      rintro (hold | hne)
      · cases hold
      · exact hne hpointer

/-- A record at `0x80000000` without a file name, and its two descriptors, for a
cast from `float` to `int`. -/
def unknownLocationBytes : List U8 :=
  [0x00, 0x00, 0x00, 0x00, 0x00, 0x00, 0x00, 0x00, 0x00, 0x00, 0x00, 0x00,
    0x80, 0x00, 0x00, 0x14, 0x80, 0x00, 0x00, 0x20,
    0x00, 0x01, 0x00, 0x20, 0x27, 0x66, 0x6C, 0x6F, 0x61, 0x74, 0x27, 0x00,
    0x00, 0x00, 0x00, 0x0B, 0x27, 0x69, 0x6E, 0x74, 0x27, 0x00]

def unknownLocation : Memory := fun address =>
  unknownLocationBytes.getD (address - 0x80000000).toNat 0

/-- The test faults on a record whose location is unknown. -/
theorem unknown_location_faults :
    ∃ record : CastRecord unknownLocation 0x80000000, record.isOld = false ∧
      ¬ AnswersWithin unknownLocation 0x80000000 record.footprint record.isOld := by
  have hpointer : readWord unknownLocation 0x80000000 = 0 := by decide
  have houtside : 0 ∉ objectAt 0x80000000 20 := by
    change ¬ ((0 : U32) - 0x80000000).toNat < 20
    decide
  exact ⟨.unknown hpointer houtside, rfl, not_answersWithin_of_null hpointer houtside false⟩

/-! ## The kinds of the source type -/

/-- The source types of the format, with a handle of the type: an integer, a
float, or any other type. -/
inductive CastSource (ram : Ram) (val : ValueHandle) : TypeDescriptor → Prop
  | integer {ty : IntType} (hval : Followable ram ty val) : CastSource ram val ty.descriptor
  | float {type : TypeDescriptor} (hkind : type.typeKind = tkFloat)
      (hwidth : type.typeInfo ∈ floatWidths)
      (hval : type.typeInfo ≠ 32 → ram.Readable 8 val) : CastSource ram val type
  | unknown {type : TypeDescriptor} (hkind : type.typeKind = tkUnknown) :
      CastSource ram val type

/-- The strings in memory that the report of a cast should print. -/
def castNames (ram : Ram) (data : U32) : List U32 :=
  (recordLoc ram data).names ++
    [typeNameOf (readWord ram.bytes (data + 12)), typeNameOf (readWord ram.bytes (data + 16))]

/-- The program prints the report of a cast and returns. -/
def ReportsCast (printf : Formatter) (program : San Unit) (loc : SourceLocation) : Prop :=
  ∃ fmt args, ∀ c : Console, program.exec printf c =
    (.ok (), ⟨c.reports ++ [⟨.source loc, .error, .floatCastOverflow, fmt, args⟩],
      c.out ++ errorOutput loc fmt args⟩)

section Source

variable {ram : Ram} {data : U32} {val : ValueHandle} {fromType toType : TypeDescriptor}
variable {printf : Formatter} {loc : SourceLocation}

/-- A report of a cast that is made returns if the strings of its message are
there. -/
theorem reportsCast_reportError_iff {fmt : String} {args : List Arg}
    (hprintf : printf.Reads ram) (hfile : ∀ name ∈ loc.names, ram.Holds (.word name))
    (hmessage : Output.Specified ⟨fmt, vaStart 4 args⟩) :
    ReportsCast printf (reportError loc .floatCastOverflow fmt args) loc ↔
      ∀ slot ∈ pointers (vprintf fmt (vaStart 4 args)), ram.Holds slot := by
  rw [← errorOutput_returns_iff hprintf hfile hmessage]
  constructor
  · rintro ⟨fmt', args', hexec⟩
    by_contra hnot
    exact exec_reportError_ne_ok hnot ⟨[], []⟩ _ (hexec ⟨[], []⟩)
  · exact fun hall => ⟨fmt, args, exec_reportError_ok hall⟩

theorem specified_cast {fmt : String} {args : List Arg} {value : Piece} {fromName toName : U32}
    (hpieces : vprintf fmt (vaStart 4 args) =
      castPieces value (.word fromName) (.word toName))
    (hvalue : value ≠ .unspecified) (hpointer : ∀ slot, value ≠ .string slot) :
    Output.Specified ⟨fmt, vaStart 4 args⟩ ∧
      pointers (vprintf fmt (vaStart 4 args)) = [.word fromName, .word toName] := by
  have hpointers : pointers (castPieces value (.word fromName) (.word toName)) =
      [.word fromName, .word toName] := by
    cases value with
    | string slot => exact absurd rfl (hpointer slot)
    | _ => rfl
  refine ⟨⟨?_, ?_⟩, hpieces ▸ hpointers⟩
  · change .unspecified ∉ vprintf fmt (vaStart 4 args)
    rw [hpieces]
    simp [castPieces, hvalue.symm]
  · change .padding ∉ pointers (vprintf fmt (vaStart 4 args))
    rw [hpieces, hpointers]
    simp

/-- A cast of an integer is reported if its value, taken for an address, leads to
a string. -/
theorem reportsCast_of_integer_iff {ty : IntType} (cvt : U32 → U64)
    (h : RecordAt ram data ty.descriptor toType) (hval : Followable ram ty val)
    (hprintf : printf.Reads ram) (hnames : ∀ name ∈ castNames ram data, ram.Holds (.word name)) :
    ReportsCast printf (ubsanHandleFloatCastOverflow ram cvt data val) (recordLoc ram data) ↔
      ram.Holds (.word (BitVec.ofInt 32 (meaning ram ty val))) := by
  obtain ⟨high, low, hword⟩ := exists_append (decoded ram ty val)
  have hlow : BitVec.ofInt 32 (meaning ram ty val) = low := by
    rw [← setWidth_decoded, hword, BitVec.setWidth_append_eq_right]
  have hfrom : ram.Holds (.word ty.name) := by
    have hname : ty.name = typeNameOf (readWord ram.bytes (data + 12)) := h.fromType_at.name
    exact hname ▸ hnames _ (by simp [castNames])
  obtain ⟨hmessage, hpointers⟩ := specified_cast
    (vprintf_integerFormat high low ty.name toType.typeName ty.signed)
    Piece.noConfusion fun _ => Piece.noConfusion
  rw [ubsanHandleFloatCastOverflow, handleFloatCastOverflow_of_integer cvt h hval, hword, hlow,
    reportsCast_reportError_iff hprintf
      (fun name hname => hnames name (List.mem_append_left _ hname)) hmessage, hpointers]
  simp [hfrom]

theorem reportsCast_of_float (cvt : U32 → U64) (h : RecordAt ram data fromType toType)
    (hkind : fromType.typeKind = tkFloat) (hwidth : fromType.typeInfo ∈ floatWidths)
    (hval : fromType.typeInfo ≠ 32 → ram.Readable 8 val) (hprintf : printf.Reads ram)
    (hnames : ∀ name ∈ castNames ram data, ram.Holds (.word name)) :
    ReportsCast printf (ubsanHandleFloatCastOverflow ram cvt data val) (recordLoc ram data) := by
  obtain ⟨high, low, hword⟩ := exists_append (floatValue ram cvt fromType.typeInfo val)
  have hfrom : ram.Holds (.word fromType.typeName) :=
    h.fromType_at.name ▸ hnames _ (by simp [castNames])
  have hto : ram.Holds (.word toType.typeName) :=
    h.toType_at.name ▸ hnames _ (by simp [castNames])
  obtain ⟨hmessage, hpointers⟩ := specified_cast
    (vprintf_floatFormat high low fromType.typeName toType.typeName)
    Piece.noConfusion fun _ => Piece.noConfusion
  rw [ubsanHandleFloatCastOverflow, handleFloatCastOverflow_of_float cvt h hkind hwidth hval,
    hword, reportsCast_reportError_iff hprintf
      (fun name hname => hnames name (List.mem_append_left _ hname)) hmessage, hpointers]
  simp [hfrom, hto]

/-- The report of a type of any other kind is never made. -/
theorem not_reportsCast_of_unknown (cvt : U32 → U64)
    (h : RecordAt ram data fromType toType) (hkind : fromType.typeKind = tkUnknown) :
    ¬ ReportsCast printf (ubsanHandleFloatCastOverflow ram cvt data val)
      (recordLoc ram data) := by
  rintro ⟨fmt, args, hexec⟩
  obtain ⟨halt, out, hhalts, -⟩ := fails_checkFailed valueFile 57
    "((TypeDescriptor_isSignedIntegerTy(Type))) != (0)" 0 0 printf ⟨[], []⟩
  have hreturns := hexec ⟨[], []⟩
  rw [ubsanHandleFloatCastOverflow, handleFloatCastOverflow_of_unknown cvt h hkind,
    hhalts] at hreturns
  cases hreturns

/-- For every record with a file name, every source type of the format and every
handle, the recoverable handler reports the cast and returns if and only if the
type is a float, or an integer and the value, modulo `2 ^ 32`, is the address of
a string. -/
theorem float_cast_returns_iff (h : RecordAt ram data fromType toType)
    (hnames : ∀ name ∈ castNames ram data, ram.Holds (.word name))
    (hsource : CastSource ram val fromType) (cvt : U32 → U64) (hprintf : printf.Reads ram) :
    ReportsCast printf (ubsanHandleFloatCastOverflow ram cvt data val) (recordLoc ram data) ↔
      fromType.typeKind = tkFloat ∨
        ∃ ty : IntType, fromType = ty.descriptor ∧
          ram.Holds (.word (BitVec.ofInt 32 (meaning ram ty val))) := by
  have hkinds : tkInteger ≠ tkFloat ∧ tkUnknown ≠ tkFloat ∧ tkUnknown ≠ tkInteger := by decide
  obtain ⟨hinteger, hunknown, hother⟩ := hkinds
  cases hsource with
  | @integer ty hval =>
      rw [reportsCast_of_integer_iff cvt h hval hprintf hnames]
      constructor
      · exact fun hstring => Or.inr ⟨ty, rfl, hstring⟩
      · rintro (hfloat | ⟨ty', hty, hstring⟩)
        · exact absurd hfloat hinteger
        · rwa [IntType.descriptor_injective hty]
  | float hkind hwidth hval =>
      exact iff_of_true (reportsCast_of_float cvt h hkind hwidth hval hprintf hnames)
        (Or.inl hkind)
  | unknown hkind =>
      refine iff_of_false (not_reportsCast_of_unknown cvt h hkind) ?_
      rintro (hfloat | ⟨ty, rfl, -⟩)
      · exact hunknown (hkind.symm.trans hfloat)
      · exact hother hkind.symm

end Source

/-- The record of the cast to `__fp16`, with nothing else to read. -/
def loneCastRam : Ram :=
  .ofBytes 0x80000000 halfCastBytes

theorem loneCastRam_record :
    RecordAt loneCastRam 0x80000000 (IntType.word true 0x8000001C).descriptor
      ⟨tkFloat, 16, 0x80000026⟩ where
  readable := by decide
  filename := ⟨by decide, by decide, Or.inr (by decide)⟩
  fromType_at := ⟨by decide, by decide, by decide, by decide, by decide⟩
  toType_at := ⟨by decide, by decide, by decide, by decide, by decide⟩

/-- The cast of the `int` 100000 is not reported: there is no string at that
address.  The cast of the `int` whose bits are the address of the file name
is. -/
theorem float_cast_returns_iff_int :
    ¬ ReportsCast loneCastRam.printf
        (ubsanHandleFloatCastOverflow loneCastRam (fun _ => 0) 0x80000000 100000)
        (recordLoc loneCastRam 0x80000000) ∧
      ReportsCast loneCastRam.printf
        (ubsanHandleFloatCastOverflow loneCastRam (fun _ => 0) 0x80000000 0x80000014)
        (recordLoc loneCastRam 0x80000000) := by
  have hnames : ∀ name ∈ castNames loneCastRam 0x80000000, loneCastRam.Holds (.word name) :=
    @Ram.holds_of_within _ _ 16 (by decide) (by decide)
  have hsource : ∀ val,
      CastSource loneCastRam val (IntType.word true 0x8000001C).descriptor := fun val =>
    .integer fun hwidth => absurd hwidth (by decide)
  have hkind : (IntType.word true 0x8000001C).descriptor.typeKind ≠ tkFloat := by decide
  constructor
  · rw [float_cast_returns_iff loneCastRam_record hnames (hsource _) _
      loneCastRam.printf_reads]
    rintro (hfloat | ⟨ty, hty, hstring⟩)
    · exact hkind hfloat
    · rw [← IntType.descriptor_injective hty] at hstring
      exact Ram.not_holds_of_fault (by decide) hstring
  · rw [float_cast_returns_iff loneCastRam_record hnames (hsource _) _
      loneCastRam.printf_reads]
    exact Or.inr ⟨_, rfl, hnames _ (by decide)⟩

/-- The record at `0x80000000`, its file name and its two descriptors, for a
cast from a vector, which has no kind of its own, to `int`. -/
def vectorCastBytes : List U8 :=
  [0x80, 0x00, 0x00, 0x14, 0x00, 0x00, 0x00, 0x07, 0x00, 0x00, 0x00, 0x03,
    0x80, 0x00, 0x00, 0x18, 0x80, 0x00, 0x00, 0x22,
    0x61, 0x2E, 0x63, 0x00,
    0xFF, 0xFF, 0x00, 0x00, 0x27, 0x76, 0x65, 0x63, 0x27, 0x00,
    0x00, 0x00, 0x00, 0x0B, 0x27, 0x69, 0x6E, 0x74, 0x27, 0x00]

def vectorCastRam : Ram :=
  .ofBytes 0x80000000 vectorCastBytes

theorem vectorCastRam_record :
    RecordAt vectorCastRam 0x80000000 ⟨tkUnknown, 0, 0x8000001C⟩
      ⟨tkInteger, 11, 0x80000026⟩ where
  readable := by decide
  filename := ⟨by decide, by decide, Or.inr (by decide)⟩
  fromType_at := ⟨by decide, by decide, by decide, by decide, by decide⟩
  toType_at := ⟨by decide, by decide, by decide, by decide, by decide⟩

/-- The handler that should recover crashes the game, though every name of the
record is a string. -/
theorem vector_cast_crashes :
    RecordAt vectorCastRam 0x80000000 ⟨tkUnknown, 0, 0x8000001C⟩
        ⟨tkInteger, 11, 0x80000026⟩ ∧
      CastSource vectorCastRam 0 ⟨tkUnknown, 0, 0x8000001C⟩ ∧
      (∀ name ∈ castNames vectorCastRam 0x80000000, vectorCastRam.Holds (.word name)) ∧
      ∀ (cvt : U32 → U64) (printf : Formatter),
        ¬ ReportsCast printf (ubsanHandleFloatCastOverflow vectorCastRam cvt 0x80000000 0)
          (recordLoc vectorCastRam 0x80000000) :=
  ⟨vectorCastRam_record, .unknown rfl, @Ram.holds_of_within _ _ 16 (by decide) (by decide),
    fun cvt _ => not_reportsCast_of_unknown cvt vectorCastRam_record rfl⟩

end N64San.Ubsan
