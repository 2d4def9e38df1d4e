import N64San.Ubsan.Descriptors
import N64San.Ubsan.Formats
import N64San.Ubsan.Handlers

/-!
# What the handlers accept

On any record and any handles a handler either makes one whole report, whose
format fits, and returns, or it fails without a report.  Which of the two it
does depends on the descriptors it looks at.
-/

namespace N64San.Ubsan

/-! ## Programs that decide -/

/-- The program makes a report of the given kind if `accepted` holds, and fails
without one otherwise. -/
structure Decides (kind : San Unit → Prop) (accepted : Prop) (program : San Unit) : Prop where
  reports : accepted → kind program
  fails : ¬ accepted → Fails program

section Decides

variable {kind kind' : San Unit → Prop} {accepted accepted' : Prop} {program : San Unit}

theorem decides_of_reports (h : kind program) : Decides kind True program :=
  ⟨fun _ => h, fun hnot => absurd trivial hnot⟩

theorem Decides.congr (h : Decides kind accepted program) (hiff : accepted ↔ accepted') :
    Decides kind accepted' program where
  reports haccepted := h.reports (hiff.mpr haccepted)
  fails hnot := h.fails fun haccepted => hnot (hiff.mp haccepted)

theorem Decides.mono (h : Decides kind accepted program) (himp : kind program → kind' program) :
    Decides kind' accepted program where
  reports haccepted := himp (h.reports haccepted)
  fails := h.fails

end Decides

/-! ## The entry points -/

/-- The recoverable handlers with their arguments. -/
inductive Entry
  | typeMismatchV1 (data : TypeMismatchData) (pointer : ValueHandle)
  | addOverflow (data : OverflowData) (lhs rhs : ValueHandle)
  | subOverflow (data : OverflowData) (lhs rhs : ValueHandle)
  | mulOverflow (data : OverflowData) (lhs rhs : ValueHandle)
  | negateOverflow (data : OverflowData) (oldVal : ValueHandle)
  | divremOverflow (data : OverflowData) (lhs rhs : ValueHandle)
  | shiftOutOfBounds (data : ShiftOutOfBoundsData) (lhs rhs : ValueHandle)
  | outOfBounds (data : OutOfBoundsData) (index : ValueHandle)
  | pointerOverflow (data : PointerOverflowData) (base result : ValueHandle)

theorem ubsanOverflowHandler_recover (op : String) (data : OverflowData)
    (lhs rhs : ValueHandle) :
    ubsanOverflowHandler op false data lhs rhs = handleIntegerOverflowImpl data lhs op rhs :=
  bind_pure_unit

theorem ubsanOverflowHandler_abort (op : String) (data : OverflowData)
    (lhs rhs : ValueHandle) :
    ubsanOverflowHandler op true data lhs rhs =
      (do ubsanOverflowHandler op false data lhs rhs; die) := by
  rw [ubsanOverflowHandler_recover]
  rfl

namespace Entry

variable (ram : Ram)

def handle : Entry → San Unit
  | typeMismatchV1 data pointer => ubsanHandleTypeMismatchV1 data pointer
  | addOverflow data lhs rhs => ubsanHandleAddOverflow data lhs rhs
  | subOverflow data lhs rhs => ubsanHandleSubOverflow data lhs rhs
  | mulOverflow data lhs rhs => ubsanHandleMulOverflow data lhs rhs
  | negateOverflow data oldVal => ubsanHandleNegateOverflow data oldVal
  | divremOverflow data lhs rhs => ubsanHandleDivremOverflow ram data lhs rhs
  | shiftOutOfBounds data lhs rhs => ubsanHandleShiftOutOfBounds ram data lhs rhs
  | outOfBounds data index => ubsanHandleOutOfBounds data index
  | pointerOverflow data base result => ubsanHandlePointerOverflow data base result

def handleAbort : Entry → San Unit
  | typeMismatchV1 data pointer => ubsanHandleTypeMismatchV1Abort data pointer
  | addOverflow data lhs rhs => ubsanHandleAddOverflowAbort data lhs rhs
  | subOverflow data lhs rhs => ubsanHandleSubOverflowAbort data lhs rhs
  | mulOverflow data lhs rhs => ubsanHandleMulOverflowAbort data lhs rhs
  | negateOverflow data oldVal => ubsanHandleNegateOverflowAbort data oldVal
  | divremOverflow data lhs rhs => ubsanHandleDivremOverflowAbort ram data lhs rhs
  | shiftOutOfBounds data lhs rhs => ubsanHandleShiftOutOfBoundsAbort ram data lhs rhs
  | outOfBounds data index => ubsanHandleOutOfBoundsAbort data index
  | pointerOverflow data base result => ubsanHandlePointerOverflowAbort data base result

/-- The source location in the record of the entry. -/
def loc : Entry → SourceLocation
  | typeMismatchV1 data _ => data.loc
  | addOverflow data _ _ => data.loc
  | subOverflow data _ _ => data.loc
  | mulOverflow data _ _ => data.loc
  | negateOverflow data _ => data.loc
  | divremOverflow data _ _ => data.loc
  | shiftOutOfBounds data _ _ => data.loc
  | outOfBounds data _ => data.loc
  | pointerOverflow data _ _ => data.loc

/-- The strings in memory that a report of the entry may print. -/
def names : Entry → List U32
  | typeMismatchV1 data _ => data.loc.names ++ [data.type.typeName]
  | addOverflow data _ _ => data.loc.names ++ [data.type.typeName]
  | subOverflow data _ _ => data.loc.names ++ [data.type.typeName]
  | mulOverflow data _ _ => data.loc.names ++ [data.type.typeName]
  | negateOverflow data _ => data.loc.names ++ [data.type.typeName]
  | divremOverflow data _ _ => data.loc.names ++ [data.type.typeName]
  | shiftOutOfBounds data _ _ => data.loc.names ++ [data.lhsType.typeName]
  | outOfBounds data _ => data.loc.names ++ [data.arrayType.typeName]
  | pointerOverflow data _ _ => data.loc.names

theorem handleAbort_eq (entry : Entry) :
    entry.handleAbort ram = (do entry.handle ram; die) := by
  cases entry with
  | addOverflow data lhs rhs => exact ubsanOverflowHandler_abort "+" data lhs rhs
  | subOverflow data lhs rhs => exact ubsanOverflowHandler_abort "-" data lhs rhs
  | mulOverflow data lhs rhs => exact ubsanOverflowHandler_abort "*" data lhs rhs
  | _ => rfl

end Entry

/-- The exponent can be read; and unless it is negative, the base has the
descriptor of an integer, and can be read where its sign matters. -/
def ShiftOutOfBoundsData.Accepted (ram : Ram) (data : ShiftOutOfBoundsData)
    (lhs rhs : ValueHandle) : Prop :=
  data.rhsType.Decodable ram rhs ∧
    (data.rhsType.Negative ram rhs ∨
      data.lhsType.isIntegerTy = true ∧
        (data.lhsType.bits.setWidth 64 ≤ data.rhsType.word ram rhs ∨
          (data.lhsType.isSignedIntegerTy = true → data.lhsType.Decodable ram lhs)))

/-- The entry does not index the table of check kinds out of bounds; what happens
there is left open in C. -/
def Entry.InTable : Entry → Prop
  | typeMismatchV1 data _ => data.typeCheckKind.toNat < typeCheckKinds.length
  | _ => True

/-- The records and handles on which the handler makes its report. -/
def Entry.Accepted (ram : Ram) : Entry → Prop
  | divremOverflow data _ rhs =>
      data.type.isSignedIntegerTy = true → data.type.Decodable ram rhs
  | shiftOutOfBounds data lhs rhs => data.Accepted ram lhs rhs
  | _ => True

/-! ## The handlers -/

section Handlers

variable {ram : Ram}

theorem ubsanOverflowHandler_soundly {op : String} (hop : op.toList.all plainChar = true)
    (data : OverflowData) (lhs rhs : ValueHandle) :
    ReportsSoundly (data.loc.names ++ [data.type.typeName]) data.loc
      (ubsanOverflowHandler op false data lhs rhs) := by
  have hfits : messageFits "%s integer overflow: %i %s %i cannot be represented in type %s"
      [.text, .number, .text, .number, .text] = true := by decide
  have hname : data.type.typeName ∈ data.loc.names ++ [data.type.typeName] := by simp
  have hsign : ∀ isSigned : Bool,
      (if isSigned then "signed" else "unsigned").toList.all plainChar = true := by
    decide
  rw [ubsanOverflowHandler_recover]
  apply reportsSoundly_ubsanDiag
  apply Message.of_fits hfits
  · exact .cons (.literal _) (.cons (.number lhs) (.cons (.literal op)
      (.cons (.number rhs) (.cons (.name hname) .nil))))
  · simp only [List.all_cons, plainArg, hsign, hop, List.all_nil, Bool.and_self]

theorem typeCheckKinds_plain :
    ∀ kind ∈ typeCheckKinds, kind.toList.all plainChar = true := by
  decide

theorem typeCheckKind_eq {kind : U8} (h : kind.toNat < typeCheckKinds.length) :
    typeCheckKind kind = pure (typeCheckKinds[kind.toNat]) := by
  rw [typeCheckKind, List.getElem?_eq_getElem h]

theorem handleTypeMismatchImpl_soundly {data : TypeMismatchData}
    (h : data.typeCheckKind.toNat < typeCheckKinds.length) (pointer : ValueHandle) :
    ReportsSoundly (data.loc.names ++ [data.type.typeName]) data.loc
      (handleTypeMismatchImpl data pointer) := by
  let names := data.loc.names ++ [data.type.typeName]
  let kind := typeCheckKinds[data.typeCheckKind.toNat]
  have hname : data.type.typeName ∈ names := by simp [names]
  have hkind : kind.toList.all plainChar = true :=
    typeCheckKinds_plain kind (List.getElem_mem h)
  have hnull : Message names "%s null pointer of type %s"
      [.literal kind, .word data.type.typeName] := by
    apply @Message.of_fits _ _ _ [.text, .text] (by decide)
    · exact .cons (.literal kind) (.cons (.name hname) .nil)
    · simp only [List.all_cons, plainArg, hkind, List.all_nil, Bool.and_self]
  have hmisaligned : ∀ alignment, Message names
      "%s misaligned address 0x%X for type %s, which requires %i byte alignment"
      [.literal kind, .word pointer, .word data.type.typeName, .word alignment] := by
    intro alignment
    apply @Message.of_fits _ _ _ [.text, .number, .text, .number] (by decide)
    · exact .cons (.literal kind) (.cons (.number pointer)
        (.cons (.name hname) (.cons (.number alignment) .nil)))
    · simp only [List.all_cons, plainArg, hkind, List.all_nil, Bool.and_self]
  have hsmall : Message names
      "%s address 0x%X with insufficient space for an object of type %s"
      [.literal kind, .word pointer, .word data.type.typeName] := by
    apply @Message.of_fits _ _ _ [.text, .number, .text] (by decide)
    · exact .cons (.literal kind) (.cons (.number pointer) (.cons (.name hname) .nil))
    · simp only [List.all_cons, plainArg, hkind, List.all_nil, Bool.and_self]
  simp only [handleTypeMismatchImpl, typeCheckKind_eq h, pure_bind]
  rw [typeMismatchError]
  split_ifs
  · exact reportsSoundly_ubsanDiag _ hnull
  · exact reportsSoundly_ubsanDiag _ hnull
  · exact reportsSoundly_ubsanDiag _ (hmisaligned _)
  · exact reportsSoundly_ubsanDiag _ hsmall

theorem handleNegateOverflowImpl_soundly (data : OverflowData) (oldVal : ValueHandle) :
    ReportsSoundly (data.loc.names ++ [data.type.typeName]) data.loc
      (handleNegateOverflowImpl data oldVal) := by
  have hname : data.type.typeName ∈ data.loc.names ++ [data.type.typeName] := by simp
  rw [handleNegateOverflowImpl]
  split_ifs
  · exact reportsSoundly_ubsanDiag _ (message_number_name (by decide) _ hname)
  · exact reportsSoundly_ubsanDiag _ (message_number_name (by decide) _ hname)

theorem handleDivremOverflowImpl_decides (data : OverflowData) (lhs rhs : ValueHandle) :
    Decides (ReportsSoundly (data.loc.names ++ [data.type.typeName]) data.loc)
      (data.type.isSignedIntegerTy = true → data.type.Decodable ram rhs)
      (handleDivremOverflowImpl ram data lhs rhs) where
  reports h := by
    obtain ⟨answer, hanswer⟩ := isMinusOne_of_decodable h
    have hname : data.type.typeName ∈ data.loc.names ++ [data.type.typeName] := by simp
    rw [handleDivremOverflowImpl, Helpers.handleDivremOverflowImpl, hanswer, pure_bind]
    cases answer with
    | true => exact reportsSoundly_ubsanDiag _ (message_number_name (by decide) _ hname)
    | false =>
        cases data.type.isIntegerTy <;>
          exact reportsSoundly_ubsanDiag _ (message_nil (by decide))
  fails h := by
    obtain ⟨hsigned, hdecodable⟩ := Classical.not_imp.mp h
    exact (isMinusOne_fails hsigned hdecodable).bind _

theorem invalidShiftExponent_fails {data : ShiftOutOfBoundsData} {rhs : ValueHandle}
    (h : ¬ data.rhsType.Decodable ram rhs) :
    Fails (Helpers.quoted.invalidShiftExponent ram data rhs) := by
  rw [Helpers.invalidShiftExponent]
  cases hsigned : data.rhsType.isSignedIntegerTy with
  | true => exact (isNegative_fails hsigned h).bind _
  | false =>
      rw [isNegative_of_decodable (by simp [hsigned]), pure_bind,
        decide_eq_false (not_negative hsigned), if_neg Bool.false_ne_true]
      exact (getPositiveIntValue_fails h).bind _

section Exponent

variable {data : ShiftOutOfBoundsData} {rhs : ValueHandle}
  (hrhs : data.rhsType.Decodable ram rhs)

include hrhs

theorem invalidShiftExponent_of_negative (hneg : data.rhsType.Negative ram rhs) :
    Helpers.quoted.invalidShiftExponent ram data rhs = pure true := by
  rw [Helpers.invalidShiftExponent, isNegative_of_decodable fun _ => hrhs, pure_bind,
    decide_eq_true hneg, if_pos rfl]

theorem invalidShiftExponent_of_integer (hneg : ¬ data.rhsType.Negative ram rhs)
    (hlhs : data.lhsType.isIntegerTy = true) :
    Helpers.quoted.invalidShiftExponent ram data rhs =
      pure (decide (data.lhsType.bits.setWidth 64 ≤ data.rhsType.word ram rhs)) := by
  rw [Helpers.invalidShiftExponent, isNegative_of_decodable fun _ => hrhs, pure_bind,
    decide_eq_false hneg, if_neg Bool.false_ne_true,
    getPositiveIntValue_of_decodable hrhs hneg, pure_bind, getIntegerBitWidth_eq hlhs,
    pure_bind]

theorem invalidShiftExponent_fails_of_not_integer (hneg : ¬ data.rhsType.Negative ram rhs)
    (hlhs : data.lhsType.isIntegerTy = false) :
    Fails (Helpers.quoted.invalidShiftExponent ram data rhs) := by
  rw [Helpers.invalidShiftExponent, isNegative_of_decodable fun _ => hrhs, pure_bind,
    decide_eq_false hneg, if_neg Bool.false_ne_true,
    getPositiveIntValue_of_decodable hrhs hneg, pure_bind]
  exact (getIntegerBitWidth_fails hlhs).bind _

end Exponent

theorem handleShiftOutOfBoundsImpl_decides (data : ShiftOutOfBoundsData)
    (lhs rhs : ValueHandle) :
    Decides (ReportsSoundly (data.loc.names ++ [data.lhsType.typeName]) data.loc)
      (data.Accepted ram lhs rhs) (handleShiftOutOfBoundsImpl ram data lhs rhs) where
  reports h := by
    obtain ⟨hrhs, hor⟩ := h
    have hnegative := isNegative_of_decodable (fun _ => hrhs)
    have hname : data.lhsType.typeName ∈ data.loc.names ++ [data.lhsType.typeName] := by simp
    rw [handleShiftOutOfBoundsImpl, Helpers.handleShiftOutOfBoundsImpl]
    by_cases hneg : data.rhsType.Negative ram rhs
    · rw [invalidShiftExponent_of_negative hrhs hneg, pure_bind, if_pos rfl, hnegative,
        pure_bind, if_pos (decide_eq_true hneg)]
      exact reportsSoundly_ubsanDiag _ (message_number (by decide) _)
    · obtain ⟨hlhs, hbase⟩ := hor.resolve_left hneg
      rw [invalidShiftExponent_of_integer hrhs hneg hlhs, pure_bind]
      split_ifs with hlarge
      · rw [hnegative, pure_bind, decide_eq_false hneg, if_neg Bool.false_ne_true,
          getIntegerBitWidth_eq hlhs, pure_bind]
        exact reportsSoundly_ubsanDiag _
          (message_number_number_name (by decide) _ _ hname)
      · have hdecodable := hbase.resolve_left (of_decide_eq_false (by simpa using hlarge))
        rw [isNegative_of_decodable hdecodable, pure_bind]
        split_ifs
        · exact reportsSoundly_ubsanDiag _ (message_number (by decide) _)
        · exact reportsSoundly_ubsanDiag _
            (message_number_number_name (by decide) _ _ hname)
  fails h := by
    rw [handleShiftOutOfBoundsImpl, Helpers.handleShiftOutOfBoundsImpl]
    by_cases hrhs : data.rhsType.Decodable ram rhs
    · obtain ⟨hneg, hbase⟩ := not_or.mp fun hor => h ⟨hrhs, hor⟩
      cases hlhs : data.lhsType.isIntegerTy with
      | false => exact (invalidShiftExponent_fails_of_not_integer hrhs hneg hlhs).bind _
      | true =>
          obtain ⟨hlarge, hbase⟩ := not_or.mp fun hor => hbase ⟨hlhs, hor⟩
          obtain ⟨hsigned, hdecodable⟩ := Classical.not_imp.mp hbase
          rw [invalidShiftExponent_of_integer hrhs hneg hlhs, pure_bind,
            decide_eq_false hlarge, if_neg Bool.false_ne_true]
          exact (isNegative_fails hsigned hdecodable).bind _
    · exact (invalidShiftExponent_fails hrhs).bind _

theorem handlePointerOverflowImpl_soundly (data : PointerOverflowData)
    (base result : ValueHandle) :
    ReportsSoundly data.loc.names data.loc (handlePointerOverflowImpl data base result) := by
  rw [handlePointerOverflowImpl]
  split_ifs
  · exact reportsSoundly_ubsanDiag _ (message_nil (by decide))
  · exact reportsSoundly_ubsanDiag _ (message_number (by decide) _)
  · exact reportsSoundly_ubsanDiag _ (message_number (by decide) _)
  · exact reportsSoundly_ubsanDiag _ (message_number_number (by decide) _ _)
  · exact reportsSoundly_ubsanDiag _ (message_number_number (by decide) _ _)
  · exact reportsSoundly_ubsanDiag _ (message_number_number (by decide) _ _)

/-- Every handler makes one report with a format that fits, or it fails. -/
theorem Entry.handle_decides {entry : Entry} (h : entry.InTable) :
    Decides (ReportsSoundly entry.names entry.loc) (entry.Accepted ram) (entry.handle ram) := by
  cases entry with
  | typeMismatchV1 data pointer =>
      exact decides_of_reports (handleTypeMismatchImpl_soundly h pointer)
  | addOverflow data lhs rhs =>
      exact decides_of_reports (ubsanOverflowHandler_soundly (by decide) data lhs rhs)
  | subOverflow data lhs rhs =>
      exact decides_of_reports (ubsanOverflowHandler_soundly (by decide) data lhs rhs)
  | mulOverflow data lhs rhs =>
      exact decides_of_reports (ubsanOverflowHandler_soundly (by decide) data lhs rhs)
  | negateOverflow data oldVal =>
      exact decides_of_reports (handleNegateOverflowImpl_soundly data oldVal)
  | divremOverflow data lhs rhs => exact handleDivremOverflowImpl_decides data lhs rhs
  | shiftOutOfBounds data lhs rhs => exact handleShiftOutOfBoundsImpl_decides data lhs rhs
  | outOfBounds data index =>
      have hname : data.arrayType.typeName ∈ data.loc.names ++ [data.arrayType.typeName] := by
        simp
      exact decides_of_reports
        (reportsSoundly_ubsanDiag _ (message_number_name (by decide) index hname))
  | pointerOverflow data base result =>
      exact decides_of_reports (handlePointerOverflowImpl_soundly data base result)

end Handlers

end N64San.Ubsan
