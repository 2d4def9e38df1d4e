import N64San.Core.BigEndian

/-!
# Variadic arguments and `printf`

The o32 calling convention lays a variadic call out in 32-bit slots; a 64-bit
argument takes two of them, the first at an even index, high word first.  A C89
`printf` walks its format and takes from the slots what each directive says,
whatever was put there.
-/

namespace N64San.Varargs

open BigEndian

/-- A 32-bit slot.  A pointer to a string literal is kept as the literal. -/
inductive Slot
  | word (value : Word)
  | literal (text : String)
  | padding
  deriving DecidableEq, Repr

/-- An argument as the caller passes it. -/
inductive Arg
  | word (value : Word)
  | literal (text : String)
  | double (value : Double)
  deriving DecidableEq, Repr

/-- The slots from index `i` on. -/
def layout (i : ℕ) : List Arg → List Slot
  | [] => []
  | .word value :: args => .word value :: layout (i + 1) args
  | .literal text :: args => .literal text :: layout (i + 1) args
  | .double value :: args =>
      let words := [.word (value.extractLsb' 32 32), .word (value.setWidth 32)]
      if i % 2 = 0 then words ++ layout (i + 2) args
      else .padding :: words ++ layout (i + 3) args

/-- The frame of a variadic call: the number of its named arguments, of one slot
each, and the unnamed ones behind them. -/
structure VaList where
  fixed : ℕ
  args : List Arg
  deriving DecidableEq, Repr

/-- `va_start` in a function with `fixed` named arguments. -/
def vaStart (fixed : ℕ) (args : List Arg) : VaList :=
  ⟨fixed, args⟩

/-- The slots that `va_arg` takes one after the other. -/
def VaList.slots (va : VaList) : List Slot :=
  layout va.fixed va.args

/-! ## Formats -/

inductive Directive
  | signed
  | unsigned
  | hex
  | string
  | float
  deriving DecidableEq, Repr

inductive Item
  | text (c : Char)
  | directive (d : Directive)
  deriving DecidableEq, Repr

/-- The conversion after a `%` and its length modifiers; a `long` and a
`size_t` have 32 bits here, so the modifiers change nothing. -/
def conversion : Char → Option Directive
  | 'i' => some .signed
  | 'd' => some .signed
  | 'u' => some .unsigned
  | 'x' => some .hex
  | 'X' => some .hex
  | 'p' => some .hex
  | 's' => some .string
  | 'f' => some .float
  | _ => none

/-- The items of a format; `inside` is true behind a `%`. -/
def parse (inside : Bool) : List Char → List Item
  | [] => []
  | c :: rest =>
      if inside then
        if c = 'l' ∨ c = 'z' then parse true rest
        else
          match conversion c with
          | some d => .directive d :: parse false rest
          | none => .text c :: parse false rest
      else if c = '%' then parse true rest
      else .text c :: parse false rest

/-- What a format and its arguments print. -/
inductive Piece
  | text (c : Char)
  | decimal (value : ℤ)
  | hex (value : Word)
  | string (pointer : Slot)
  | float (bits : Double)
  | unspecified
  deriving DecidableEq, Repr

/-- One directive that takes one slot. -/
def takeSlot : Directive → Slot → Piece
  | .signed, .word value => .decimal value.toInt
  | .unsigned, .word value => .decimal value.toNat
  | .hex, .word value => .hex value
  | .string, pointer => .string pointer
  | _, _ => .unspecified

/-- Walk the items; `i` is the index of the next slot. -/
def walk (i : ℕ) : List Item → List Slot → List Piece
  | [], _ => []
  | .text c :: items, slots => .text c :: walk i items slots
  | .directive .float :: items, slots =>
      match i % 2, slots with
      | 0, .word high :: .word low :: slots =>
          .float (high ++ low) :: walk (i + 2) items slots
      | 1, _ :: .word high :: .word low :: slots =>
          .float (high ++ low) :: walk (i + 3) items slots
      | _, _ => .unspecified :: walk i items []
  | .directive d :: items, slot :: slots => takeSlot d slot :: walk (i + 1) items slots
  | .directive _ :: items, [] => .unspecified :: walk i items []

/-- `vprintf`. -/
def vprintf (format : String) (args : VaList) : List Piece :=
  walk args.fixed (parse false format.toList) args.slots

theorem vprintf_vaStart_eq (format : String) (fixed : ℕ) (args : List Arg) :
    vprintf format (vaStart fixed args) =
      walk fixed (parse false format.toList) (layout fixed args) := rfl

/-! ## What is read off the printed pieces -/

/-- The decimal numbers, in order. -/
def decimals (pieces : List Piece) : List ℤ :=
  pieces.filterMap fun
    | .decimal value => some value
    | _ => none

/-- The pointers that a `%s` dereferences, in order. -/
def pointers (pieces : List Piece) : List Slot :=
  pieces.filterMap fun
    | .string pointer => some pointer
    | _ => none

/-! ## The printed text -/

/-- What an implementation of `printf` prints where the value alone does not
say it; a string is known by its pointer. -/
structure Printer where
  string : Slot → List Char
  hex : Word → List Char
  float : Double → List Char
  unspecified : List Char

/-- A number in decimal. -/
def decimalText (value : ℤ) : List Char :=
  value.repr.toList

namespace Printer

variable (printer : Printer)

def piece : Piece → List Char
  | .text c => [c]
  | .decimal value => decimalText value
  | .hex value => printer.hex value
  | .string pointer => printer.string pointer
  | .float bits => printer.float bits
  | .unspecified => printer.unspecified

def print (pieces : List Piece) : List Char :=
  pieces.flatMap printer.piece

end Printer

theorem decimalText_injective : Function.Injective decimalText := by
  intro left right h
  exact Int.repr_injective (String.toList_inj.mp h)

theorem space_notMem_toDigits (n : ℕ) : ' ' ∉ Nat.toDigits 10 n := by
  intro hmem
  have hdigit := Nat.isDigit_of_mem_toDigits (by decide) (by decide) hmem
  exact absurd hdigit (by decide)

theorem space_notMem_decimalText (value : ℤ) : ' ' ∉ decimalText value := by
  cases value with
  | ofNat n =>
      rw [decimalText, Int.repr, Nat.toList_repr]
      exact space_notMem_toDigits n
  | negSucc n =>
      rw [decimalText, Int.repr, String.toList_append, Nat.toList_repr, List.mem_append]
      exact not_or.mpr ⟨by decide, space_notMem_toDigits _⟩

/-- A number that a text begins with can be read off up to the first space. -/
theorem takeWhile_decimalText (value : ℤ) (rest : List Char) :
    (decimalText value ++ ' ' :: rest).takeWhile (· ≠ ' ') = decimalText value := by
  have hdigits : ∀ c ∈ decimalText value, decide (c ≠ ' ') = true := fun c hc =>
    decide_eq_true fun hspace => space_notMem_decimalText value (hspace ▸ hc)
  rw [List.takeWhile_append_of_pos hdigits, List.takeWhile_cons_of_neg (by decide),
    List.append_nil]

theorem eq_of_decimalText_append_eq {left right : ℤ} {rest rest' : List Char}
    (h : decimalText left ++ ' ' :: rest = decimalText right ++ ' ' :: rest') :
    left = right := by
  have hleading := congrArg (List.takeWhile (· ≠ ' ')) h
  rw [takeWhile_decimalText, takeWhile_decimalText] at hleading
  exact decimalText_injective hleading

end N64San.Varargs
