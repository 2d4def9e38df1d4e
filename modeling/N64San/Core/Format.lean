import N64San.Core.Varargs

/-!
# Formats that fit their arguments

A format fits a list of arguments when each directive finds an argument of its
own type.  Such a call prints each argument where its directive stands,
wherever in the slots the variadic arguments begin.  Whether it does can be
checked from the format and the kinds of the arguments alone.
-/

namespace N64San.Varargs

open BigEndian

/-- What a directive prints of an argument of its own type. -/
def Directive.piece? : Directive → Arg → Option Piece
  | .signed, .word value => some (.decimal value.toInt)
  | .unsigned, .word value => some (.decimal value.toNat)
  | .hex, .word value => some (.hex value)
  | .string, .word pointer => some (.string (.word pointer))
  | .string, .literal text => some (.string (.literal text))
  | .float, .double bits => some (.float bits)
  | _, _ => none

/-- The items with each directive replaced by what it prints of its own
argument; further arguments are ignored. -/
def render : List Item → List Arg → Option (List Piece)
  | [], _ => some []
  | .text c :: items, args => (render items args).map (Piece.text c :: ·)
  | .directive d :: items, arg :: args =>
      (d.piece? arg).bind fun piece => (render items args).map (piece :: ·)
  | .directive _ :: _, [] => none

/-- The pieces that a format prints of arguments that it fits. -/
def render? (format : String) (args : List Arg) : Option (List Piece) :=
  render (parse false format.toList) args

theorem render_text {c : Char} {items : List Item} {args : List Arg} {pieces : List Piece}
    (h : render (.text c :: items) args = some pieces) :
    ∃ rest, render items args = some rest ∧ pieces = .text c :: rest := by
  obtain ⟨rest, hrest, rfl⟩ := Option.map_eq_some_iff.mp h
  exact ⟨rest, hrest, rfl⟩

theorem render_directive {d : Directive} {items : List Item} {args : List Arg}
    {pieces : List Piece} (h : render (.directive d :: items) args = some pieces) :
    ∃ arg args' piece rest, args = arg :: args' ∧ d.piece? arg = some piece ∧
      render items args' = some rest ∧ pieces = piece :: rest := by
  cases args with
  | nil => exact absurd h (by simp [render])
  | cons arg args =>
      obtain ⟨piece, hpiece, hmap⟩ := Option.bind_eq_some_iff.mp h
      obtain ⟨rest, hrest, rfl⟩ := Option.map_eq_some_iff.mp hmap
      exact ⟨arg, args, piece, rest, rfl, hpiece, hrest, rfl⟩

/-- A double is found behind the padding that its position asks for. -/
theorem walk_float (i : ℕ) (bits : Double) (items : List Item) (args : List Arg) :
    ∃ j, walk i (.directive .float :: items) (layout i (.double bits :: args)) =
      .float bits :: walk j items (layout j args) := by
  rcases Nat.mod_two_eq_zero_or_one i with heven | hodd
  · refine ⟨i + 2, ?_⟩
    rw [layout, if_pos heven]
    simp only [List.cons_append, List.nil_append, walk, heven, high_append_low]
  · refine ⟨i + 3, ?_⟩
    rw [layout, if_neg (by omega)]
    simp only [List.cons_append, List.nil_append, walk, hodd, high_append_low]

/-- One directive and its argument, in whatever slot they meet. -/
theorem walk_directive {d : Directive} {arg : Arg} {piece : Piece}
    (h : d.piece? arg = some piece) (i : ℕ) (items : List Item) (args : List Arg) :
    ∃ j, walk i (.directive d :: items) (layout i (arg :: args)) =
      piece :: walk j items (layout j args) := by
  cases d <;> cases arg <;> cases h
  case float.double bits => exact walk_float i bits items args
  all_goals exact ⟨i + 1, rfl⟩

/-- A format that fits its arguments prints each of them in its place. -/
theorem walk_layout {items : List Item} {args : List Arg} {pieces : List Piece}
    (h : render items args = some pieces) (i : ℕ) :
    walk i items (layout i args) = pieces := by
  induction items generalizing args pieces i with
  | nil => exact Option.some.inj h
  | cons item items ih =>
      cases item with
      | text c =>
          obtain ⟨rest, hrest, rfl⟩ := render_text h
          exact congrArg _ (ih hrest i)
      | directive d =>
          obtain ⟨arg, args, piece, rest, rfl, hpiece, hrest, rfl⟩ := render_directive h
          obtain ⟨j, hwalk⟩ := walk_directive hpiece i items args
          rw [hwalk, ih hrest j]

/-- The number of named arguments does not matter. -/
theorem vprintf_vaStart {format : String} {args : List Arg} {pieces : List Piece}
    (h : render? format args = some pieces) (fixed : ℕ) :
    vprintf format (vaStart fixed args) = pieces :=
  walk_layout h fixed

/-! ## Where the pieces come from -/

theorem mem_of_text_mem_parse {c : Char} {inside : Bool} {text : List Char}
    (h : Item.text c ∈ parse inside text) : c ∈ text := by
  induction text generalizing inside with
  | nil => exact absurd h List.not_mem_nil
  | cons d text ih =>
      rw [parse] at h
      split_ifs at h
      · exact List.mem_cons_of_mem d (ih h)
      · split at h
        · rcases List.mem_cons.mp h with heq | hrest
          · exact absurd heq (by simp)
          · exact List.mem_cons_of_mem d (ih hrest)
        · rcases List.mem_cons.mp h with heq | hrest
          · exact List.mem_cons.mpr (Or.inl (Item.text.inj heq))
          · exact List.mem_cons_of_mem d (ih hrest)
      · exact List.mem_cons_of_mem d (ih h)
      · rcases List.mem_cons.mp h with heq | hrest
        · exact List.mem_cons.mpr (Or.inl (Item.text.inj heq))
        · exact List.mem_cons_of_mem d (ih hrest)

/-- A piece is a character of the format or made of one of the arguments. -/
theorem mem_of_render {items : List Item} {args : List Arg} {pieces : List Piece}
    (h : render items args = some pieces) {piece : Piece} (hpiece : piece ∈ pieces) :
    (∃ c, Item.text c ∈ items ∧ piece = .text c) ∨
      ∃ d : Directive, ∃ arg ∈ args, d.piece? arg = some piece := by
  induction items generalizing args pieces with
  | nil =>
      cases h
      exact absurd hpiece List.not_mem_nil
  | cons item items ih =>
      cases item with
      | text c =>
          obtain ⟨rest, hrest, rfl⟩ := render_text h
          rcases List.mem_cons.mp hpiece with rfl | hmem
          · exact Or.inl ⟨c, List.mem_cons_self, rfl⟩
          · exact (ih hrest hmem).imp_left fun ⟨d, hd, heq⟩ =>
              ⟨d, List.mem_cons_of_mem _ hd, heq⟩
      | directive d =>
          obtain ⟨arg, args', first, rest, rfl, hfirst, hrest, rfl⟩ := render_directive h
          rcases List.mem_cons.mp hpiece with rfl | hmem
          · exact Or.inr ⟨d, arg, List.mem_cons_self, hfirst⟩
          · rcases ih hrest hmem with ⟨c, hc, heq⟩ | ⟨d', arg', harg', heq⟩
            · exact Or.inl ⟨c, List.mem_cons_of_mem _ hc, heq⟩
            · exact Or.inr ⟨d', arg', List.mem_cons_of_mem _ harg', heq⟩

theorem Directive.piece?_ne_unspecified {d : Directive} {arg : Arg} :
    d.piece? arg ≠ some .unspecified := by
  cases d <;> cases arg <;> exact fun h => by cases h

/-- Nothing that is printed of an argument of its own is unspecified. -/
theorem unspecified_notMem_of_render {items : List Item} {args : List Arg}
    {pieces : List Piece} (h : render items args = some pieces) : .unspecified ∉ pieces := by
  intro hmem
  rcases mem_of_render h hmem with ⟨c, _, htext⟩ | ⟨d, arg, _, hpiece⟩
  · cases htext
  · exact Directive.piece?_ne_unspecified hpiece

/-! ## Checking a format -/

/-- What is known of an argument when the call is written. -/
inductive Kind
  | number
  | text
  | double
  deriving DecidableEq, Repr

/-- The pointer leads to a literal or to one of the given strings. -/
def Slot.IsText (names : List Word) (slot : Slot) : Prop :=
  (∃ text, slot = .literal text) ∨ ∃ name ∈ names, slot = .word name

/-- The argument is of the given kind; `names` are the strings in memory. -/
inductive HasKind (names : List Word) : Kind → Arg → Prop
  | number (value : Word) : HasKind names .number (.word value)
  | literal (text : String) : HasKind names .text (.literal text)
  | name {name : Word} (hname : name ∈ names) : HasKind names .text (.word name)
  | double (value : Double) : HasKind names .double (.double value)

def Directive.accepts : Directive → Kind → Bool
  | .signed, .number => true
  | .unsigned, .number => true
  | .hex, .number => true
  | .string, .text => true
  | .float, .double => true
  | _, _ => false

/-- The check of a format against the kinds of its arguments. -/
def fits : List Item → List Kind → Bool
  | [], _ => true
  | .text _ :: items, kinds => fits items kinds
  | .directive d :: items, kind :: kinds => d.accepts kind && fits items kinds
  | .directive _ :: _, [] => false

/-- No other strings are read than literals and the given ones. -/
def ReadsOnly (names : List Word) (pieces : List Piece) : Prop :=
  ∀ slot ∈ pointers pieces, slot.IsText names

theorem ReadsOnly.cons {names : List Word} {pieces : List Piece} {piece : Piece}
    (h : ReadsOnly names pieces)
    (hpointer : ∀ slot, piece = .string slot → slot.IsText names) :
    ReadsOnly names (piece :: pieces) := by
  intro slot hslot
  cases piece with
  | string pointer =>
      rcases List.mem_cons.mp hslot with rfl | hrest
      · exact hpointer _ rfl
      · exact h slot hrest
  | _ => exact h slot hslot

theorem Directive.accepts_sound {names : List Word} {d : Directive} {kind : Kind} {arg : Arg}
    (haccepts : d.accepts kind = true) (harg : HasKind names kind arg) :
    ∃ piece, d.piece? arg = some piece ∧
      ∀ slot, piece = .string slot → slot.IsText names := by
  cases harg with
  | number value =>
      cases d <;> cases haccepts <;> exact ⟨_, rfl, by simp⟩
  | literal text =>
      cases d <;> cases haccepts
      refine ⟨_, rfl, ?_⟩
      rintro slot ⟨⟩
      exact Or.inl ⟨text, rfl⟩
  | name hname =>
      cases d <;> cases haccepts
      refine ⟨_, rfl, ?_⟩
      rintro slot ⟨⟩
      exact Or.inr ⟨_, hname, rfl⟩
  | double value =>
      cases d <;> cases haccepts
      exact ⟨_, rfl, by simp⟩

/-- A format that passes the check does not go wrong. -/
theorem fits_sound {names : List Word} {items : List Item} {kinds : List Kind}
    {args : List Arg} (hfits : fits items kinds = true)
    (hargs : List.Forall₂ (HasKind names) kinds args) :
    ∃ pieces, render items args = some pieces ∧ ReadsOnly names pieces := by
  induction items generalizing kinds args with
  | nil => exact ⟨[], rfl, fun _ hslot => absurd hslot List.not_mem_nil⟩
  | cons item items ih =>
      cases item with
      | text c =>
          obtain ⟨rest, hrest, hreads⟩ := ih hfits hargs
          exact ⟨.text c :: rest, by rw [render, hrest, Option.map_some],
            hreads.cons (by simp)⟩
      | directive d =>
          cases hargs with
          | nil => exact absurd hfits (by simp [fits])
          | cons harg hargs =>
              obtain ⟨haccepts, hrest⟩ := Bool.and_eq_true_iff.mp hfits
              obtain ⟨piece, hpiece, hpointer⟩ := Directive.accepts_sound haccepts harg
              obtain ⟨rest, hrender, hreads⟩ := ih hrest hargs
              exact ⟨piece :: rest,
                by rw [render, hpiece, Option.bind_some, hrender, Option.map_some],
                hreads.cons hpointer⟩

end N64San.Varargs
