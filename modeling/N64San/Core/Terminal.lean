import Mathlib.Data.List.Basic

/-!
# A terminal that knows bold and colours

A terminal shows characters with the attributes that are in force, and changes
the attributes when it is sent `ESC [ parameters m`.
-/

namespace N64San.Vt

def esc : Char := '\x1b'

structure Attributes where
  bold : Bool
  colour : Option ℕ
  deriving DecidableEq, Repr

namespace Attributes

def plain : Attributes := ⟨false, none⟩

/-- One parameter: `0` resets, `1` is bold, `30` to `37` are colours. -/
def select (attributes : Attributes) (parameter : ℕ) : Attributes :=
  if parameter = 0 then plain
  else if parameter = 1 then { attributes with bold := true }
  else if 30 ≤ parameter ∧ parameter ≤ 37 then
    { attributes with colour := some (parameter - 30) }
  else attributes

end Attributes

/-- Where the terminal is in a sequence; `done` are the parameters read, and
`current` the one that is being read. -/
inductive Mode
  | text
  | escape
  | parameters (done : List ℕ) (current : ℕ)
  deriving DecidableEq, Repr

/-- What the terminal shows, and with which attributes. -/
abbrev Screen := List (Char × Attributes)

structure Terminal where
  mode : Mode
  attributes : Attributes
  screen : Screen
  deriving DecidableEq, Repr

namespace Terminal

/-- A terminal that shows text with the given attributes. -/
def writing (attributes : Attributes) (screen : Screen) : Terminal :=
  ⟨.text, attributes, screen⟩

/-- The terminal receives one character.  It leaves a sequence that it does not
know. -/
def receive (t : Terminal) (c : Char) : Terminal :=
  match t.mode with
  | .text =>
      if c = esc then { t with mode := .escape }
      else { t with screen := t.screen ++ [(c, t.attributes)] }
  | .escape => if c = '[' then { t with mode := .parameters [] 0 } else { t with mode := .text }
  | .parameters done current =>
      if c.isDigit then { t with mode := .parameters done (10 * current + (c.toNat - 48)) }
      else if c = ';' then { t with mode := .parameters (done ++ [current]) 0 }
      else if c = 'm' then
        { t with
          mode := .text
          attributes := (done ++ [current]).foldl Attributes.select t.attributes }
      else { t with mode := .text }

def feed (t : Terminal) (text : List Char) : Terminal :=
  text.foldl receive t

theorem feed_append (t : Terminal) (left right : List Char) :
    t.feed (left ++ right) = (t.feed left).feed right :=
  List.foldl_append

/-- Text without an escape character is shown as it is. -/
theorem feed_text {text : List Char} (htext : esc ∉ text) (attributes : Attributes)
    (screen : Screen) :
    (writing attributes screen).feed text =
      writing attributes (screen ++ text.map fun c => (c, attributes)) := by
  induction text generalizing screen with
  | nil => exact congrArg (writing attributes) (List.append_nil screen).symm
  | cons c text ih =>
      obtain ⟨hc, hrest⟩ := not_or.mp (List.mem_cons.not.mp htext)
      have hreceive : (writing attributes screen).receive c =
          writing attributes (screen ++ [(c, attributes)]) := if_neg (Ne.symm hc)
      calc
        (writing attributes screen).feed (c :: text) =
            ((writing attributes screen).receive c).feed text := rfl
        _ = writing attributes (screen ++ [(c, attributes)] ++
              text.map fun c => (c, attributes)) := by rw [hreceive, ih hrest]
        _ = writing attributes (screen ++ (c :: text).map fun c => (c, attributes)) := by
          rw [List.append_assoc]
          rfl

end Terminal

end N64San.Vt
