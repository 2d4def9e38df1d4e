import Mathlib.Data.List.DropRight
import N64San.Core.Codec

/-!
# Numbers at the end of a text

Decimal numbers with a mark in front of each are read off the end of a text.
Where fewer of them stand there than may stand there, a text that ends in such
a number itself is misread, and no other one.
-/

namespace N64San.Framing

variable {mark : Char}

end N64San.Framing
