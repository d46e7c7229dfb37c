/-
**White space.**

The characters with the Unicode property `White_Space`: the ASCII blanks and controls from tab to
carriage return, and a handful of blanks and separators above ASCII.

Main definitions:

* `LoopSwap.Text.isBlank` — whether a character is white space;
* `LoopSwap.Text.trimBlanks` — a text without the white space at its two ends.
-/

import LoopSwap.Text.Ranges

set_option relaxedAutoImplicit false
set_option autoImplicit false

namespace LoopSwap

namespace Text

set_option maxRecDepth 4000 in
/-- The white space above ASCII. -/
def blankRanges : List (Nat × Nat) :=
  [(0x85, 0x85), (0xA0, 0xA0), (0x1680, 0x1680), (0x2000, 0x200A), (0x2028, 0x2029),
   (0x202F, 0x202F), (0x205F, 0x205F), (0x3000, 0x3000)]

/-- Whether `c` is white space. -/
def isBlank (c : Char) : Bool :=
  if c.toNat < 0x80 then c.toNat = 0x20 || (decide (0x9 ≤ c.toNat) && decide (c.toNat ≤ 0xD))
  else inRanges blankRanges c

/-- A line feed is white space. -/
theorem isBlank_newline : isBlank '\n' = true := by decide

/-- A space is white space. -/
theorem isBlank_space : isBlank ' ' = true := by decide

/-- The text without the white space at its two ends. -/
def trimBlanks (text : List Char) : List Char :=
  ((text.dropWhile isBlank).reverse.dropWhile isBlank).reverse

@[simp] theorem trimBlanks_nil : trimBlanks [] = [] := rfl

end Text

end LoopSwap
