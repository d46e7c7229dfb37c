/-
**Character classes given by ranges of code points.**

A class of characters is written as a list of inclusive ranges of code points.  The class modules
(`Blank`, `Letter`, `Numeral`, `Extender`, `Printable`) answer for ASCII by a direct rule and hold
a table for everything above.

Main definitions:

* `LoopSwap.Text.inRanges` — whether a character lies in one of the ranges.
-/

set_option relaxedAutoImplicit false
set_option autoImplicit false

namespace LoopSwap

namespace Text

/-- Whether the code point of `c` lies in one of the inclusive ranges. -/
def inRanges (ranges : List (Nat × Nat)) (c : Char) : Bool :=
  ranges.any fun r => decide (r.1 ≤ c.toNat) && decide (c.toNat ≤ r.2)

@[simp] theorem inRanges_nil (c : Char) : inRanges [] c = false := rfl

theorem inRanges_iff {ranges : List (Nat × Nat)} {c : Char} :
    inRanges ranges c = true ↔ ∃ r ∈ ranges, r.1 ≤ c.toNat ∧ c.toNat ≤ r.2 := by
  simp [inRanges]

/-- A character below every range is in none of them. -/
theorem inRanges_eq_false_of_lt {ranges : List (Nat × Nat)} {c : Char}
    (h : ∀ r ∈ ranges, c.toNat < r.1) : inRanges ranges c = false := by
  rw [← Bool.not_eq_true, inRanges_iff]
  rintro ⟨r, hr, hle, _⟩
  exact absurd (h r hr) (Nat.not_lt.2 hle)

end Text

end LoopSwap
